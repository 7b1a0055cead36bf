import HelpMiner.Command.Entry

/-! Types of the scripting host, and the documented types they stand for. -/
namespace HelpMiner

inductive HostType where
  | bool
  | int
  | float
  | str
  | record (name : String)
  /-- The documented type has no counterpart. -/
  | noAnalogue
  deriving DecidableEq, Repr

namespace HostType

def name : HostType → String
  | bool => "bool"
  | int => "int"
  | float => "float"
  | str => "str"
  | record n => n
  | noAnalogue => "unknown"

end HostType

def typeKeywords : List (String × HostType) := [
  ("Boolean", .bool), ("Byte", .int), ("Huge_", .int), ("Double", .float), ("Long", .int),
  ("Integer", .int), ("Single", .float), ("String", .str), ("Variant", .noAnalogue),
  ("Object", .noAnalogue)]

namespace HostType

/-- The host type of a documented type: records by their first letters, keywords in any case. -/
def ofDocumented? (type : String) : Option HostType :=
  let t := Text.trim type.toList
  if recordLead.toList.isPrefixOf t then some (record (String.ofList t))
  else (typeKeywords.find? fun k => Text.sameLetters k.1.toList t).map (·.2)

end HostType

/-- How a host type is shown. -/
inductive Rendering where
  | type
  | repr
  | str
  deriving DecidableEq, Repr, Inhabited

namespace Rendering

def name : Rendering → String
  | type => "type"
  | repr => "repr"
  | str => "str"

def ofName? (text : String) : Option Rendering :=
  [type, repr, str].find? fun r => r.name.toList == Text.lower (Text.trim text.toList)

end Rendering

/-- Show the host type of a documented type. A type that is not known is `unknown`; the answer is
    missing when the type itself is asked for and has no counterpart. -/
def showType? (type : String) (rendering : Rendering) : Option String :=
  match HostType.ofDocumented? type, rendering with
  | none, _ => some "unknown"
  | some .noAnalogue, .type => none
  | some (.record n), .type => some ("record " ++ n)
  | some (.record n), .repr => some ("<record '" ++ n ++ "'>")
  | some h, .repr => some ("<type '" ++ h.name ++ "'>")
  | some h, _ => some h.name

end HelpMiner
