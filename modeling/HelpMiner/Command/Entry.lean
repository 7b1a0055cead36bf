import HelpMiner.Command.Kind
import HelpMiner.Table.Sorted

/-! The interfaces of commands: their parameters, return bindings and kinds. -/
namespace HelpMiner

/-- Names with this beginning stand for records. -/
def recordLead : String := "T_"

/-- A parameter with its documented type. -/
structure Param where
  name : String
  type : String
  deriving DecidableEq, Repr, Inhabited

namespace Param

def declaration (p : Param) : String := p.name ++ " As " ++ p.type

/-- The name without the parentheses of an array, as it stands in a call. -/
def bareName (p : Param) : String :=
  String.ofList (p.name.toList.filter fun c => !(c == '(' || c == ')'))

end Param

structure Entry where
  description : String
  params : List Param
  /-- Nothing, a name, or a name and a type. -/
  returns : List String
  kind : Kind
  deriving DecidableEq, Repr, Inhabited

namespace Entry

/-- An entry without parameters and return binding. -/
def plain (description : String) (kind : Kind) : Entry := ⟨description, [], [], kind⟩

def returnName? (e : Entry) : Option String := e.returns[0]?

def returnType? (e : Entry) : Option String := e.returns[1]?

def hasReturns (e : Entry) : Bool := !e.returns.isEmpty

def returnsDeclaration (e : Entry) : String := " As ".intercalate e.returns

end Entry

/-- The interfaces of all commands, in ascending order of their names. -/
abbrev Schema := SortedTable Entry

namespace Schema

def namesOfKind (s : Schema) (kind : Kind) : List String :=
  (s.entries.filter fun e => e.2.kind == kind).map (·.1)

def countKind (counts : List (Kind × Nat)) (kind : Kind) : List (Kind × Nat) :=
  counts.map fun c => if c.1 = kind then (c.1, c.2 + 1) else c

/-- How many commands there are of each kind, zero included. -/
def kindCounts (s : Schema) : List (Kind × Nat) :=
  (s.entries.map fun e => e.2.kind).foldl countKind (Kind.all.map fun k => (k, 0))

end Schema

end HelpMiner
