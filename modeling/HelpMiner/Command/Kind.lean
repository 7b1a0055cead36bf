import HelpMiner.Text.Basic

/-! How a documented command behaves when it is called. -/
namespace HelpMiner

inductive Kind where
  /-- Gives a value, as in `x = Cmd(...)`. -/
  | function
  /-- Gives no value. -/
  | subroutine
  /-- A documented record, not a command to call. -/
  | datastruct
  /-- No syntax is documented. -/
  | unknown
  deriving DecidableEq, Repr, Inhabited

namespace Kind

/-- Every kind, in the order of listings. -/
def all : List Kind := [function, subroutine, datastruct, unknown]

def name : Kind → String
  | function => "function"
  | subroutine => "subroutine"
  | datastruct => "datastruct"
  | unknown => "unknown"

/-- Kinds that can be called from a script. -/
def isCallable : Kind → Bool
  | function | subroutine => true
  | datastruct | unknown => false

def ofName? (text : String) : Option Kind :=
  all.find? fun k => Text.sameLetters k.name.toList (Text.trim text.toList)

end Kind

end HelpMiner
