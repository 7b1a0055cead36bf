/-! The values that documents hold. -/
namespace HelpMiner.Document

/-- A value: the members of a map stand in the order in which they are written. -/
inductive Value where
  | null
  | bool (b : Bool)
  | nat (n : Nat)
  | text (s : String)
  | list (items : List Value)
  | map (members : List (String × Value))
  deriving Repr, Inhabited

namespace Value

def text? : Value → Option String
  | text s => some s
  | _ => none

def bool? : Value → Option Bool
  | bool b => some b
  | _ => none

def nat? : Value → Option Nat
  | nat n => some n
  | _ => none

def items? : Value → Option (List Value)
  | list vs => some vs
  | _ => none

def members? : Value → Option (List (String × Value))
  | map ms => some ms
  | _ => none

def member? (name : String) (v : Value) : Option Value :=
  v.members?.bind fun ms => (ms.find? fun m => m.1 == name).map (·.2)

/-- What a value stands for, unless it is null. -/
def optional? {α : Type} (read : Value → Option α) : Value → Option (Option α)
  | null => some none
  | v => (read v).map some

def texts (ss : List String) : Value := list (ss.map text)

def texts? (v : Value) : Option (List String) := v.items?.bind fun vs => vs.mapM text?

end Value

end HelpMiner.Document
