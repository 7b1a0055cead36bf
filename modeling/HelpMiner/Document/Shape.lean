import HelpMiner.Document.Value

/-! Shapes: what a document has to look like to be read as a value of some type. -/
namespace HelpMiner.Document

/-- What stands for a field that a map does not have. -/
inductive Missing where
  /-- Nothing: the field is required. -/
  | required
  /-- Null, in a map; where fields stand in order, the field is required. -/
  | null
  | default (v : Value)
  deriving Inhabited

/-- One of the alternatives that a tag tells apart, with a text field or none. -/
structure Variant where
  tag : String
  label : String
  field : Option String
  deriving DecidableEq, Repr

mutual

/-- The shape of a value. -/
inductive Shape where
  | text
  | path
  | bool
  /-- A number below 2^64, with the name of its type in messages. -/
  | unsigned (type : String)
  /-- Null, or a value of the shape. -/
  | optional (inner : Shape)
  | list (item : Shape)
  | textPair
  | table (key value : Shape)
  | sections
  | choice (names : List String)
  /-- A text that names a value; the reading gives its first name, or the words of refusal. -/
  | selector (read : String → Except String String)
  /-- A map with fixed keys; a closed one has no others. -/
  | record (name : String) (closed : Bool) (fields : Fields)
  /-- A map in which a tag tells which of the variants it is. -/
  | tagged (name tag : String) (variants : List Variant)

inductive Fields where
  | nil
  | cons (name : String) (shape : Shape) (missing : Missing) (rest : Fields)

end

namespace Fields

def ofList : List (String × Shape × Missing) → Fields
  | [] => nil
  | (name, shape, missing) :: rest => cons name shape missing (ofList rest)

end Fields

/-- The words for an expected number of elements. -/
def elements (n : Nat) : String := if n == 1 then "1 element" else toString n ++ " elements"

end HelpMiner.Document
