import HelpMiner.Document.Problem
import HelpMiner.Document.Shape

/-! Values that are kept as they come until a tag tells how to read them. -/
namespace HelpMiner.Document

/-- A value of no known shape. -/
inductive Content where
  /-- A value that is neither a text nor made of others. -/
  | leaf (f : Found)
  | text (s : String)
  | list (items : List Content)
  | map (members : List (Content × Content))
  deriving Inhabited

namespace Content

def found : Content → Found
  | leaf f => f
  | text s => .string s
  | list _ => .sequence
  | map _ => .map

def asText : Content → Except Mismatch String
  | text s => .ok s
  | c => .error (.wrongType c.found "a string")

/-- Whether a key names the only field of a variant. The field can also go by its number. -/
def isField (field : String) : Content → Except Mismatch Bool
  | text s => .ok (s == field)
  | leaf (.integer n) =>
    if 0 ≤ n then .ok (n == 0) else .error (.wrongType (.integer n) "field identifier")
  | c => .error (.wrongType c.found "field identifier")

def fieldIn (field : String) : Option String → List (Content × Content) → Except Mismatch String
  | some s, [] => .ok s
  | none, [] => .error (.missingField field)
  | seen, (k, v) :: rest => do
    if ← isField field k then
      if seen.isSome then .error (.duplicateField field)
      else fieldIn field (some (← v.asText)) rest
    else fieldIn field seen rest

end Content

namespace Variant

def value (tag : String) (v : Variant) (field : Option (String × String)) : Value :=
  .map ((tag, .text v.tag) :: field.toList.map fun f => (f.1, .text f.2))

/-- What a variant with a field is called in messages. -/
def title (name : String) (v : Variant) : String :=
  "struct variant " ++ name ++ "::" ++ v.label ++ " with 1 element"

/-- Read the rest of a tagged value, once its variant is known. -/
def read (name tag : String) (v : Variant) (rest : Content) : Except Mismatch Value :=
  match v.field, rest with
  | none, .list [] => .ok (v.value tag none)
  | none, .list items => .error (.wrongLength items.length (elements 0 ++ " in sequence"))
  | none, _ => .ok (v.value tag none)
  | some _, .list [] => .error (.wrongLength 0 (v.title name))
  | some f, .list (item :: more) => do
    let s ← item.asText
    if more.isEmpty then .ok (v.value tag (some (f, s)))
    else .error (.wrongLength (more.length + 1) (elements 1 ++ " in sequence"))
  | some f, .map members => do
    let s ← Content.fieldIn f none members
    .ok (v.value tag (some (f, s)))
  | some _, c => .error (.wrongType c.found ("struct variant " ++ name ++ "::" ++ v.label))

def ofTag (variants : List Variant) (tag : String) : Except Mismatch Variant :=
  match variants.find? fun v => v.tag == tag with
  | some v => .ok v
  | none => .error (.unknownVariant tag (variants.map (·.tag)))

end Variant

end HelpMiner.Document
