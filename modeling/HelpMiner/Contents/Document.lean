import HelpMiner.Document.Format

/-! The entries of a table of contents, and their form in documents. -/
namespace HelpMiner

open Document (Value Fields)

/-- A title with the place of its page. -/
structure ContentsEntry where
  name : String
  target : String
  deriving DecidableEq, Repr, Inhabited

/-- Names without blanks can be commands; the others are chapters. -/
def isCommandName (name : String) : Bool :=
  !name.isEmpty && !name.toList.any Text.isBlank

instance : Documented ContentsEntry where
  shape := .record "TocEntry" false (Fields.ofList [
    ("name", .text, .required),
    ("local_path", .text, .required)])
  toValue e := .map [("name", .text e.name), ("local_path", .text e.target)]
  ofValue? v := do
    let name ← (← v.member? "name").text?
    let target ← (← v.member? "local_path").text?
    some ⟨name, target⟩

end HelpMiner
