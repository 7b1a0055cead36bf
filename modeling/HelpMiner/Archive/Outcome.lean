import HelpMiner.Document.Format

/-! How the unpacking of an archive ended. -/
namespace HelpMiner.Archive

open Document (Value Shape)

inductive Outcome where
  | completed
  | failed (reason : String)
  /-- No program is set. -/
  | skipped
  deriving DecidableEq, Repr, Inhabited

namespace Outcome

def text : Outcome → String
  | completed => "completed"
  | failed reason => "failed: " ++ reason
  | skipped => "skipped"

/-- The shape of an outcome: a status, and the reason of a failure. -/
def shape : Shape := .tagged "DecompileOutcome" "status" [
  ⟨"completed", "Completed", none⟩,
  ⟨"failed", "Failed", some "reason"⟩,
  ⟨"skipped", "Skipped", none⟩]

def toValue : Outcome → Value
  | completed => .map [("status", .text "completed")]
  | failed reason => .map [("status", .text "failed"), ("reason", .text reason)]
  | skipped => .map [("status", .text "skipped")]

def ofValue? (v : Value) : Option Outcome := do
  let status ← (← v.member? "status").text?
  if status == "completed" then some completed
  else if status == "failed" then (v.member? "reason").bind Value.text? |>.map failed
  else if status == "skipped" then some skipped
  else none

instance : Documented Outcome := ⟨shape, toValue, ofValue?⟩

end Outcome

end HelpMiner.Archive
