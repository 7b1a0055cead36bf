import HelpMiner.Override.Table

/-! Sessions with a schema: operations on it one after another, and what each of them tells. -/
namespace HelpMiner.Schema

/-- A change of a schema. -/
inductive Operation where
  | insert (name : String) (entry : Entry)
  /-- Put a list of entries in place of all that is there. -/
  | collect (entries : List (String × Entry))
  | patch (name : String) (patch : Patch)
  /-- Apply an override table, all of it or nothing. -/
  | amend (table : OverrideTable)
  deriving DecidableEq

/-- What an operation tells. -/
inductive Answer where
  | replaced (entry : Option Entry)
  | collected
  | patched (entry : Option Entry)
  /-- How many records were applied, or why none was. -/
  | amended (outcome : Except Error Nat)

/-- The answer to an operation, and the schema after it. -/
def perform (s : Schema) : Operation → Answer × Schema
  | .insert name entry => (s.exchange name entry).map .replaced id
  | .collect entries => (.collected, .ofList entries)
  | .patch name p =>
    let after := s.adjust name p.apply
    (.patched (after.get? name), after)
  | .amend t => (t.amend s).map .amended id

/-- The schema after a session that begins with the empty one. -/
def session (history : List Operation) : Schema :=
  history.foldl (fun s o => (s.perform o).2) .empty

end HelpMiner.Schema
