import HelpMiner.Files.Action
import HelpMiner.Override.Patch

/-! Tables of corrections, and their application to a schema: all of them or none. -/
namespace HelpMiner

abbrev OverrideTable := SortedTable Patch

namespace OverrideTable

/-- The table in a YAML text. A blank text is an empty table. -/
def parse (text : String) : Except Error OverrideTable :=
  if Text.hasInk text.toList then (Format.yaml.read text).mapError .overrideTable
  else .ok .empty

/-- The table in a file. A file that is not there is an empty table. -/
def load (p : Path) : Action OverrideTable := do
  match (← get).text p with
  | .ok text => Action.ofExcept (parse text)
  | .error .notFound => return .empty
  | .error why => throw (.io p why)

/-- The names that a schema does not have, in ascending order. -/
def unknownCommands (t : OverrideTable) (s : Schema) : List String :=
  t.keys.filter fun name => !s.contains name

/-- Patch the entry of one command, if the schema has it, and count the patch. -/
def patchOne (state : Schema × Nat) (record : String × Patch) : Schema × Nat :=
  if state.1.contains record.1 then (state.1.adjust record.1 record.2.apply, state.2 + 1) else state

/-- The schema after all patches of the table, with the number of patches. -/
def patchAll (t : OverrideTable) (s : Schema) : Schema × Nat := t.entries.foldl patchOne (s, 0)

/-- Apply the table to a schema in place: the number of patches, or the unknown names. Every name
    is checked before anything is written. -/
def amend (t : OverrideTable) (s : Schema) : Except Error Nat × Schema :=
  match t.unknownCommands s with
  | [] => (.ok (t.patchAll s).2, (t.patchAll s).1)
  | names => (.error (.unknownCommands names), s)

/-- The patched schema with the number of patches, unless some name is unknown. -/
def apply (t : OverrideTable) (s : Schema) : Except Error (Schema × Nat) :=
  (t.amend s).1.map fun applied => ((t.amend s).2, applied)

end OverrideTable

end HelpMiner
