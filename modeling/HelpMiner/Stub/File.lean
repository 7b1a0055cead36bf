import HelpMiner.Config.Paths
import HelpMiner.Files.Action
import HelpMiner.Stub.Source

/-! Stubs in files: one for each command that can be called, and no others. -/
namespace HelpMiner.Stub

structure Summary where
  written : List Path
  skipped : List String
  /-- Stubs of commands that can no longer be called. -/
  removed : List Path
  deriving DecidableEq, Repr

/-- The stubs of a schema with their places, in the order of the commands. -/
def sources (c : Config) (s : Schema) : List (Path × String) :=
  s.entries.filterMap fun e =>
    (source? e.1 e.2 c.wrapColumns).map fun text => (c.stubPath e.1, text)

def skipped (s : Schema) : List String :=
  (s.entries.filter fun e => (Shape.ofEntry? e.2).isNone).map (·.1)

/-- Whether a path has the extension of stubs, up to letter case. -/
def isStub (c : Config) (p : Path) : Bool :=
  match p.extension? with
  | some ext => Text.sameLetters c.stubExtension.toList ext.toList
  | none => false

/-- The paths in the stub directory, for these names, that lead to stubs other than the written
    ones. -/
def staleIn (c : Config) (written : List Path) (t : FileTree) (names : List String) : List Path :=
  (names.map fun n => c.stubsPath.join ⟨n⟩).filter fun p =>
    t.isFile p && isStub c p && !written.any p.same

/-- The stubs of earlier runs that no command has any more. -/
def stale (c : Config) (written : List Path) : Action (List Path) := do
  let t ← get
  match t.list c.stubsPath with
  | .error .notFound => return []
  | .error why => throw (.io c.stubsPath why)
  | .ok nodes => return staleIn c written t nodes.keys

/-- Write the stubs of a schema, and remove those of commands that can no longer be called. -/
def writeAll (c : Config) (s : Schema) : Action Summary := do
  let stubs := sources c s
  stubs.forM fun e => Action.writeText e.1 e.2
  let written := stubs.map (·.1)
  let removed ← stale c written
  removed.forM Action.removeFile
  return ⟨written, skipped s, removed⟩

end HelpMiner.Stub
