import HelpMiner.Archive.Outcome
import HelpMiner.Config.Paths
import HelpMiner.Environment
import HelpMiner.Files.Action

/-! Unpacking the archive with an external program, which may fail without ending the build. -/
namespace HelpMiner.Archive

def workDir (archive : Path) : Path :=
  match archive.parent? with
  | some p => if p.text.isEmpty then ⟨"."⟩ else p
  | none => ⟨"."⟩

/-- The archive seen from its directory. -/
def inWorkDir (archive : Path) : Path := (archive.fileName?.map Path.mk).getD archive

/-- The run of the decompiler on an archive: in its directory, into the directory of pages. -/
def invocation (d : Decompiler) (archive output : Path) : Invocation where
  program := d.program
  args := d.arguments (inWorkDir archive) output
  dir := workDir archive
  timeoutSecs := d.timeoutSecs

/-- What the end of a run says of the unpacking. -/
def Outcome.ofRunEnd (d : Decompiler) : RunEnd → Outcome
  | .notStarted why => .failed ("could not start " ++ d.program ++ ": " ++ why.message)
  | .exited 0 => .completed
  | .exited status => .failed (d.program ++ " exited with exit status: " ++ toString status)
  | .timedOut => .failed (d.program ++ " timed out after " ++ toString d.timeoutSecs ++ "s")

/-- Run a program in its directory, if that is there. -/
def start (env : Environment) (i : Invocation) (t : FileTree) : RunEnd × FileTree :=
  match t.find i.dir with
  | .error why => (.notStarted why, t)
  | .ok (.file _) => (.notStarted .notDirectory, t)
  | .ok .dir => env.run i t

/-- Unpack an archive into the directory of pages. Without a program there is nothing to do. -/
def unpack (env : Environment) (c : Config) (archive : Path) : Action Outcome := do
  Action.makeDirs c.htmlPath
  if isBlankText c.decompiler.program then return .skipped
  if c.htmlPath.text.isEmpty then throw (.io c.htmlPath .emptyPath)
  let t ← get
  let output := Path.absolute t.currentPath c.htmlPath
  let (fate, after) := start env (invocation c.decompiler archive output) t
  set after
  return .ofRunEnd c.decompiler fate

end HelpMiner.Archive
