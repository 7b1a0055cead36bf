import HelpMiner.CommandLine.Commands
import HelpMiner.Files.Change

/-! The program. It works on the files that standard input names, one path a line. -/
namespace HelpMiner.Main

/-- The names on the way from the root to a directory. -/
def placeOf (dir : String) : Place :=
  ((Text.cutWhere (· == '/') dir.toList).filter fun piece => !piece.isEmpty).map String.ofList

/-- The files that are named, as they are before the run. -/
def readFiles (current : Place) : IO FileTree := do
  let input ← IO.getStdin
  let mut t : FileTree := ⟨[], []⟩
  t := (Action.runOn t (Action.makeDirs ⟨"/" ++ "/".intercalate current⟩)).2
  t := { t with current := current }
  repeat
    let line ← input.getLine
    if line.isEmpty then break
    let name := String.ofList (Text.dropBackWhile (· == '\n') line.toList)
    let bytes ← IO.FS.readBinFile name
    t := (Action.runOn t (Action.writeBytes ⟨name⟩ bytes)).2
  return t

def writeFiles (before after : FileTree) : IO Unit := do
  for n in after.nodes do
    if !n.2.isFile && (before.at? n.1).isNone then
      IO.FS.createDirAll ("/" ++ "/".intercalate n.1)
  for e in FileTree.changed (before.filesFrom []) (after.filesFrom []) do
    IO.FS.writeBinFile ("/" ++ e.1) e.2
  for name in FileTree.gone (before.filesFrom []) (after.filesFrom []) do
    IO.FS.removeFile ("/" ++ name)

/-- The values of the variables that can name the root of an installation. -/
def readVariables (names : List String) : IO (List (String × String)) := do
  let mut values := []
  for name in names do
    if let some value ← IO.getEnv name then values := values ++ [(name, value)]
  return values

end HelpMiner.Main

open HelpMiner in
/-- Run the command that the arguments ask for. No other program can be started, and the time of a
    build is the value of `BUILD_TIME`. -/
def main (arguments : List String) : IO UInt32 := do
  let before ← Main.readFiles (Main.placeOf ((← IO.getEnv "PWD").getD "/"))
  let values ← Main.readVariables (CommandLine.installVars arguments before)
  let env : Environment := {
    valueOf? := fun name => values.lookup name
    now := (← IO.getEnv "BUILD_TIME").getD ""
    run := fun _ t => (.notStarted .notFound, t) }
  let (reply, after) := CommandLine.run env arguments before
  Main.writeFiles before after
  IO.print reply.printed
  if let some failure := reply.failure then IO.eprintln ("error: " ++ failure.message)
  return reply.code.toUInt32
