import HelpMiner.Error
import HelpMiner.Files.Tree

/-! Work on files: what was written stays written when a later step fails. -/
namespace HelpMiner

/-- Work that reads and writes files, and may end in a failure. -/
abbrev Action (α : Type) := ExceptT Error (StateM FileTree) α

namespace Action

/-- Run some work on a tree: its result, and the tree after it. -/
def runOn {α : Type} (t : FileTree) (a : Action α) : Except Error α × FileTree := (a.run).run t

/-- A result that needs no files. -/
def ofExcept {α : Type} (r : Except Error α) : Action α := ExceptT.mk (pure r)

def inspect {α : Type} (p : Path) (f : FileTree → Except Trouble α) : Action α := do
  match f (← get) with
  | .ok a => return a
  | .error why => throw (.io p why)

def change (p : Path) (f : FileTree → Except Trouble FileTree) : Action Unit := do
  set (← inspect p f)

def readText (p : Path) : Action String := inspect p fun t => t.text p

/-- Make a directory unless it is there. Blame `whole` for a failure. -/
def makeDir (whole p : Path) : Action Unit :=
  change whole fun t =>
    match t.makeDir p with
    | .error .occupied => if t.isDir p then .ok t else .error .occupied
    | r => r

/-- Make the directories on the way to a path, as many as its number of steps. -/
def makeWay (whole : Path) : Nat → Path → Action Unit
  | 0, _ => return
  | n + 1, p =>
    match p.parent? with
    | none => return
    | some parent => do
      if (← get).makeDir p matches .error .notFound then makeWay whole n parent
      makeDir whole p

def makeDirs (p : Path) : Action Unit := makeWay p p.components.length p

/-- Write a file, and the directories on the way to it. -/
def writeBytes (p : Path) (bytes : ByteArray) : Action Unit := do
  match p.parent? with
  | some parent => makeDirs parent
  | none => pure ()
  change p fun t => t.write p bytes

def writeText (p : Path) (text : String) : Action Unit := writeBytes p text.toUTF8

def removeFile (p : Path) : Action Unit := change p fun t => t.removeFile p

end Action

end HelpMiner
