import HelpMiner.Files.Action

/-! Work that also prints. -/
namespace HelpMiner.CommandLine

inductive Failure where
  | error (e : Error)
  | unreadable (p : Path) (why : Trouble)
  /-- The name of a page's file is no name. -/
  | noName
  | issues (count : Nat) (schema : Path)
  | noCommand (name : String) (schema : Path)
  deriving DecidableEq, Repr

def Failure.message : Failure → String
  | error e => e.message
  | unreadable p why => "Failed to read '" ++ p.text ++ "': " ++ why.message
  | noName => "Cannot derive a command name; pass --name"
  | issues count schema => toString count ++ " issue(s) found in '" ++ schema.text ++ "'"
  | noCommand name schema => "Command '" ++ name ++ "' not found in '" ++ schema.text ++ "'"

/-- Work on files that prints. What was printed stays printed when a later step fails. -/
abbrev Console (α : Type) := ExceptT Failure (StateT String (StateM FileTree)) α

namespace Console

def print (text : String) : Console Unit := do
  let printed : String ← get
  set (printed ++ text)

def printLine (line : String) : Console Unit := print (line ++ "\n")

def act {α : Type} (a : Action α) : Console α :=
  ExceptT.mk do
    let r ← (a.run : StateM FileTree (Except Error α))
    return r.mapError Failure.error

def files : Console FileTree := act get

end Console

end HelpMiner.CommandLine
