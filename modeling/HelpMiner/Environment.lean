import HelpMiner.Files.Tree

/-! What surrounds a run: variables, the clock, and programs that can be started. -/
namespace HelpMiner

structure Invocation where
  program : String
  args : List String
  dir : Path
  timeoutSecs : Nat
  deriving DecidableEq, Repr

/-- How the run of a program ended. -/
inductive RunEnd where
  | notStarted (why : Trouble)
  | exited (status : Nat)
  | timedOut
  deriving DecidableEq, Repr

/-- The surroundings of a run. -/
structure Environment where
  valueOf? : String → Option String
  /-- The time, as a report writes it. -/
  now : String
  /-- The end of a program's run, and the files after it. -/
  run : Invocation → FileTree → RunEnd × FileTree

end HelpMiner
