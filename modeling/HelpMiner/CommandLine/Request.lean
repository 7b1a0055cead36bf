import HelpMiner.CommandLine.Options

/-! What the command line asks for. -/
namespace HelpMiner.CommandLine

/-- Settings that hold for every command. -/
structure Globals where
  config : Option Path
  dataDir : Option Path
  format : Option Format
  verbose : Bool
  deriving DecidableEq, Repr

structure BuildOptions where
  helpFile : Option Path
  layout : Option Contents.Layout
  distributable : Bool
  deriving DecidableEq, Repr

inductive Command where
  | build (o : BuildOptions)
  | stubs
  | run (o : BuildOptions)
  /-- Show what a page tells, under a name or the name of its file. -/
  | parseTopic (input : Path) (name : Option String)
  | validate (schema : Option Path)
  | describe (schema : Option Path) (command : String) (types : Rendering)
  deriving DecidableEq, Repr

structure Request where
  globals : Globals
  command : Command
  deriving DecidableEq, Repr

def Given.path? (given : Given) (name : String) : Option Path := (given.value? name).map Path.mk

/-- The settings for every command. Those after the command hold before those in front of it. -/
def Globals.ofGiven (after before : Given) : Globals where
  config := (after.path? "config").or (before.path? "config")
  dataDir := (after.path? "data-dir").or (before.path? "data-dir")
  format := ((after.value? "format").or (before.value? "format")).bind Format.ofName?
  verbose := after.has "verbose" || before.has "verbose"

def BuildOptions.ofGiven (given : Given) : BuildOptions where
  helpFile := given.path? "help-file"
  layout := (given.value? "toc-mode").bind Contents.Layout.ofName?
  distributable := given.has "distributable"

/-- The command of a word with its options, if the required ones are given. -/
def Command.ofGiven? (word : String) (given : Given) : Option Command :=
  match word with
  | "build" => some (.build (.ofGiven given))
  | "stubs" => some .stubs
  | "run" => some (.run (.ofGiven given))
  | "parse-topic" => (given.path? "input").map fun p => .parseTopic p (given.value? "name")
  | "validate" => some (.validate (given.path? "schema"))
  | "describe" => (given.value? "command").map fun name =>
    .describe (given.path? "schema") name
      (((given.value? "types").bind Rendering.ofName?).getD .str)
  | _ => none

def isHelpTopic : List String → Bool
  | [] => true
  | [word] => Grammar.program.words.contains word
  | _ => false

def Request.ofArguments (arguments : List String) : Except Stop Request := do
  match ← Grammar.program.read none .empty arguments with
  | (_, []) => .error .usage
  | (before, word :: rest) =>
    match commands.lookup word with
    | none => .error (if isHelpTopic rest then .help else .usage)
    | some own =>
      let (after, _) ← (Grammar.command own).read none .empty rest
      let after ← after.settle
      let before ← before.settle
      match Command.ofGiven? word after with
      | some command => .ok ⟨.ofGiven after before, command⟩
      | none => .error .usage

end HelpMiner.CommandLine
