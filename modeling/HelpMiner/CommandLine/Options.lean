import HelpMiner.Command.HostType
import HelpMiner.Contents.Reader
import HelpMiner.Document.Format

/-! The options of the command line, and the reading of arguments as options. -/
namespace HelpMiner.CommandLine

/-- What an option takes. -/
inductive Takes where
  | nothing
  /-- A text that is not empty. -/
  | path
  | text
  /-- One of some names, letter by letter. -/
  | oneOf (names : List String)
  deriving DecidableEq, Repr

def Takes.accepts (value : String) : Takes → Bool
  | nothing => false
  | path => !value.isEmpty
  | text => true
  | oneOf names => names.contains value

structure OptionSpec where
  name : String
  /-- A letter that stands for the name. -/
  letter : Option Char
  takes : Takes
  deriving DecidableEq, Repr

/-- The options that stand before a command or after it. -/
def globalOptions : List OptionSpec := [
  ⟨"config", none, .path⟩,
  ⟨"data-dir", none, .path⟩,
  ⟨"format", none, .oneOf ["yaml", "json"]⟩,
  ⟨"verbose", some 'v', .nothing⟩]

def commands : List (String × List OptionSpec) :=
  let building : List OptionSpec := [
    ⟨"help-file", none, .path⟩,
    ⟨"toc-mode", none, .oneOf ["objects", "links"]⟩,
    ⟨"distributable", none, .nothing⟩]
  [("build", building),
    ("stubs", []),
    ("run", building),
    ("parse-topic", [⟨"input", none, .path⟩, ⟨"name", none, .text⟩]),
    ("validate", [⟨"schema", none, .path⟩]),
    ("describe", [
      ⟨"schema", none, .path⟩,
      ⟨"command", none, .text⟩,
      ⟨"types", none, .oneOf ["type", "repr", "str"]⟩])]

/-- Why arguments ask for no command. -/
inductive Stop where
  | usage
  | help
  | version
  deriving DecidableEq, Repr

/-- Options with their values, in the order in which they were given. -/
abbrev Given := List (String × String)

structure Grammar where
  options : List OptionSpec
  /-- Words that end the options. -/
  words : List String
  hasVersion : Bool

namespace Grammar

def program : Grammar := ⟨globalOptions, commands.map (·.1) ++ ["help"], true⟩

def command (own : List OptionSpec) : Grammar := ⟨own ++ globalOptions, [], false⟩

/-- Take an option with its value, which is empty if it takes none. No option comes twice. -/
def take (given : Given) (option : OptionSpec) (value : String) : Except Stop Given :=
  if given.any fun g => g.1 == option.name then .error .usage
  else if option.takes == .nothing || option.takes.accepts value then
    .ok (given ++ [(option.name, value)])
  else .error .usage

structure Reading where
  given : Given
  /-- An option with its value, that stood in an argument of its own and is not taken yet. -/
  last : Option (OptionSpec × String)

def Reading.empty : Reading := ⟨[], none⟩

/-- Take the last option. That is done when the next option comes or at the very end, so that a
    word after it is heard first. -/
def Reading.settle (r : Reading) : Except Stop Given :=
  match r.last with
  | some (option, value) => take r.given option value
  | none => .ok r.given

def takeLetter (g : Grammar) (given : Given) (letter : Char) : Except Stop Given :=
  if letter == 'h' then .error .help
  else if letter == 'V' && g.hasVersion then .error .version
  else match g.options.find? fun o => o.letter == some letter with
    | some o => take given o ""
    | none => .error .usage

/-- Take an argument with two dashes. The option is handed back if its value is still to come. -/
def takeName (g : Grammar) (given : Given) (argument : List Char) :
    Except Stop (Given × Option OptionSpec) :=
  let name := String.ofList (argument.takeWhile (· != '='))
  let value := (argument.dropWhile (· != '=')).tail?
  if name == "help" && value.isNone then .error .help
  else if name == "version" && value.isNone && g.hasVersion then .error .version
  else match g.options.find? fun o => o.name == name, value with
    | none, _ => .error .usage
    | some o, some v =>
      if o.takes == .nothing then .error .usage
      else do return (← take given o (String.ofList v), none)
    | some o, none =>
      if o.takes == .nothing then do return (← take given o "", none)
      else .ok (given, some o)

/-- The options at the front of some arguments, and the arguments from the first word on. -/
def read (g : Grammar) (waiting : Option OptionSpec) (r : Reading) :
    List String → Except Stop (Reading × List String)
  | [] => if waiting.isSome then .error .usage else .ok (r, [])
  | argument :: rest =>
    match waiting, argument.toList with
    | none, ['-', '-'] => if rest.isEmpty then .ok (r, []) else .error .usage
    | none, '-' :: '-' :: name => do
      let (given, waiting) ← g.takeName (← r.settle) name
      g.read waiting ⟨given, none⟩ rest
    | none, '-' :: c :: letters => do
      let given ← (c :: letters).foldlM g.takeLetter (← r.settle)
      g.read none ⟨given, none⟩ rest
    | none, _ => if g.words.contains argument then .ok (r, argument :: rest) else .error .usage
    | some _, '-' :: _ :: _ => .error .usage
    | some o, _ => g.read none ⟨r.given, some (o, argument)⟩ rest

end Grammar

def Given.value? (given : Given) (name : String) : Option String := given.lookup name

def Given.has (given : Given) (name : String) : Bool := (given.value? name).isSome

end HelpMiner.CommandLine
