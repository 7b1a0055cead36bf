import HelpMiner.Command.Entry

/-! Checks of a schema: what is likely to have been misread. -/
namespace HelpMiner

/-- Something to look at in a schema. -/
inductive Issue where
  | emptyCommandName
  | duplicateParameter (command name : String)
  | parameterNameTooLong (command name : String) (limit : Nat)
  | emptyParameter (command : String) (position : Nat)
  | malformedReturns (command : String) (length : Nat)
  | functionWithoutReturnType (command : String)
  deriving DecidableEq, Repr

namespace Issue

def message : Issue → String
  | emptyCommandName => "schema contains an empty command name"
  | duplicateParameter command name =>
    command ++ ": duplicate parameter name '" ++ name ++ "'"
  | parameterNameTooLong command name limit =>
    command ++ ": parameter name '" ++ name ++ "' exceeds " ++ toString limit ++ " characters"
  | emptyParameter command position =>
    command ++ ": parameter #" ++ toString position ++ " has an empty name or type"
  | malformedReturns command length =>
    command ++ ": return binding has " ++ toString length ++ " elements (expected at most 2)"
  | functionWithoutReturnType command => command ++ ": function has no return type"

end Issue

/-- The default for the most characters of a parameter name. -/
def defaultNameLimit : Nat := 32

def isBlankText (s : String) : Bool := !Text.hasInk s.toList

def Param.isBlank (p : Param) : Bool := isBlankText p.name || isBlankText p.type

/-- The issues of parameters from a position on, given the names seen before it. -/
def checkParams (command : String) (limit : Nat) :
    Nat → List String → List Param → List Issue
  | _, _, [] => []
  | position, seen, p :: rest =>
    -- A parameter without a name or a type is told once, and its name does not count as seen.
    if p.isBlank then
      .emptyParameter command position :: checkParams command limit (position + 1) seen rest
    else
      (if limit < p.name.length then [.parameterNameTooLong command p.name limit] else []) ++
        (if seen.contains p.name then [.duplicateParameter command p.name] else []) ++
        checkParams command limit (position + 1) (p.name :: seen) rest

namespace Entry

/-- The issues of one entry. Positions count from one. -/
def check (command : String) (e : Entry) (limit : Nat) : List Issue :=
  checkParams command limit 1 [] e.params ++
    (if 2 < e.returns.length then [.malformedReturns command e.returns.length] else []) ++
    (if e.kind == .function && e.returnType?.isNone then [.functionWithoutReturnType command]
      else [])

end Entry

namespace Schema

def check (s : Schema) (limit : Nat) : List Issue :=
  s.entries.flatMap fun e =>
    if isBlankText e.1 then [.emptyCommandName] else e.2.check e.1 limit

end Schema

end HelpMiner
