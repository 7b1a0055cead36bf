import HelpMiner.Command.Entry
import HelpMiner.Text.Wrap

/-! The text of a stub: a declaration, a header of comments, and the call. -/
namespace HelpMiner.Stub

/-- How the result of a command reaches the caller of its stub. -/
inductive Shape where
  | direct
  | resultAndParams
  | params
  | singleParam
  | nothing
  deriving DecidableEq, Repr

namespace Shape

/-- The shape for a command, if it gets a stub. -/
def ofEntry? (e : Entry) : Option Shape :=
  match e.kind with
  | .function => some direct
  | .subroutine =>
    if e.hasReturns then some resultAndParams
    else match e.params with
      | [] => some nothing
      | [_] => some singleParam
      | _ => some params
  | .datastruct | .unknown => none

end Shape

def entryPoint : String := "libfunct"

/-- The type that takes every value. -/
def genericType : String := "Variant"

def bodyIndent : String := "    "

def commaList (texts : List String) : String := ", ".intercalate texts

def declaredParams (e : Entry) : String :=
  if e.params.isEmpty then "dummy As " ++ genericType
  else commaList (e.params.map Param.declaration)

def callArguments (e : Entry) : List String := e.params.map Param.bareName

/-- Name of the variable that holds the result. -/
def resultName (e : Entry) : String := e.returnName?.getD "result"

def resultType (e : Entry) : String := e.returnType?.getD genericType

def declaredType? (e : Entry) : Shape → Option String
  | .direct => some (resultType e)
  | .resultAndParams | .params => some genericType
  | .singleParam => e.params.head?.map (·.type)
  | .nothing => none

def declaration (e : Entry) (shape : Shape) : String :=
  "Function " ++ entryPoint ++ " (" ++ declaredParams e ++ ")" ++
    match declaredType? e shape with
    | some type => " As " ++ type
    | none => ""

/-- The lines that call the command and hand back the result. -/
def bodyLines (name : String) (e : Entry) (shape : Shape) : List String :=
  let args := commaList (callArguments e)
  match shape with
  | .direct => [entryPoint ++ " = " ++ name ++ " (" ++ args ++ ")"]
  | .resultAndParams => [
      "Dim " ++ resultName e ++ " As " ++ resultType e,
      resultName e ++ " = " ++ name ++ "(" ++ args ++ ")",
      entryPoint ++ " = Array(" ++ commaList (resultName e :: callArguments e) ++ ")"]
  | .params => [name ++ " " ++ args, entryPoint ++ " = Array(" ++ args ++ ")"]
  | .singleParam => [name ++ " " ++ args, entryPoint ++ " = " ++ args]
  | .nothing => [name]

/-- A comment line, without its indent. -/
def comment (text : String) : String := if text.isEmpty then "'" else "' " ++ text

def kindNotes (name : String) (e : Entry) (shape : Shape) : List String :=
  match e.kind with
  | .function => [
      name ++ " is implemented as a Function.",
      "Its return value is what this wrapper returns."]
  | _ => [
      name ++ " is implemented as a Subroutine.",
      match shape with
      | .resultAndParams =>
        "Its result is returned first, followed by every parameter, in an Array()."
      | .params =>
        "It may alter any of its parameters, so all of them are returned in an Array()."
      | .singleParam => "It may alter its only parameter, which is returned with the same type."
      | _ => "It takes no parameters and returns nothing."]

def returnNotes (e : Entry) : Shape → List String
  | .direct => [if e.hasReturns then e.returnsDeclaration else genericType]
  | .resultAndParams =>
    "Array of:" :: e.returnsDeclaration :: e.params.map Param.declaration
  | .params => "Array of:" :: e.params.map Param.declaration
  | .singleParam => e.params.map Param.declaration
  | .nothing => ["Does not have a return value."]

def kindCapitals (kind : Kind) : String := String.ofList (kind.name.toList.map Char.toUpper)

/-- The comments of the header, in order. -/
def headerTexts (name : String) (e : Entry) (shape : Shape) (columns : Nat) : List String :=
  ["Wrapper stub for " ++ name ++ " " ++ kindCapitals e.kind, ""] ++
    kindNotes name e shape ++
    ["", "Description:"] ++
    (Text.wrap e.description columns).map ("  " ++ ·) ++
    ["", "Returns:"] ++
    (returnNotes e shape).map ("  " ++ ·) ++
    ["", "Load with CreateLib(<path>/" ++ name ++ ") and call lib." ++ entryPoint ++ "().",
      "Editing this file changes the behaviour of the wrapped command."]

def lines (name : String) (e : Entry) (shape : Shape) (columns : Nat) : List String :=
  [declaration e shape] ++
    (headerTexts name e shape columns).map (fun text => bodyIndent ++ comment text) ++
    (bodyLines name e shape).map (bodyIndent ++ ·) ++
    ["End Function"]

/-- The text of the stub for a command, if it gets one. Each line ends with a line feed. -/
def source? (name : String) (e : Entry) (columns : Nat) : Option String :=
  (Shape.ofEntry? e).map fun shape =>
    String.join ((lines name e shape columns).map (· ++ "\n"))

end HelpMiner.Stub
