import HelpMiner.Command.HostType
import HelpMiner.Render.Topic
import HelpMiner.Text.Wrap

/-! The interface of one command as plain text for people. -/
namespace HelpMiner.Render

/-- Show a host type, or name the documented type that has none. -/
def hostType (type : String) (rendering : Rendering) : Except String String :=
  match showType? type rendering with
  | some shown => .ok shown
  | none => .error (String.ofList (Text.trim type.toList))

def returnsLine (e : Entry) (rendering : Rendering) : Except String String :=
  if e.hasReturns then do
    let host ← match e.returnType? with
      | some type => hostType type rendering
      | none => .ok "unknown"
    return indent ++ "returns: " ++ e.returnsDeclaration ++ " -> " ++ host ++ "\n"
  else .ok ""

def paramLine (rendering : Rendering) (p : Param) : Except String String := do
  let host ← hostType p.type rendering
  return indent ++ indent ++ p.declaration ++ " -> " ++ host ++ "\n"

def paramLines (e : Entry) (rendering : Rendering) : Except String String :=
  if e.params.isEmpty then .ok (indent ++ "params: none\n")
  else do
    let lines ← e.params.mapM (paramLine rendering)
    return indent ++ "params:\n" ++ String.join lines

/-- The interface of a command with host types. The error is the first documented type that has
    no host type to show. -/
def entry (name : String) (e : Entry) (rendering : Rendering) : Except String String := do
  let returns ← returnsLine e rendering
  let params ← paramLines e rendering
  return name ++ " (" ++ e.kind.name ++ ")\n" ++
    String.join ((Text.wrap e.description 72).map fun line => indent ++ line ++ "\n") ++
    returns ++ params

end HelpMiner.Render
