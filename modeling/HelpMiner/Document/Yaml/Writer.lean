import HelpMiner.Document.Value
import HelpMiner.Document.Yaml.Style

/-! YAML text of a value, in blocks. -/
namespace HelpMiner.Document.Yaml

/-- A text that ends its line. -/
def ended (s : List Char) : List Char := if s.getLast?.any isBreak then s else s ++ ['\n']

/-- The member of a map, given what follows its colon in a compact place or another. A key that is
    not simple stands on a line of its own. -/
def member (indent : Nat) (k : String) (value : (compact : Bool) → List Char) : List Char :=
  if isSimpleKey k then ended (scalar (indent + 2) k.toList ++ ':' :: value false)
  else
    ended ('?' :: ' ' :: scalar (indent + 2) k.toList) ++ spaces indent ++
      ended (':' :: value true)

mutual

/-- What follows the indicator of a value in a block at `indent`. In a `compact` place, blocks
    begin on the same line. -/
def after (indent : Nat) (compact : Bool) : Value → List Char
  | .null => " null".toList
  | .bool true => " true".toList
  | .bool false => " false".toList
  | .nat n => ' ' :: Nat.toDigits 10 n
  | .text s => ' ' :: scalar (indent + 2) s.toList
  | .list [] => " []".toList
  | .list (v :: vs) =>
    if compact then ' ' :: ended ('-' :: after (indent + 2) true v) ++ items (indent + 2) vs
    else
      '\n' :: spaces indent ++ ended ('-' :: after indent true v) ++ items indent vs
  | .map [] => " \x7b\x7d".toList
  | .map ((k, v) :: ms) =>
    (if compact then [' '] else '\n' :: spaces (indent + 2)) ++
      member (indent + 2) k (fun c => after (indent + 2) c v) ++
      members (indent + 2) ms

def items (indent : Nat) : List Value → List Char
  | [] => []
  | v :: vs => spaces indent ++ ended ('-' :: after indent true v) ++ items indent vs

def members (indent : Nat) : List (String × Value) → List Char
  | [] => []
  | (k, v) :: ms =>
    spaces indent ++ member indent k (fun c => after indent c v) ++ members indent ms

end

def render (v : Value) : String :=
  String.ofList <| match v with
    | .map ((k, v) :: ms) => member 0 k (fun c => after 0 c v) ++ members 0 ms
    | .list (v :: vs) => ended ('-' :: after 0 true v) ++ items 0 vs
    | v => ended ((after 0 true v).drop 1)

end HelpMiner.Document.Yaml
