import HelpMiner.Document.Value

/-! JSON text of a value: one member or item a line, two spaces for each level. -/
namespace HelpMiner.Document.Json

def hexDigit (n : Nat) : Char := Nat.digitChar n

def escape (c : Char) : List Char :=
  match c with
  | '"' => ['\\', '"']
  | '\\' => ['\\', '\\']
  | '\x08' => ['\\', 'b']
  | '\t' => ['\\', 't']
  | '\n' => ['\\', 'n']
  | '\x0c' => ['\\', 'f']
  | '\r' => ['\\', 'r']
  | _ =>
    if c.toNat < 32 then ['\\', 'u', '0', '0', hexDigit (c.toNat / 16), hexDigit (c.toNat % 16)]
    else [c]

def string (s : String) : List Char := '"' :: s.toList.flatMap escape ++ ['"']

def newLine (level : Nat) : List Char := '\n' :: List.replicate (2 * level) ' '

mutual

def value (level : Nat) : Value → List Char
  | .null => "null".toList
  | .bool true => "true".toList
  | .bool false => "false".toList
  | .nat n => Nat.toDigits 10 n
  | .text s => string s
  | .list [] => ['[', ']']
  | .list (v :: vs) =>
    '[' :: newLine (level + 1) ++ value (level + 1) v ++ items (level + 1) vs ++
      newLine level ++ [']']
  | .map [] => ['\x7b', '\x7d']
  | .map ((k, v) :: ms) =>
    '\x7b' :: newLine (level + 1) ++ string k ++ [':', ' '] ++ value (level + 1) v ++
      members (level + 1) ms ++ newLine level ++ ['\x7d']

def items (level : Nat) : List Value → List Char
  | [] => []
  | v :: vs => ',' :: newLine level ++ value level v ++ items level vs

def members (level : Nat) : List (String × Value) → List Char
  | [] => []
  | (k, v) :: ms =>
    ',' :: newLine level ++ string k ++ [':', ' '] ++ value level v ++ members level ms

end

/-- The document with a value. It ends with a line feed. -/
def render (v : Value) : String := String.ofList (value 0 v ++ ['\n'])

end HelpMiner.Document.Json
