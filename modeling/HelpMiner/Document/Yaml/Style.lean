import HelpMiner.Document.Yaml.Cursor
import HelpMiner.Document.Yaml.Plain

/-! How a text is written as a YAML scalar: in which of the styles, and what each looks like. -/
namespace HelpMiner.Document.Yaml

/-- A character that stands for itself outside double quotes. -/
def isPrintable (c : Char) : Bool :=
  let n := c.toNat
  n == 0x0A || (0x20 ≤ n && n ≤ 0x7E) || (0xA0 ≤ n && n ≤ 0xD7FF) ||
    (0xE000 ≤ n && n ≤ 0xFFFD && n != 0xFEFF) || 0x10000 ≤ n

/-- Characters that a plain scalar cannot begin with. -/
def leadIndicators : List Char := "#,[]\x7b\x7d&*!|>'\"%@`".toList

def badLead : List Char → Bool
  | [] => false
  | c :: rest =>
    leadIndicators.contains c || ((c == '-' || c == '?' || c == ':') && atGap rest) ||
      "---".toList.isPrefixOf (c :: rest) || "...".toList.isPrefixOf (c :: rest)

/-- Whether an indicator stands after the first character: a colon before a gap, or a number sign
    after one. -/
def badInside : List Char → Bool
  | c :: d :: rest =>
    (d == ':' && atGap rest) || (d == '#' && (isBlank c || isBreak c)) || badInside (d :: rest)
  | _ => false

/-- Whether a character that satisfies `p` stands right before one that satisfies `q`. -/
def hasPair (p q : Char → Bool) : List Char → Bool
  | c :: d :: rest => (p c && q d) || hasPair p q (d :: rest)
  | _ => false

def hasBlankEdge (s : List Char) : Bool :=
  let edge (c : Char) : Bool := c == ' ' || isBreak c
  s.head?.any edge || s.getLast?.any edge

/-- Whether a text can stand in double quotes only, whatever it means. -/
def needsDouble (s : List Char) : Bool :=
  !s.all isPrintable || hasPair (· == ' ') isBreak s

/-- Whether a text can stand without quotes, if it is not ambiguous. -/
def plainAllowed (s : List Char) : Bool :=
  !needsDouble s && !hasBlankEdge s && !s.any isBreak && !badLead s && !badInside s

def singleAllowed (s : List Char) : Bool := !needsDouble s && !hasPair isBreak (· == ' ') s

def blockAllowed (s : List Char) : Bool := !needsDouble s && s.getLast? != some ' '

inductive Form where
  | plain
  | single
  | double
  | block
  deriving DecidableEq, Repr

/-- The style of a text: a block if it has line feeds, and the lightest quotes otherwise. -/
def Form.of (s : List Char) : Form :=
  if s.contains '\n' then (if blockAllowed s then block else double)
  else if !isAmbiguous s && plainAllowed s then plain
  else if singleAllowed s then single
  else double

def spaces (n : Nat) : List Char := List.replicate n ' '

/-- A text in single quotes after the opening one. A quote is written twice, and the line after a
    break begins with spaces. -/
def singleRest (indent : Nat) : (newLine : Bool) → List Char → List Char
  | newLine, [] => (if newLine then spaces indent else []) ++ ['\'']
  | newLine, c :: rest =>
    if isBreak c then c :: singleRest indent true rest
    else
      (if newLine then spaces indent else []) ++ (if c == '\'' then ['\'', '\''] else [c]) ++
        singleRest indent false rest

/-- The last hexadecimal digits of a number, in upper case. -/
def hexDigits (count n : Nat) : List Char :=
  (List.range count).reverse.map fun i => (Nat.digitChar (n / Nat.pow 16 i % 16)).toUpper

def escape (c : Char) : List Char :=
  match c with
  | '\x00' => ['\\', '0']
  | '\x07' => ['\\', 'a']
  | '\x08' => ['\\', 'b']
  | '\t' => ['\\', 't']
  | '\n' => ['\\', 'n']
  | '\x0b' => ['\\', 'v']
  | '\x0c' => ['\\', 'f']
  | '\r' => ['\\', 'r']
  | '\x1b' => ['\\', 'e']
  | '"' => ['\\', '"']
  | '\\' => ['\\', '\\']
  | '\u0085' => ['\\', 'N']
  | '\u2028' => ['\\', 'L']
  | '\u2029' => ['\\', 'P']
  | _ =>
    if isPrintable c then [c]
    else if c.toNat < 0x100 then '\\' :: 'x' :: hexDigits 2 c.toNat
    else if c.toNat < 0x10000 then '\\' :: 'u' :: hexDigits 4 c.toNat
    else '\\' :: 'U' :: hexDigits 8 c.toNat

/-- The lines of a block. A line with characters begins with spaces. -/
def blockText (indent : Nat) : (newLine : Bool) → List Char → List Char
  | _, [] => []
  | newLine, c :: rest =>
    if isBreak c then c :: blockText indent true rest
    else (if newLine then spaces indent else []) ++ c :: blockText indent false rest

/-- The indentation sign of a block whose text begins with a space or a break. -/
def indentSign (s : List Char) : List Char :=
  if s.head?.any fun c => c == ' ' || isBreak c then ['2'] else []

/-- The chomping sign of a block: by the line breaks at its end. -/
def chompSign (s : List Char) : List Char :=
  match s.reverse with
  | [] => ['-']
  | [c] => if isBreak c then ['+'] else ['-']
  | c :: d :: _ => if !isBreak c then ['-'] else if isBreak d then ['+'] else []

/-- A text as a scalar. Its further lines are indented by `indent`. -/
def scalar (indent : Nat) (s : List Char) : List Char :=
  match Form.of s with
  | .plain => s
  | .single => '\'' :: singleRest indent false s
  | .double => '"' :: s.flatMap escape ++ ['"']
  | .block => '|' :: indentSign s ++ chompSign s ++ '\n' :: blockText indent true s

/-- A text that can be a key on the line of its value: one line of at most 128 bytes. -/
def isSimpleKey (s : String) : Bool := s.utf8ByteSize ≤ 128 && !s.toList.any isBreak

end HelpMiner.Document.Yaml
