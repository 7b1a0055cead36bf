import HelpMiner.Document.Problem
import HelpMiner.Text.Digit

/-! JSON strings: characters, escapes and the closing quote. -/
namespace HelpMiner.Document.Json

def isSpace (c : Char) : Bool := c == ' ' || c == '\n' || c == '\t' || c == '\r'

def skipSpace (s : List Char) : List Char := s.dropWhile isSpace

/-- The number in four hexadecimal digits. The text has ended if it has less than four bytes. -/
def hex4 (s : List Char) : Except Problem Nat :=
  let four := s.take 4
  if four.foldl (fun n c => n + c.utf8Size) 0 < 4 then .error .unfinished
  else match Text.digitsFrom? 16 0 four with
    | some n => .ok n
    | none => .error .malformed

/-- The first half of a pair that stands for a character beyond U+FFFF. -/
def isHighSurrogate (n : Nat) : Bool := 0xD800 ≤ n && n ≤ 0xDBFF

def isLowSurrogate (n : Nat) : Bool := 0xDC00 ≤ n && n ≤ 0xDFFF

def paired (high low : Nat) : Char :=
  Char.ofNat (0x10000 + (high - 0xD800) * 0x400 + (low - 0xDC00))

/-- The character of an escape by number after `\u`, and how far it reaches. -/
def unicodeEscape (s : List Char) : Except Problem (Char × Nat) := do
  let high ← hex4 s
  if isLowSurrogate high then .error .malformed
  else if isHighSurrogate high then
    match s.drop 4 with
    | [] => .error .unfinished
    | ['\\'] => .error .unfinished
    | '\\' :: 'u' :: rest =>
      let low ← hex4 rest
      if isLowSurrogate low then .ok (paired high low, 10) else .error .malformed
    | _ => .error .malformed
  else .ok (Char.ofNat high, 4)

def letterEscape? (c : Char) : Option Char :=
  match c with
  | '"' => some '"'
  | '\\' => some '\\'
  | '/' => some '/'
  | 'b' => some '\x08'
  | 'f' => some '\x0c'
  | 'n' => some '\n'
  | 'r' => some '\r'
  | 't' => some '\t'
  | _ => none

/-- The character of an escape after its backslash, and how far it reaches. -/
def escaped (s : List Char) : Except Problem (Char × Nat) :=
  match s with
  | [] => .error .unfinished
  | c :: rest =>
    if c == 'u' then (unicodeEscape rest).map fun e => (e.1, e.2 + 1)
    else match letterEscape? c with
      | some d => .ok (d, 1)
      | none => .error .malformed

/-- The characters of a string after its opening quote, and what follows the closing one. -/
def stringBody (s : List Char) : Except Problem (List Char × List Char) :=
  match s with
  | [] => .error .unfinished
  | c :: rest =>
    if c == '"' then .ok ([], rest)
    else if c == '\\' then
      match escaped rest with
      | .error e => .error e
      | .ok (d, n) => (stringBody (rest.drop n)).map fun r => (d :: r.1, r.2)
    else if c.toNat < 32 then .error .malformed
    else (stringBody rest).map fun r => (c :: r.1, r.2)
termination_by s.length
decreasing_by all_goals simp only [List.length_drop, List.length_cons]; omega

def escapeSize (s : List Char) : Except Problem Nat :=
  match s with
  | [] => .error .unfinished
  | c :: rest =>
    if c == 'u' then (hex4 rest).map fun _ => 5
    else if (letterEscape? c).isSome then .ok 1
    else .error .malformed

def skipString (s : List Char) : Except Problem (List Char) :=
  match s with
  | [] => .error .unfinished
  | c :: rest =>
    if c == '"' then .ok rest
    else if c == '\\' then
      match escapeSize rest with
      | .error e => .error e
      | .ok n => skipString (rest.drop n)
    else if c.toNat < 32 then .error .malformed
    else skipString rest
termination_by s.length
decreasing_by all_goals simp only [List.length_drop, List.length_cons]; omega

end HelpMiner.Document.Json
