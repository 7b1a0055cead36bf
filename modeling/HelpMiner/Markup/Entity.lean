import HelpMiner.Text.Digit

/-! Character references in markup: names and code points between an ampersand and a semicolon. -/
namespace HelpMiner.Markup

def entityNames : List (String × Char) := [
  ("amp", '&'), ("lt", '<'), ("gt", '>'), ("quot", '"'), ("apos", '\''), ("nbsp", '\u00a0'),
  ("copy", '\u00a9'), ("reg", '\u00ae'), ("trade", '\u2122'), ("deg", '\u00b0'),
  ("plusmn", '\u00b1'), ("micro", '\u00b5'), ("middot", '\u00b7'), ("times", '\u00d7'),
  ("divide", '\u00f7'), ("ndash", '\u2013'), ("mdash", '\u2014'), ("lsquo", '\u2018'),
  ("rsquo", '\u2019'), ("ldquo", '\u201c'), ("rdquo", '\u201d'), ("bull", '\u2022'),
  ("hellip", '\u2026')]

def charOfCode? (n : Nat) : Option Char := if n.isValidChar then some (Char.ofNat n) else none

def referenced? : List Char → Option Char
  | '#' :: 'x' :: digits => (Text.unsigned? 16 digits).bind charOfCode?
  | '#' :: 'X' :: digits => (Text.unsigned? 16 digits).bind charOfCode?
  | '#' :: digits => (Text.unsigned? 10 digits).bind charOfCode?
  | name => (entityNames.find? fun e => e.1.toList == name).map (·.2)

/-- The most characters of a reference after its ampersand, the semicolon included. -/
def referenceLimit : Nat := 11

/-- The reference whose ampersand was just read: its character, and how far it reaches. -/
def reference? (s : List Char) : Option (Char × Nat) :=
  let body := (s.take referenceLimit).takeWhile (· != ';')
  if body.length < referenceLimit && body.length < s.length then
    (referenced? body).map fun c => (c, body.length + 1)
  else none

/-- Replace every known reference by its character; an ampersand that opens none is kept. -/
def decodeEntities : List Char → List Char
  | [] => []
  | c :: rest =>
    if c == '&' then
      match reference? rest with
      | some (d, n) => d :: decodeEntities (rest.drop n)
      | none => c :: decodeEntities rest
    else c :: decodeEntities rest
termination_by s => s.length
decreasing_by all_goals simp only [List.length_drop, List.length_cons]; omega

end HelpMiner.Markup
