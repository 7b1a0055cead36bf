import HelpMiner.Document.Yaml.Cursor
import HelpMiner.Text.Digit

/-! The texts of YAML scalars: plain, in quotes, and in blocks. -/
namespace HelpMiner.Document.Yaml

/-- What lies between two stretches of a scalar's text. -/
inductive Gap where
  /-- Blanks on one line. -/
  | blanks (s : List Char)
  /-- Line breaks: the first, and the others. -/
  | breaks (first more : List Char)
  deriving Repr

/-- The text of a gap: a single line feed is folded into a space, and one of several is dropped. -/
def Gap.text : Gap → List Char
  | blanks s => s
  | breaks first more =>
    if first == ['\n'] then (if more.isEmpty then [' '] else more) else first ++ more

def Gap.hasBreak : Gap → Bool
  | blanks _ => false
  | breaks .. => true

/-- Add a blank to a gap; those after a line break do not count. -/
def Gap.addBlank (c : Char) : Gap → Gap
  | blanks s => blanks (s ++ [c])
  | g => g

/-- Add a line break to a gap; it makes the blanks before it void. -/
def Gap.addBreak (b : List Char) : Gap → Gap
  | blanks _ => breaks b []
  | breaks first more => breaks first (more ++ b)

/-- Read on in a gap. A tab at the front of a line must not stand left of `margin`. -/
def gap (margin : Nat) : Nat → Gap → Cursor → Option (Gap × Cursor)
  | 0, _, _ => none
  | fuel + 1, g, c =>
    match c.rest with
    | [] => some (g, c)
    | x :: _ =>
      if isBlank x then
        if g.hasBreak && c.column < margin && x == '\t' then none
        else gap margin fuel (g.addBlank x) (c.skip 1)
      else if isBreak x then gap margin fuel (g.addBreak c.lineBreak) c.skipLine
      else some (g, c)

/-- A character that ends a plain scalar between brackets. -/
def isFlowIndicator (c : Char) : Bool :=
  c == ',' || c == '[' || c == ']' || c == '\x7b' || c == '\x7d'

/-- The stretch of a plain scalar at the front, up to a blank, a break or an indicator. -/
def plainStretch (flow : Bool) : List Char → Option (List Char)
  | [] => some []
  | c :: rest =>
    if isBlank c || isBreak c then some []
    else if flow && c == ':' && rest.head?.any fun d => isFlowIndicator d || d == '?' then none
    else if (c == ':' && atGap rest) || (flow && isFlowIndicator c) then some []
    else (plainStretch flow rest).map (c :: ·)

def plainGoesOn (c : Cursor) : Bool := !c.atMarker && !c.sees (· == '#')

/-- A plain scalar from a place on, after a gap: the rest of its text, the place where it ends, and
    whether a line break comes before that place. -/
def plain (flow : Bool) (margin : Nat) : Nat → Gap → Cursor → Option (List Char × Cursor × Bool)
  | 0, _, _ => none
  | fuel + 1, g, c => do
    let stretch ← if plainGoesOn c then plainStretch flow c.rest else some []
    if stretch.isEmpty then some ([], c, g.hasBreak)
    else
      let text := g.text ++ stretch
      let next := c.skip stretch.length
      if !next.sees fun x => isBlank x || isBreak x then some (text, next, false)
      else
        let (g, after) ← gap margin (fuel + 1) (.blanks []) next
        if !flow && after.column < margin then some (text, after, g.hasBreak)
        else
          let (more, stop) ← plain flow margin fuel g after
          some (text ++ more, stop)

def letterEscape? (c : Char) : Option Char :=
  match c with
  | '0' => some '\x00'
  | 'a' => some '\x07'
  | 'b' => some '\x08'
  | 't' => some '\t'
  | '\t' => some '\t'
  | 'n' => some '\n'
  | 'v' => some '\x0b'
  | 'f' => some '\x0c'
  | 'r' => some '\r'
  | 'e' => some '\x1b'
  | ' ' => some ' '
  | '"' => some '"'
  | '/' => some '/'
  | '\\' => some '\\'
  | 'N' => some '\u0085'
  | '_' => some '\u00a0'
  | 'L' => some '\u2028'
  | 'P' => some '\u2029'
  | _ => none

def escapeDigits? (c : Char) : Option Nat :=
  match c with
  | 'x' => some 2
  | 'u' => some 4
  | 'U' => some 8
  | _ => none

/-- The character of an escape after its backslash, and how far it reaches. -/
def escaped? (s : List Char) : Option (Char × Nat) :=
  match s with
  | [] => none
  | c :: rest =>
    match letterEscape? c with
    | some d => some (d, 1)
    | none => do
      let n ← escapeDigits? c
      let digits := rest.take n
      let code ← if digits.length == n then Text.digitsFrom? 16 0 digits else none
      if code.isValidChar then some (Char.ofNat code, n + 1) else none

/-- The rest of a scalar in quotes, and the place after its closing quote. -/
def quoted (single : Bool) : Nat → Cursor → Option (List Char × Cursor)
  | 0, _ => none
  | fuel + 1, c =>
    let before (text : List Char) (rest : Option (List Char × Cursor)) :=
      rest.map fun r => (text ++ r.1, r.2)
    if c.atMarker then none
    else match c.rest with
      | [] => none
      | x :: rest =>
        if isBlank x || isBreak x then do
          let (g, after) ← gap 0 (fuel + 1) (.blanks []) c
          before g.text (quoted single fuel after)
        else if single then
          if x == '\'' then
            if rest.head? == some '\'' then before ['\''] (quoted single fuel (c.skip 2))
            else some ([], c.skip 1)
          else before [x] (quoted single fuel (c.skip 1))
        else if x == '"' then some ([], c.skip 1)
        else if x == '\\' then
          if rest.head?.any isBreak then do
            -- The line goes on after an escaped break, which leaves nothing behind.
            let (g, after) ← gap 0 (fuel + 1) (.breaks [] []) (c.skip 1).skipLine
            before g.text (quoted single fuel after)
          else do
            let (d, n) ← escaped? rest
            before [d] (quoted single fuel (c.skip (n + 1)))
        else before [x] (quoted single fuel (c.skip 1))

/-- Which of the line breaks at its end a block scalar keeps. -/
inductive Chomping where
  | strip
  | clip
  | keep
  deriving DecidableEq, Repr

def chomping? (c : Char) : Option Chomping :=
  if c == '+' then some .keep else if c == '-' then some .strip else none

/-- The signs after the indicator of a block scalar: the chomping, and the indentation or zero. -/
def blockSigns (c : Cursor) : Option (Chomping × Nat × Cursor) :=
  let digit? (x : Char) : Option Nat := if x.isDigit then some (x.toNat - '0'.toNat) else none
  match c.rest with
  | [] => some (.clip, 0, c)
  | x :: rest =>
    match chomping? x, digit? x with
    | some chomp, _ =>
      match rest.head?.bind digit? with
      | some 0 => none
      | some n => some (chomp, n, c.skip 2)
      | none => some (chomp, 0, c.skip 1)
    | none, some 0 => none
    | none, some n =>
      match rest.head?.bind chomping? with
      | some chomp => some (chomp, n, c.skip 2)
      | none => some (.clip, n, c.skip 1)
    | none, none => some (.clip, 0, c)

/-- Move past spaces, up to a column unless it is zero. -/
def skipIndent (indent : Nat) (c : Cursor) : Cursor :=
  let spaces := (c.rest.takeWhile (· == ' ')).length
  c.skip (if indent == 0 then spaces else min spaces (indent - c.column))

/-- The empty lines here: their breaks, the widest indent, and the place of the first other line. -/
def emptyLines (indent : Nat) :
    Nat → List Char → Nat → Cursor → Option (List Char × Nat × Cursor)
  | 0, _, _, _ => none
  | fuel + 1, breaks, widest, c =>
    let c := skipIndent indent c
    let widest := max widest c.column
    if (indent == 0 || c.column < indent) && c.sees (· == '\t') then none
    else if c.sees isBreak then
      emptyLines indent fuel (breaks ++ c.lineBreak) widest c.skipLine
    else some (breaks, widest, c)

/-- The lines of a block scalar from a place on: their text, the break after them, the empty lines
    after that, and the place of what follows. Given are the break and the empty lines before them,
    and whether the line before that begins with a blank. -/
def blockLines (literal : Bool) (indent : Nat) :
    Nat → List Char → List Char → Bool → Cursor →
      Option (List Char × List Char × List Char × Cursor)
  | 0, _, _, _, _ => none
  | fuel + 1, leading, trailing, blank, c =>
    if c.column == indent && !c.rest.isEmpty then do
      -- The break before this line becomes a space, unless one of the two lines begins with a blank.
      let startsBlank := c.sees isBlank
      let folded := !literal && leading == ['\n'] && !blank && !startsBlank
      let joint :=
        if folded then (if trailing.isEmpty then [' '] else []) else leading
      let line := c.rest.takeWhile fun x => !isBreak x
      let stop := c.skip line.length
      let (breaks, _, next) ← emptyLines indent (fuel + 1) [] 0 stop.skipLine
      let (more, ends) ← blockLines literal indent fuel stop.lineBreak breaks startsBlank next
      some (joint ++ trailing ++ line ++ more, ends)
    else some ([], leading, trailing, c)

/-- A block scalar after its indicator, in a block whose indent is `parent`. -/
def blockScalar (literal : Bool) (parent : Int) (c : Cursor) : Option (List Char × Cursor) := do
  let (chomp, increment, c) ← blockSigns c
  let c := c.skipWhile isBlank
  let c := if c.sees (· == '#') then c.skipWhile fun x => !isBreak x else c
  if !atLineEnd c.rest then none
  else
    let c := c.skipLine
    let fuel := c.rest.length + 2
    let fixed := if increment == 0 then 0
      else if 0 ≤ parent then parent.toNat + increment else increment
    let (breaks, widest, c) ← emptyLines fixed fuel [] 0 c
    let indent := if fixed == 0 then max (max widest (parent + 1).toNat) 1 else fixed
    let (text, leading, trailing, c) ← blockLines literal indent fuel [] breaks false c
    let tail := match chomp with
      | .strip => []
      | .clip => leading
      | .keep => leading ++ trailing
    some (text ++ tail, c)

end HelpMiner.Document.Yaml
