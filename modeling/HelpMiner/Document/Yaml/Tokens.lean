import HelpMiner.Document.Yaml.Token

/-! The tokens of a whole YAML text. Keys are known only by the colon that follows them, so the
tokens that open them are put in afterwards. -/
namespace HelpMiner.Document.Yaml

/-- A place where a key may have begun: how many brackets are open there, how many tokens come
    before it, and where it stands. -/
structure KeyPlace where
  level : Nat
  number : Nat
  index : Nat
  line : Nat
  column : Nat
  /-- Nothing but a key can stand here. -/
  required : Bool
  deriving Repr

/-- A text read in part. -/
structure Scan where
  cursor : Cursor
  /-- The tokens so far, the last one first. -/
  tokens : List Token
  count : Nat
  /-- The indents of the open blocks, the innermost first. -/
  indents : List Int
  /-- How many brackets are open. -/
  level : Nat
  /-- The places where keys may have begun, the last one first; at most one for each level. -/
  keys : List KeyPlace
  /-- A key may begin here. -/
  keyAllowed : Bool
  deriving Repr

namespace Scan

def initial (s : List Char) : Scan := ⟨.start s, [], 0, [], 0, [], true⟩

def inFlow (s : Scan) : Bool := 0 < s.level

/-- The indent of the innermost block; the whole has none, which is less than zero. -/
def indent (s : Scan) : Int := s.indents.headD (-1)

def push (s : Scan) (t : Token) : Scan := { s with tokens := t :: s.tokens, count := s.count + 1 }

def emit (s : Scan) (t : Token) (c : Cursor) : Scan := { s.push t with cursor := c }

/-- Put a token in after the first `number` tokens. -/
def insert (s : Scan) (number : Nat) (t : Token) : Scan :=
  { s with tokens := s.tokens.insertIdx (s.count - number) t, count := s.count + 1 }

/-- Whether a key that began at `k` cannot reach this place: it is on one line and not long. -/
def isStale (c : Cursor) (k : KeyPlace) : Bool := k.line < c.line || k.index + 1024 < c.index

def dropStale (s : Scan) : Option Scan :=
  -- A line that has to be a key and is not makes the text malformed.
  if s.keys.any fun k => isStale s.cursor k && k.required then none
  else some { s with keys := s.keys.filter fun k => !isStale s.cursor k }

/-- The place where a key of this level may have begun. -/
def key? (s : Scan) : Option KeyPlace := s.keys.head?.filter fun k => k.level == s.level

def dropKey (s : Scan) : Option Scan :=
  match s.key? with
  | some k => if k.required then none else some { s with keys := s.keys.tail }
  | none => some s

def markKey (s : Scan) : Option Scan :=
  if s.keyAllowed then do
    let s ← s.dropKey
    let place : KeyPlace :=
      ⟨s.level, s.count, s.cursor.index, s.cursor.line, s.cursor.column,
        !s.inFlow && s.indent == Int.ofNat s.cursor.column⟩
    some { s with keys := place :: s.keys }
  else some s

/-- Open a block at a column, unless it is open, by a token after the first `number` ones. -/
def openBlock (s : Scan) (column number : Nat) (t : Token) : Scan :=
  if s.inFlow || Int.ofNat column ≤ s.indent then s
  else { s.insert number t with indents := Int.ofNat column :: s.indents }

/-- Close the blocks whose indent is greater than `column`. -/
def closeBlocks (s : Scan) (column : Int) : Scan :=
  if s.inFlow then s
  else
    let closed := (s.indents.takeWhile fun i => column < i).length
    { s with
      tokens := List.replicate closed .blockEnd ++ s.tokens
      count := s.count + closed
      indents := s.indents.drop closed }

def skipGaps : Nat → Scan → Scan
  | 0, s => s
  | fuel + 1, s =>
    let c := s.cursor
    let c := if c.column == 0 && c.sees (· == '\uFEFF') then c.skip 1 else c
    -- A tab is no indent, so where a key may begin it is not passed over.
    let c := c.skipWhile fun x => x == ' ' || ((s.inFlow || !s.keyAllowed) && x == '\t')
    let c := if c.sees (· == '#') then c.skipWhile fun x => !isBreak x else c
    if c.sees isBreak then
      skipGaps fuel { s with cursor := c.skipLine, keyAllowed := s.keyAllowed || !s.inFlow }
    else { s with cursor := c }

/-- End all blocks, before a line that separates documents or at the end. -/
def endBlocks (s : Scan) : Option Scan := do
  let s ← (s.closeBlocks (-1)).dropKey
  some { s with keyAllowed := false }

def directive (s : Scan) : Option Scan := do
  let s ← s.endBlocks
  let (t, c) ← scanDirective s.cursor
  some (s.emit t c)

def marker (s : Scan) (t : Token) : Option Scan := do
  let s ← s.endBlocks
  some (s.emit t (s.cursor.skip 3))

def openFlow (s : Scan) (t : Token) : Option Scan := do
  let s ← s.markKey
  some { s.emit t (s.cursor.skip 1) with level := s.level + 1, keyAllowed := true }

def closeFlow (s : Scan) (t : Token) : Option Scan := do
  let s ← s.dropKey
  some { s.emit t (s.cursor.skip 1) with level := s.level - 1, keyAllowed := false }

def flowEntry (s : Scan) : Option Scan := do
  let s ← s.dropKey
  some { s.emit .flowEntry (s.cursor.skip 1) with keyAllowed := true }

def blockEntry (s : Scan) : Option Scan := do
  if !s.inFlow && !s.keyAllowed then none
  else
    let s ← (s.openBlock s.cursor.column s.count .blockSequence).dropKey
    some { s.emit .blockEntry (s.cursor.skip 1) with keyAllowed := true }

def explicitKey (s : Scan) : Option Scan := do
  if !s.inFlow && !s.keyAllowed then none
  else
    let s ← (s.openBlock s.cursor.column s.count .blockMapping).dropKey
    some { s.emit .key (s.cursor.skip 1) with keyAllowed := !s.inFlow }

def value (s : Scan) : Option Scan :=
  match s.key? with
  | some k =>
    -- The key was read as a value: its mark, and that of the block it opens, go in front of it.
    let s := (s.insert k.number .key).openBlock k.column k.number .blockMapping
    some { s.emit .value (s.cursor.skip 1) with keys := s.keys.tail, keyAllowed := false }
  | none =>
    if !s.inFlow && !s.keyAllowed then none
    else
      let s := s.openBlock s.cursor.column s.count .blockMapping
      some { s.emit .value (s.cursor.skip 1) with keyAllowed := !s.inFlow }

def name (s : Scan) (t : String → Token) : Option Scan := do
  let s ← s.markKey
  let (n, c) ← scanName s.cursor
  some { s.emit (t n) c with keyAllowed := false }

def tag (s : Scan) : Option Scan := do
  let s ← s.markKey
  let (t, c) ← scanTag s.inFlow s.cursor
  some { s.emit t c with keyAllowed := false }

def block (s : Scan) (literal : Bool) : Option Scan := do
  let s ← s.dropKey
  let (text, c) ← blockScalar literal s.indent (s.cursor.skip 1)
  let style := if literal then .literal else .other
  some { s.emit (.scalar style (String.ofList text)) c with keyAllowed := true }

def quotes (fuel : Nat) (s : Scan) (single : Bool) : Option Scan := do
  let s ← s.markKey
  let (text, c) ← quoted single fuel (s.cursor.skip 1)
  some { s.emit (.scalar .other (String.ofList text)) c with keyAllowed := false }

/-- A plain scalar. A key may begin after it only on another line. -/
def plainScalar (fuel : Nat) (s : Scan) : Option Scan := do
  let s ← s.markKey
  let (text, c, newLine) ← plain s.inFlow (s.indent + 1).toNat fuel (.blanks []) s.cursor
  some { s.emit (.scalar .plain (String.ofList text)) c with keyAllowed := newLine }

def indicators : List Char := "-?:,[]\x7b\x7d#&*!|>'\"%@`".toList

/-- Read the next token, which begins with `x`; the fuel exceeds the length of what follows. -/
def next (fuel : Nat) (s : Scan) (x : Char) (rest : List Char) : Option Scan :=
  let spaced := s.inFlow || atGap rest
  if s.cursor.column == 0 && x == '%' then s.directive
  else if s.cursor.atMarker then
    if x == '-' then s.marker .documentStart else s.marker .documentEnd
  else if x == '[' then s.openFlow .flowSequence
  else if x == '\x7b' then s.openFlow .flowMapping
  else if x == ']' then s.closeFlow .flowSequenceEnd
  else if x == '\x7d' then s.closeFlow .flowMappingEnd
  else if x == ',' then s.flowEntry
  else if x == '-' && atGap rest then s.blockEntry
  else if x == '?' && spaced then s.explicitKey
  else if x == ':' && spaced then s.value
  else if x == '*' then s.name .alias
  else if x == '&' then s.name .anchor
  else if x == '!' then s.tag
  else if x == '|' && !s.inFlow then s.block true
  else if x == '>' && !s.inFlow then s.block false
  else if x == '\'' then quotes fuel s true
  else if x == '"' then quotes fuel s false
  else if !(isBlank x || indicators.contains x) || (x == '-' && !rest.head?.any isBlank) ||
      (!s.inFlow && (x == '?' || x == ':')) then plainScalar fuel s
  else none

/-- Read all tokens. Each takes up a character, so that the fuel always exceeds what is left. -/
def run : Nat → Scan → Option (List Token)
  | 0, _ => none
  | fuel + 1, s => do
    let s ← (skipGaps (fuel + 1) s).dropStale
    match s.cursor.rest with
    | [] => some (← s.endBlocks).tokens.reverse
    | x :: rest => run fuel (← next fuel (s.closeBlocks (Int.ofNat s.cursor.column)) x rest)

end Scan

def tokens? (text : List Char) : Option (List Token) :=
  if text.all isAllowed then Scan.run (text.length + 2) (.initial text) else none

end HelpMiner.Document.Yaml
