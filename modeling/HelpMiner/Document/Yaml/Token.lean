import HelpMiner.Document.Yaml.Scalar

/-! Tokens of YAML: what the indents, indicators and scalars of a text amount to. -/
namespace HelpMiner.Document.Yaml

/-- How a scalar is written, as far as its meaning depends on it. -/
inductive Style where
  | plain
  | literal
  /-- In quotes or folded. -/
  | other
  deriving DecidableEq, Repr, Inhabited

/-- The bytes of a tag. Percent escapes can make bytes that are no text. -/
abbrev Tag := List UInt8

def Tag.ofAscii (s : List Char) : Tag := s.map fun c => c.toNat.toUInt8

inductive Token where
  | version (major minor : Nat)
  | tagHandle (handle : String) (lead : Tag)
  | documentStart
  | documentEnd
  | blockSequence
  | blockMapping
  | blockEnd
  | flowSequence
  | flowSequenceEnd
  | flowMapping
  | flowMappingEnd
  | blockEntry
  | flowEntry
  | key
  | value
  | alias (name : String)
  | anchor (name : String)
  | tag (handle : String) (suffix : Tag)
  | scalar (style : Style) (text : String)
  deriving DecidableEq, Repr, Inhabited

/-- A character of a tag, apart from escapes; `verbatim` ones stand between angle brackets. -/
def isTagChar (verbatim : Bool) (c : Char) : Bool :=
  isNameChar c || ";/?:@&=+$.!~*'()".toList.contains c || (verbatim && ",[]".toList.contains c)

def percent? : List Char → Option Nat
  | '%' :: a :: b :: _ => Text.digitsFrom? 16 0 [a, b]
  | _ => none

/-- How many bytes a character has, by the first of them. -/
def byteCount? (first : Nat) : Option Nat :=
  if first < 0x80 then some 1
  else if first / 32 == 6 then some 2
  else if first / 16 == 14 then some 3
  else if first / 8 == 30 then some 4
  else none

/-- The bytes in so many percent escapes that continue a character. -/
def percentRest? : Nat → List Char → Option Tag
  | 0, _ => some []
  | n + 1, s => do
    let b ← percent? s
    if b / 64 == 2 then (b.toUInt8 :: ·) <$> percentRest? n (s.drop 3) else none

/-- The bytes of a character in percent escapes. How many they are is told by the first. -/
def percentChar? (s : List Char) : Option Tag := do
  let first ← percent? s
  let n ← byteCount? first
  (first.toUInt8 :: ·) <$> percentRest? (n - 1) (s.drop 3)

/-- The bytes of a tag at the front, and the place after them. -/
def tagBytes (verbatim : Bool) : Nat → Cursor → Option (Tag × Cursor)
  | 0, _ => none
  | fuel + 1, c =>
    match c.rest with
    | [] => some ([], c)
    | x :: _ =>
      if x == '%' then do
        let bs ← percentChar? c.rest
        let (more, stop) ← tagBytes verbatim fuel (c.skip (3 * bs.length))
        some (bs ++ more, stop)
      else if isTagChar verbatim x then do
        let (more, stop) ← tagBytes verbatim fuel (c.skip 1)
        some (Tag.ofAscii [x] ++ more, stop)
      else some ([], c)

/-- The bytes before the first zero, which ends a tag wherever it stands. -/
def Tag.shown (t : Tag) : Tag := t.takeWhile (· != 0)

/-- A handle at the front: an exclamation mark, and perhaps a name and another one. -/
def tagHandle? (c : Cursor) : Option (List Char × Cursor) :=
  match c.rest with
  | '!' :: rest =>
    let name := rest.takeWhile isNameChar
    let c := c.skip (name.length + 1)
    if c.sees (· == '!') then some ('!' :: name ++ ['!'], c.skip 1) else some ('!' :: name, c)
  | _ => none

def scanTag (flow : Bool) (c : Cursor) : Option (Token × Cursor) := do
  let fuel := c.rest.length + 1
  let (token, c) ← match c.rest with
    | '!' :: '<' :: _ => do
      let (suffix, c) ← tagBytes true fuel (c.skip 2)
      if suffix.isEmpty || !c.sees (· == '>') then none
      else some (Token.tag "" suffix.shown, c.skip 1)
    | _ => do
      let (handle, c) ← tagHandle? c
      let (suffix, c) ← tagBytes false fuel c
      if 1 < handle.length && handle.getLast? == some '!' then
        if suffix.isEmpty then none
        else some (Token.tag (String.ofList handle) suffix.shown, c)
      else
        let suffix := Tag.shown (Tag.ofAscii (handle.drop 1) ++ suffix)
        if suffix.isEmpty then some (Token.tag "" (Tag.ofAscii ['!']), c)
        else some (Token.tag "!" suffix, c)
  if atGap c.rest || (flow && c.sees (· == ',')) then some (token, c) else none

def scanName (c : Cursor) : Option (String × Cursor) :=
  let name := (c.rest.drop 1).takeWhile isNameChar
  let stop := c.skip (name.length + 1)
  if !name.isEmpty && (atGap stop.rest || stop.sees fun x => "?:,]\x7d%@`".toList.contains x) then
    some (String.ofList name, stop)
  else none

/-- A number of a version, of at most nine digits, and the place after it. -/
def versionNumber (c : Cursor) : Option (Nat × Cursor) :=
  let digits := c.rest.takeWhile Char.isDigit
  if digits.isEmpty || 9 < digits.length then none
  else (Text.digitsFrom? 10 0 digits).map fun n => (n, c.skip digits.length)

def directiveValue (name : String) (c : Cursor) : Option (Token × Cursor) := do
  let c := c.skipWhile isBlank
  if name == "YAML" then
    let (major, c) ← versionNumber c
    if !c.sees (· == '.') then none
    else
      let (minor, c) ← versionNumber (c.skip 1)
      some (.version major minor, c)
  else if name == "TAG" then
    let (handle, c) ← tagHandle? c
    if handle != ['!'] && handle.getLast? != some '!' then none
    else if !c.sees isBlank then none
    else
      let (lead, c) ← tagBytes true (c.rest.length + 1) (c.skipWhile isBlank)
      if lead.isEmpty || !atGap c.rest then none
      else some (.tagHandle (String.ofList handle) lead.shown, c)
  else none

def scanDirective (c : Cursor) : Option (Token × Cursor) := do
  let name := (c.rest.drop 1).takeWhile isNameChar
  let c := c.skip (name.length + 1)
  if name.isEmpty || !atGap c.rest then none
  else
    let (token, c) ← directiveValue (String.ofList name) c
    let c := c.skipWhile isBlank
    let c := if c.sees (· == '#') then c.skipWhile fun x => !isBreak x else c
    if atLineEnd c.rest then some (token, c.skipLine) else none

end HelpMiner.Document.Yaml
