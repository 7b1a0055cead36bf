import HelpMiner.Document.Json.Skip

/-! Reading JSON by shape, from left to right: the first problem is the one that is told. -/
namespace HelpMiner.Document.Json

/-- How to read a value: the levels that are left, and the text. -/
abbrev Reader := Nat → List Char → Except Problem (Value × List Char)

structure FieldReader where
  name : String
  missing : Missing
  read : Reader

def refuse {α : Type} (why : Mismatch) : Except Problem α := .error (.mismatch none why)

def readText (expected : String) (s : List Char) : Except Problem (String × List Char) :=
  match skipSpace s with
  | '"' :: rest => (stringBody rest).map fun r => (String.ofList r.1, r.2)
  | _ => .error (wrongType expected s)

def readBool (s : List Char) : Except Problem (Value × List Char) :=
  match skipSpace s with
  | 't' :: rest => (word ['r', 'u', 'e'] rest).map (.bool true, ·)
  | 'f' :: rest => (word ['a', 'l', 's', 'e'] rest).map (.bool false, ·)
  | _ => .error (wrongType "a boolean" s)

/-- A number without sign and fraction. -/
def readUnsigned (type : String) (s : List Char) : Except Problem (Value × List Char) := do
  let (n, rest) ← match skipSpace s with
    | '-' :: rest => number true rest
    | c :: rest => if c.isDigit then number false (c :: rest) else .error (wrongType type s)
    | [] => .error .unfinished
  match n with
  | .unsigned n => .ok (.nat n, rest)
  | .negative n => refuse (.wrongValue (.integer n) type)
  | .real _ => refuse (.wrongType n.found type)

def readNull (s : List Char) : Except Problem (List Char) :=
  match skipSpace s with
  | 'n' :: rest => word ['u', 'l', 'l'] rest
  | _ => .error (wrongType "unit" s)

def known (names : List String) (name : String) : Except Problem Value :=
  if names.contains name then .ok (.text name) else refuse (.unknownVariant name names)

/-- One of some names: as a string, or as the only key of a map whose value is null. -/
def readChoice (names : List String) (s : List Char) : Except Problem (Value × List Char) :=
  match skipSpace s with
  | [] => .error .unfinished
  | '"' :: rest => do
    let (name, rest) ← stringBody rest
    return (← known names (String.ofList name), rest)
  | '\x7b' :: rest =>
    match skipSpace rest with
    | [] => .error .unfinished
    | '"' :: rest => do
      let (name, rest) ← stringBody rest
      let v ← known names (String.ofList name)
      let rest ← readNull (← colon rest)
      return (v, ← endMap rest)
    | _ => .error .malformed
  | _ => .error .malformed

def readPair (s : List Char) : Except Problem (Value × List Char) :=
  match skipSpace s with
  | '[' :: rest => do
    match ← nextItem true rest with
    | none => refuse (.wrongLength 0 "a tuple of size 2")
    | some item =>
      let (a, rest) ← readText "a string" item
      match ← nextItem false rest with
      | none => refuse (.wrongLength 1 "a tuple of size 2")
      | some item =>
        let (b, rest) ← readText "a string" item
        return (.texts [a, b], ← endList rest)
  | _ => .error (wrongType "a tuple of size 2" s)

def readTable (expected : String) (check : String → Except Problem Unit) (read : Reader)
    (depth : Nat) (s : List Char) : Except Problem (Value × List Char) :=
  match skipSpace s with
  | '\x7b' :: rest =>
    (allMembers (fun key s => (check key).bind fun _ => (colon s).bind (read (depth - 1)))
      (steps rest) true rest).map fun r => (.map r.1, r.2)
  | _ => .error (wrongType expected s)

/-- The values of all fields in order, from those that a map has. -/
def fill (found : List (String × Value)) : List FieldReader → Except Problem (List (String × Value))
  | [] => .ok []
  | f :: rest => do
    let v ← match found.find? fun m => m.1 == f.name with
      | some m => .ok m.2
      | none =>
        match f.missing with
        | .required => refuse (.missingField f.name)
        | .null => .ok .null
        | .default v => .ok v
    return (f.name, v) :: (← fill found rest)

/-- The members of a record after its brace, given those found before. -/
def readMembers (closed : Bool) (fields : List FieldReader) (depth : Nat) :
    Nat → Bool → List (String × Value) → List Char → Except Problem (Value × List Char)
  | 0, _, _, _ => .error .malformed
  | fuel + 1, first, found, s => do
    match ← nextKey first s with
    | none =>
      let ms ← fill found fields
      return (.map ms, ← endMap s)
    | some body =>
      let (key, rest) ← stringBody body
      let key := String.ofList key
      match fields.find? fun f => f.name == key with
      | some f =>
        if found.any fun m => m.1 == key then refuse (.duplicateField key)
        else
          let (v, rest) ← f.read (depth - 1) (← colon rest)
          readMembers closed fields depth fuel false (found ++ [(key, v)]) rest
      | none =>
        if closed then refuse (.unknownField key (fields.map (·.name)))
        else
          let rest ← skipValue (← colon rest)
          readMembers closed fields depth fuel false found rest

/-- The fields of a record in order, as the items of a list after its bracket. -/
def readInOrder (title : String) (depth : Nat) :
    Nat → List FieldReader → List Char → Except Problem (List (String × Value) × List Char)
  | _, [], s => .ok ([], s)
  | i, f :: fields, s => do
    let (v, rest) ← match ← nextItem (i == 0) s with
      | some item => f.read (depth - 1) item
      | none =>
        match f.missing with
        | .default v => .ok (v, s)
        | _ => refuse (.wrongLength i title)
    let (vs, rest) ← readInOrder title depth (i + 1) fields rest
    return ((f.name, v) :: vs, rest)

/-- A record, as a map or as a list of its fields in order. -/
def readRecord (name : String) (closed : Bool) (fields : List FieldReader) (depth : Nat)
    (s : List Char) : Except Problem (Value × List Char) :=
  match skipSpace s with
  | '\x7b' :: rest => readMembers closed fields depth (steps rest) true [] rest
  | '[' :: rest => do
    let title := "struct " ++ name ++ " with " ++ elements fields.length
    let (ms, rest) ← readInOrder title depth 0 fields rest
    return (.map ms, ← endList rest)
  | _ => .error (wrongType ("struct " ++ name) s)

/-- The members of a tagged map after its brace: the variant, once its tag is found, and the
    members besides the tag. -/
def readTagged (tag : String) (variants : List Variant) (depth : Nat) :
    Nat → Bool → Option Variant → List (Content × Content) → List Char →
      Except Problem (Variant × Content × List Char)
  | 0, _, _, _, _ => .error .malformed
  | fuel + 1, first, variant, others, s => do
    match ← nextKey first s with
    | none =>
      match variant with
      | some v => return (v, .map others, ← endMap s)
      | none => refuse (.missingField tag)
    | some body =>
      let (key, rest) ← stringBody body
      let key := String.ofList key
      if key == tag then
        if variant.isSome then refuse (.duplicateField tag)
        else
          let (name, rest) ← readText "variant identifier" (← colon rest)
          let v ← (Variant.ofTag variants name).mapError (.mismatch none ·)
          readTagged tag variants depth fuel false (some v) others rest
      else
        let (c, rest) ← content (depth - 1) (← colon rest)
        readTagged tag variants depth fuel false variant (others ++ [(.text key, c)]) rest

/-- The items of a tagged list after its bracket: the variant, and the items after the tag. -/
def readTaggedList (tag : String) (variants : List Variant) (depth : Nat) (s : List Char) :
    Except Problem (Variant × Content × List Char) := do
  match ← nextItem true s with
  | none => refuse (.missingField tag)
  | some item =>
    let (name, rest) ← readText "variant identifier" item
    let v ← (Variant.ofTag variants name).mapError (.mismatch none ·)
    let (cs, rest) ← allItems (content (depth - 1)) (steps rest) false rest
    return (v, .list cs, rest)

/-- A tagged value: a map with the tag among its keys, or a list that begins with the tag. -/
def readVariant (name tag : String) (variants : List Variant) (depth : Nat) (s : List Char) :
    Except Problem (Value × List Char) := do
  let (v, rest, s) ← match skipSpace s with
    | '\x7b' :: rest => readTagged tag variants depth (steps rest) true none [] rest
    | '[' :: rest => readTaggedList tag variants depth rest
    | _ => .error (wrongType ("internally tagged enum " ++ name) s)
  let value ← (v.read name tag rest).mapError (.mismatch none ·)
  return (value, s)

def checkKey : Shape → String → Except Problem Unit
  | .choice names, key => (known names key).map fun _ => ()
  | _, _ => .ok ()

mutual

def reader : Shape → Reader
  | .text, _, s => (readText "a string" s).map fun r => (.text r.1, r.2)
  | .path, _, s => (readText "path string" s).map fun r => (.text r.1, r.2)
  | .bool, _, s => readBool s
  | .unsigned type, _, s => readUnsigned type s
  | .optional inner, depth, s =>
    match skipSpace s with
    | 'n' :: rest => (word ['u', 'l', 'l'] rest).map (.null, ·)
    | _ => reader inner depth s
  | .list item, depth, s =>
    match skipSpace s with
    | '[' :: rest =>
      (allItems (reader item (depth - 1)) (steps rest) true rest).map fun r => (.list r.1, r.2)
    | _ => .error (wrongType "a sequence" s)
  | .textPair, _, s => readPair s
  | .table key value, depth, s => readTable "a map" (checkKey key) (reader value) depth s
  | .sections, depth, s =>
    readTable "a mapping from section heading to section text" (fun _ => .ok ())
      (fun _ s => (readText "a string" s).map fun r => (.text r.1, r.2)) depth s
  | .choice names, _, s => readChoice names s
  | .selector read, _, s => do
    let (text, rest) ← readText "a string" s
    match read text with
    | .ok name => return (.text name, rest)
    | .error message => refuse (.refused message)
  | .record name closed fields, depth, s => readRecord name closed (fieldReaders fields) depth s
  | .tagged name tag variants, depth, s => readVariant name tag variants depth s

def fieldReaders : Fields → List FieldReader
  | .nil => []
  | .cons name shape missing rest => ⟨name, missing, reader shape⟩ :: fieldReaders rest

end

/-- The levels that a document may have. -/
def maxDepth : Nat := 128

/-- The value of a shape in a document. Nothing but white space may follow it. -/
def read (shape : Shape) (text : String) : Except Problem Value := do
  let (v, rest) ← reader shape maxDepth text.toList
  if (skipSpace rest).isEmpty then .ok v else .error .malformed

end HelpMiner.Document.Json
