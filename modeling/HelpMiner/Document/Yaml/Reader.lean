import HelpMiner.Document.Content
import HelpMiner.Document.Yaml.Node
import HelpMiner.Document.Yaml.Plain

/-! Reading YAML by shape. A problem is told with the path of the innermost value that knows it.
Aliases can be followed only so often as the length of the document allows. -/
namespace HelpMiner.Document.Yaml

/-- Where a value stands in a document. -/
inductive Place where
  | root
  | inner (path : String)
  deriving DecidableEq, Repr

namespace Place

def member (key : String) : Place → Place
  | root => inner key
  | inner path => inner (path ++ "." ++ key)

/-- The place of the value for a key that is no scalar. -/
def unnamed : Place → Place
  | root => inner "?"
  | inner path => inner (path ++ ".?")

def item (i : Nat) : Place → Place
  | root => inner (".[" ++ toString i ++ "]")
  | inner path => inner (path ++ "[" ++ toString i ++ "]")

/-- The path that a message gives to a place. -/
def path? : Place → Option String
  | root => none
  | inner path => some path

end Place

/-- A mismatch, and its place once it is known. -/
structure Fault where
  place : Option Place
  why : Mismatch

/-- A value, or what is wrong with it. The state is how many aliases can still be followed. -/
abbrev Result (α : Type) := StateT Nat (Except Fault) α

def refuse {α : Type} (why : Mismatch) : Result α := fun _ => .error ⟨none, why⟩

def giveUp {α : Type} (message : String) : Result α :=
  fun _ => .error ⟨some .root, .refused message⟩

/-- A mismatch of which only the enclosing values can tell the place. -/
def lift {α : Type} (r : Except Mismatch α) : Result α :=
  fun left => (r.mapError fun why => ⟨none, why⟩).map (·, left)

def located {α : Type} (p : Place) (r : Result α) : Result α :=
  fun left => (r left).mapError fun f => ⟨f.place.orElse fun _ => some p, f.why⟩

def follow (t : Tree) : Node → Result Node
  | .alias id => do
    match ← get with
    | 0 => giveUp "repetition limit exceeded"
    | left + 1 =>
      set left
      return t.find id
  | n => return n

/-- How to read a value: the tree, the levels that are left, the place, and the node. -/
abbrev Reader := Tree → Nat → Place → Node → Result Value

structure FieldReader where
  name : String
  missing : Missing
  read : Reader

/-- The tag of a type of the core schema. -/
def coreTag (name : String) : Tag := coreLead ++ Tag.ofAscii name.toList

/-- Whether a tag begins with an exclamation mark. -/
def isLocal (tag : Tag) : Bool := tag.head? == some 0x21

/-- The name in a tag that begins with an exclamation mark, which is a name if it stands alone. -/
def localName? (tag : Option Tag) : Option String := do
  let t ← tag
  if isLocal t then
    String.fromUTF8? ⟨(if t.length == 1 then t else t.drop 1).toArray⟩
  else none

/-- The mismatch of a scalar, by its tag and its text. -/
def scalarMismatch (expected : String) (tag : Option Tag) (style : Style) (text : String) :
    Mismatch :=
  let s := text.toList
  let typed (found : Option Found) (kind : String) : Mismatch :=
    match found with
    | some f => .wrongType f expected
    | none => .wrongValue (.string text) kind
  match tag with
  | some t =>
    if t == coreTag "bool" then typed ((bool? s).map .bool) "a boolean"
    else if t == coreTag "int" then typed (integer? s) "an integer"
    else if t == coreTag "float" then typed ((realText? s).map .real) "a float"
    else if t == coreTag "null" then
      typed (if isNull s then some (.absent "unit value") else none) "null"
    else if isLocal t && style == .plain then .wrongType (plainFound s) expected
    else .wrongType (.string text) expected
  | none =>
    .wrongType (if style == .plain then plainFound s else .string text) expected

def wrongType (expected : String) : Node → Mismatch
  | .scalar tag style text => scalarMismatch expected tag style text
  | .sequence .. => .wrongType .sequence expected
  | .mapping .. => .wrongType .map expected
  | .alias _ => .wrongType (.absent "unit value") expected

/-- Whether a scalar can be read as a truth value or number. -/
def isTyped (core : String) (tag : Option Tag) (style : Style) : Bool :=
  style == .plain || (style == .literal && tag == some (coreTag core))

/-- The text of any scalar. -/
def readText (expected : String) (t : Tree) (p : Place) (n : Node) : Result String := do
  match ← follow t n with
  | .scalar _ _ text => return text
  | m => located p (refuse (wrongType expected m))

def readBool (t : Tree) (p : Place) (n : Node) : Result Value := do
  let m ← follow t n
  let found := match m with
    | .scalar tag style text => if isTyped "bool" tag style then bool? text.toList else none
    | _ => none
  match found with
  | some b => return .bool b
  | none => located p (refuse (wrongType "a boolean" m))

def readUnsigned (type : String) (t : Tree) (p : Place) (n : Node) : Result Value := do
  let m ← follow t n
  let found := match m with
    | .scalar tag style text =>
      if isTyped "int" tag style then unsigned? (Nat.pow 2 64) text.toList else none
    | _ => none
  match found with
  | some k => return .nat k
  | none => located p (refuse (wrongType type m))

/-- Whether a node stands for nothing, where nothing may stand. -/
def isAbsent (n : Node) : Result Bool :=
  match n with
  | .scalar tag .plain text =>
    let s := text.toList
    match tag with
    | some t =>
      if t != coreTag "null" then return false
      else if isNull s then return true
      else refuse (.wrongValue (.string text) "null")
    | none => return s.isEmpty || isNull s
  | _ => return false

/-- Nothing, after a tag that names a choice. -/
def readNothing (p : Place) (n : Node) : Result Unit :=
  located p <| match n with
    | .scalar _ style text =>
      if style == .plain && (text.isEmpty || isNull text.toList) then return ()
      else refuse (.wrongValue (.string text) "null")
    | m => refuse (wrongType "unit" m)

def known (names : List String) (name : String) : Result Value :=
  if names.contains name then return .text name else refuse (.unknownVariant name names)

/-- One of some names: the text of a scalar, or the tag of a node that holds nothing. -/
def chosen (names : List String) (p : Place) (n : Node) : Result Value :=
  let tagged (tag : String) : Result Value := do
    let v ← known names tag
    readNothing p n
    return v
  let expected := "a YAML tag starting with '!'"
  match n with
  | .scalar tag _ text =>
    match localName? tag with
    | some name => tagged name
    | none => located p (known names text)
  | .sequence tag _ | .mapping tag _ =>
    match localName? tag with
    | some name => tagged name
    | none => located p (refuse (wrongType expected n))
  | .alias _ => located p (refuse (wrongType expected n))

/-- One of some names. What is wrong with a tag is told at the place of the enclosing value, but
    at the place of an alias if that stands for the node. -/
def readChoice (names : List String) (t : Tree) (p : Place) : Node → Result Value
  | .alias id => located p do chosen names p (← follow t (.alias id))
  | n => chosen names p n

/-- The items of a sequence; a plain scalar without text has none. -/
def itemsOf? : Node → Option (List Node)
  | .sequence _ items => some items
  | .scalar _ .plain text => if text.isEmpty then some [] else none
  | _ => none

/-- The members of a mapping; a plain scalar without text has none. -/
def membersOf? : Node → Option (List (Node × Node))
  | .mapping _ members => some members
  | .scalar _ .plain text => if text.isEmpty then some [] else none
  | _ => none

def readItems (read : Place → Node → Result Value) (p : Place) :
    Nat → List Node → Result (List Value)
  | _, [] => return []
  | i, n :: rest => do
    let v ← read (p.item i) n
    return v :: (← readItems read p (i + 1) rest)

def readPair (t : Tree) (p : Place) (n : Node) : Result Value := do
  let m ← follow t n
  let expected := "a tuple of size 2"
  located p <| match itemsOf? m with
    | none => refuse (wrongType expected m)
    | some [] => refuse (.wrongLength 0 expected)
    | some (a :: rest) => do
      let a ← readText "a string" t (p.item 0) a
      match rest with
      | [] => refuse (.wrongLength 1 expected)
      | b :: more =>
        let b ← readText "a string" t (p.item 1) b
        if more.isEmpty then return .texts [a, b]
        else refuse (.wrongLength (more.length + 2) ("sequence of " ++ elements 2))

def placeOf (p : Place) : Node → Place
  | .scalar _ _ text => p.member text
  | _ => p.unnamed

def readMembers (key : Place → Node → Result String) (value : Place → Node → Result Value)
    (p : Place) : List (Node × Node) → Result (List (String × Value))
  | [] => return []
  | (k, n) :: rest => do
    let name ← key p k
    let v ← value (placeOf p k) n
    return (name, v) :: (← readMembers key value p rest)

def readTable (expected : String) (key : Tree → Place → Node → Result String) (value : Reader)
    (t : Tree) (depth : Nat) (p : Place) (n : Node) : Result Value := do
  let m ← follow t n
  located p <| match membersOf? m with
    | none => refuse (wrongType expected m)
    | some members => .map <$> readMembers (key t) (value t (depth - 1)) p members

/-- The values of all fields in order, from those that a map has. -/
def fill (found : List (String × Value)) : List FieldReader → Result (List (String × Value))
  | [] => return []
  | f :: rest => do
    let v ← match found.find? fun m => m.1 == f.name with
      | some m => pure m.2
      | none =>
        match f.missing with
        | .required => refuse (.missingField f.name)
        | .null => pure .null
        | .default v => pure v
    return (f.name, v) :: (← fill found rest)

/-- The fields among the members of a map, given those found before. -/
def readFields (closed : Bool) (fields : List FieldReader) (t : Tree) (depth : Nat) (p : Place) :
    List (String × Value) → List (Node × Node) → Result (List (String × Value))
  | found, [] => return found
  | found, (k, n) :: rest => do
    let key ← readText "field identifier" t p k
    match fields.find? fun f => f.name == key with
    | some f =>
      if found.any fun m => m.1 == key then refuse (.duplicateField key)
      else
        let v ← f.read t depth (placeOf p k) n
        readFields closed fields t depth p (found ++ [(key, v)]) rest
    | none =>
      if closed then located p (refuse (.unknownField key (fields.map (·.name))))
      else readFields closed fields t depth p found rest

def readRecord (name : String) (closed : Bool) (fields : List FieldReader) (t : Tree)
    (depth : Nat) (p : Place) (n : Node) : Result Value := do
  let m ← follow t n
  located p <| match membersOf? m with
    | none => refuse (wrongType ("struct " ++ name) m)
    | some members => do
      let found ← readFields closed fields t (depth - 1) p [] members
      .map <$> fill found fields

def scalarContent (tag : Option Tag) (style : Style) (text : String) : Result Content :=
  match scalarMismatch "any value" tag style text with
  | .wrongType (.string s) _ => return .text s
  | .wrongType (.wideInteger n w) e => refuse (.wrongType (.wideInteger n w) e)
  | .wrongType f _ => return .leaf f
  | why => refuse why

def contents (read : Place → Node → Result Content) (p : Place) :
    Nat → List Node → Result (List Content)
  | _, [] => return []
  | i, n :: rest => do
    let c ← read (p.item i) n
    return c :: (← contents read p (i + 1) rest)

def contentMembers (read : Place → Node → Result Content) (p : Place) :
    List (Node × Node) → Result (List (Content × Content))
  | [] => return []
  | (k, n) :: rest => do
    let key ← read p k
    let c ← read (placeOf p k) n
    return (key, c) :: (← contentMembers read p rest)

def tagOf : Node → Option Tag
  | .scalar tag .. | .sequence tag _ | .mapping tag _ => tag
  | .alias _ => none

/-- A value of no known shape, with at most `depth` levels. -/
def content (t : Tree) : Nat → Place → Node → Result Content
  | depth, p, n => do
    let m ← follow t n
    located p <|
      if (localName? (tagOf m)).isSome then
        refuse (.refused "untagged and internally tagged enums do not support enum input")
      else match m, depth with
        | .scalar tag style text, _ => scalarContent tag style text
        | .sequence _ items, depth + 1 => .list <$> contents (content t depth) p 0 items
        | .mapping _ members, depth + 1 => .map <$> contentMembers (content t depth) p members
        | .sequence .., 0 | .mapping .., 0 => giveUp "recursion limit exceeded"
        | .alias _, _ => refuse (.wrongType (.absent "unit value") "any value")

/-- The members of a tagged map: the variant, once its tag is found, and the other members. -/
def readTagged (tag : String) (variants : List Variant) (t : Tree) (depth : Nat) (p : Place) :
    Option Variant → List (Content × Content) → List (Node × Node) → Result (Variant × Content)
  | some v, others, [] => return (v, .map others)
  | none, _, [] => refuse (.missingField tag)
  | variant, others, (k, n) :: rest => do
    let key ← content t depth p k
    match key with
    | .text s =>
      if s == tag then
        if variant.isSome then refuse (.duplicateField tag)
        else
          let place := placeOf p k
          let name ← readText "variant identifier" t place n
          let v ← located place (lift (Variant.ofTag variants name))
          readTagged tag variants t depth p (some v) others rest
      else
        let c ← content t depth (placeOf p k) n
        readTagged tag variants t depth p variant (others ++ [(key, c)]) rest
    | _ =>
      let c ← content t depth (placeOf p k) n
      readTagged tag variants t depth p variant (others ++ [(key, c)]) rest

/-- A tagged value: a map with the tag among its keys, or a list that begins with the tag. What is
    wrong with the variant is told at the place of the enclosing value. -/
def readVariant (name tag : String) (variants : List Variant) (t : Tree) (depth : Nat) (p : Place)
    (n : Node) : Result Value := do
  let m ← follow t n
  let expected := "internally tagged enum " ++ name
  let choice := Mismatch.wrongType .enumeration expected
  let (v, rest) ← located p <| match m with
    | .mapping label members =>
      if (localName? label).isSome then refuse choice
      else readTagged tag variants t (depth - 1) p none [] members
    | .sequence label [] => refuse (if (localName? label).isSome then choice else .missingField tag)
    | .sequence label (first :: items) =>
      if (localName? label).isSome then refuse choice
      else do
        let place := p.item 0
        let name ← readText "variant identifier" t place first
        let v ← located place (lift (Variant.ofTag variants name))
        let cs ← contents (content t (depth - 1)) p 1 items
        return (v, .list cs)
    | .scalar label style text =>
      refuse <|
        if (localName? label).isSome then choice else scalarMismatch expected label style text
    | .alias _ => refuse (wrongType expected m)
  lift (v.read name tag rest)

/-- The key of a table. -/
def readKey : Shape → Tree → Place → Node → Result String
  | .choice names, t, p, n => do
    let v ← readChoice names t p n
    return v.text?.getD ""
  | _, t, p, n => readText "a string" t p n

mutual

def reader : Shape → Reader
  | .text, t, _, p, n => .text <$> readText "a string" t p n
  | .path, t, _, p, n => .text <$> readText "path string" t p n
  | .bool, t, _, p, n => readBool t p n
  | .unsigned type, t, _, p, n => readUnsigned type t p n
  | .optional inner, t, depth, p, n => do
    let m ← follow t n
    if ← isAbsent m then return .null else reader inner t depth p m
  | .list item, t, depth, p, n => do
    let m ← follow t n
    located p <| match itemsOf? m with
      | none => refuse (wrongType "a sequence" m)
      | some items => .list <$> readItems (reader item t (depth - 1)) p 0 items
  | .textPair, t, _, p, n => readPair t p n
  | .table key value, t, depth, p, n => readTable "a map" (readKey key) (reader value) t depth p n
  | .sections, t, depth, p, n =>
    readTable "a mapping from section heading to section text" (readText "a string")
      (fun t _ p n => .text <$> readText "a string" t p n) t depth p n
  | .choice names, t, _, p, n => readChoice names t p n
  | .selector read, t, _, p, n => do
    let text ← readText "a string" t p n
    lift ((.text <$> read text).mapError .refused)
  | .record name closed fields, t, depth, p, n =>
    readRecord name closed (fieldReaders fields) t depth p n
  | .tagged name tag variants, t, depth, p, n => readVariant name tag variants t depth p n

def fieldReaders : Fields → List FieldReader
  | .nil => []
  | .cons name shape missing rest => ⟨name, missing, reader shape⟩ :: fieldReaders rest

end

/-- The levels that a document may have. -/
def maxDepth : Nat := 128

/-- How many aliases can be followed in reading a document. -/
def maxAliases (t : Tree) : Nat := 100 * t.root.size

def read (shape : Shape) (text : String) : Except Problem Value :=
  match Tree.parse? text.toList with
  | none => .error .malformed
  | some t =>
    match reader shape t maxDepth .root t.root (maxAliases t) with
    | .ok (v, _) => .ok v
    | .error f => .error (.mismatch (f.place.bind Place.path?) f.why)

end HelpMiner.Document.Yaml
