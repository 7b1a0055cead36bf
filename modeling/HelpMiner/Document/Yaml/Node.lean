import HelpMiner.Document.Yaml.Tokens

/-! The tree of a YAML document. -/
namespace HelpMiner.Document.Yaml

/-- A node: its tag, if it has one, and what it holds. -/
inductive Node where
  | scalar (tag : Option Tag) (style : Style) (text : String)
  | sequence (tag : Option Tag) (items : List Node)
  | mapping (tag : Option Tag) (members : List (Node × Node))
  /-- The node that was anchored under a number. -/
  | alias (id : Nat)
  deriving Repr, Inhabited

def Node.empty : Node := .scalar none .plain ""

/-- A node with an anchor: its rank among all anchors, and the number by which aliases know it. -/
structure Anchored where
  rank : Nat
  id : Nat
  node : Node
  deriving Repr

/-- The node for a number: the last that has it. -/
def latest (anchored : List Anchored) (id : Nat) : Node :=
  ((anchored.filter (·.id == id)).foldl (fun best a =>
    match best with
    | some b => if b.rank < a.rank then some a else some b
    | none => some a) none).elim .empty (·.node)

/-- A document: its root, and the nodes that aliases stand for, by their numbers. -/
structure Tree where
  root : Node
  named : Array Node
  deriving Repr, Inhabited

def Tree.find (t : Tree) (id : Nat) : Node := t.named.getD id .empty

mutual

/-- How many marks a node is made of: one for a scalar or an alias, two for what has a beginning
    and an end, and those of the nodes in it. -/
def Node.size : Node → Nat
  | .scalar .. | .alias _ => 1
  | .sequence _ items => 2 + itemsSize items
  | .mapping _ members => 2 + membersSize members

def itemsSize : List Node → Nat
  | [] => 0
  | n :: rest => n.size + itemsSize rest

def membersSize : List (Node × Node) → Nat
  | [] => 0
  | (k, v) :: rest => k.size + v.size + membersSize rest

end

structure Parse where
  tokens : List Token
  /-- The numbers of the anchors by name. A new anchor gets the number of names before it. -/
  names : List (String × Nat)
  rank : Nat
  anchored : List Anchored
  /-- What the handles of tags stand for. -/
  handles : List (String × Tag)

/-- A step of reading tokens. -/
abbrev Parser (α : Type) := StateT Parse Option α

namespace Parser

def peek : Parser (Option Token) := fun p => some (p.tokens.head?, p)

def advance : Parser Unit := fun p => some ((), { p with tokens := p.tokens.tail })

/-- Whether the next token is `t`, which is then moved past. -/
def accept (t : Token) : Parser Bool := fun p =>
  if p.tokens.head? == some t then some (true, { p with tokens := p.tokens.tail })
  else some (false, p)

def sees (ts : List Token) : Parser Bool := fun p =>
  some (p.tokens.head?.any ts.contains, p)

def fail {α : Type} : Parser α := fun _ => none

/-- Take up an anchor, giving its rank and number. -/
def define (name : String) : Parser (Nat × Nat) := fun p =>
  let id := p.names.length
  let others := p.names.filter fun n => n.1 != name
  some ((p.rank, id), { p with names := (name, id) :: others, rank := p.rank + 1 })

/-- Keep the node of an anchor. -/
def keep (place : Option (Nat × Nat)) (n : Node) : Parser Node := fun p =>
  match place with
  | some (rank, id) => some (n, { p with anchored := ⟨rank, id, n⟩ :: p.anchored })
  | none => some (n, p)

def named (name : String) : Parser Node := fun p =>
  (p.names.find? fun n => n.1 == name).map fun n => (.alias n.2, p)

/-- A tag with its handle replaced. -/
def resolveTag (handle : String) (suffix : Tag) : Parser Tag := fun p =>
  if handle.isEmpty then some (suffix, p)
  else (p.handles.find? fun h => h.1 == handle).map fun h => (h.2 ++ suffix, p)

def tag? : Parser (Option Tag) := do
  match ← peek with
  | some (.tag handle suffix) =>
    advance
    return some (← resolveTag handle suffix)
  | _ => return none

def anchor? : Parser (Option String) := do
  match ← peek with
  | some (.anchor name) =>
    advance
    return some name
  | _ => return none

def properties : Parser (Option String × Option Tag) := do
  match ← anchor? with
  | some name => return (some name, ← tag?)
  | none =>
    match ← tag? with
    | some tag => return (← anchor?, some tag)
    | none => return (none, none)

mutual

/-- A node. Blocks can begin here if `block`; items can, without a block of their own, if
    `items`. -/
def node : Nat → (block items : Bool) → Parser Node
  | 0, _, _ => fail
  | fuel + 1, block, items => do
    match ← peek with
    | some (.alias name) =>
      advance
      named name
    | _ =>
      let (anchor, tag) ← properties
      let place ← match anchor with
        | some name => some <$> define name
        | none => pure none
      -- The anchor has its number before the node is read, so an alias in the node can name it.
      let n ← content fuel block items tag (anchor.isSome || tag.isSome)
      keep place n

/-- What a node holds; nothing, if it may be `bare` because it has an anchor or a tag. -/
def content : Nat → (block items : Bool) → Option Tag → (bare : Bool) → Parser Node
  | 0, _, _, _, _ => fail
  | fuel + 1, block, items, tag, bare => do
    match ← peek with
    | some (.scalar style text) =>
      advance
      return .scalar tag style text
    | some .blockEntry =>
      if items then return .sequence tag (← bareItems fuel)
      else if bare then return .scalar tag .plain ""
      else fail
    | some .flowSequence =>
      advance
      return .sequence tag (← flowItems fuel true)
    | some .flowMapping =>
      advance
      return .mapping tag (← flowMembers fuel true)
    | some .blockSequence =>
      if block then
        advance
        return .sequence tag (← blockItems fuel)
      else if bare then return .scalar tag .plain ""
      else fail
    | some .blockMapping =>
      if block then
        advance
        return .mapping tag (← blockMembers fuel)
      else if bare then return .scalar tag .plain ""
      else fail
    | _ => if bare then return .scalar tag .plain "" else fail

/-- A node, or an empty one where one of the tokens `ends` comes next. -/
def nodeUnless : Nat → List Token → (block items : Bool) → Parser Node
  | 0, _, _, _ => fail
  | fuel + 1, ends, block, items => do
    if ← sees ends then return .empty else node fuel block items

/-- The items of a block, with its end. -/
def blockItems : Nat → Parser (List Node)
  | 0 => fail
  | fuel + 1 => do
    if ← accept .blockEntry then
      let n ← nodeUnless fuel [.blockEntry, .blockEnd] true false
      return n :: (← blockItems fuel)
    else if ← accept .blockEnd then return []
    else fail

def bareItems : Nat → Parser (List Node)
  | 0 => fail
  | fuel + 1 => do
    if ← accept .blockEntry then
      let n ← nodeUnless fuel [.blockEntry, .key, .value, .blockEnd] true false
      return n :: (← bareItems fuel)
    else return []

def blockMembers : Nat → Parser (List (Node × Node))
  | 0 => fail
  | fuel + 1 => do
    if ← accept .key then
      let k ← nodeUnless fuel [.key, .value, .blockEnd] true true
      let v ← if ← accept .value then nodeUnless fuel [.key, .value, .blockEnd] true true
        else pure .empty
      return (k, v) :: (← blockMembers fuel)
    else if ← accept .blockEnd then return []
    else fail

/-- The items between brackets, with the closing one. A key makes a mapping of one member. -/
def flowItems : Nat → (first : Bool) → Parser (List Node)
  | 0, _ => fail
  | fuel + 1, first => do
    if ← accept .flowSequenceEnd then return []
    else
      if !first then
        if !(← accept .flowEntry) then fail
      if ← accept .key then
        let m ← flowPair fuel
        return .mapping none [m] :: (← flowItems fuel false)
      -- A comma may stand after the last item.
      else if ← accept .flowSequenceEnd then return []
      else
        let n ← node fuel false false
        return n :: (← flowItems fuel false)

/-- The only member of a mapping between commas. A value without a key is passed over. -/
def flowPair : Nat → Parser (Node × Node)
  | 0 => fail
  | fuel + 1 => do
    -- The token after an empty key is passed over, a comma or a bracket too.
    let k ← if ← sees [.value, .flowEntry, .flowSequenceEnd] then
        advance
        pure .empty
      else node fuel false false
    let v ← if ← accept .value then
        nodeUnless fuel [.flowEntry, .flowSequenceEnd] false false
      else pure .empty
    return (k, v)

def flowMembers : Nat → (first : Bool) → Parser (List (Node × Node))
  | 0, _ => fail
  | fuel + 1, first => do
    if ← accept .flowMappingEnd then return []
    else
      if !first then
        if !(← accept .flowEntry) then fail
      if ← accept .key then
        let k ← nodeUnless fuel [.value, .flowEntry, .flowMappingEnd] false false
        let v ← if ← accept .value then
            nodeUnless fuel [.flowEntry, .flowMappingEnd] false false
          else pure .empty
        return (k, v) :: (← flowMembers fuel false)
      else if ← accept .flowMappingEnd then return []
      else
        let k ← node fuel false false
        return (k, .empty) :: (← flowMembers fuel false)

end

/-- The directives before a document: at most one version, 1.1 or 1.2, and each handle once. -/
def directives : Nat → Bool → List String → Parser Unit
  | 0, _, _ => fail
  | fuel + 1, versioned, seen => do
    match ← peek with
    | some (.version major minor) =>
      if versioned || major != 1 || (minor != 1 && minor != 2) then fail
      else
        advance
        directives fuel true seen
    | some (.tagHandle handle lead) =>
      if seen.contains handle then fail
      else
        advance
        modify fun p => { p with handles := (handle, lead) :: p.handles }
        directives fuel versioned (handle :: seen)
    | _ => return ()

def skipEnds : Nat → Parser Unit
  | 0 => fail
  | fuel + 1 => do
    if ← accept .documentEnd then skipEnds fuel else return ()

def seesDirective : Parser Bool := do
  match ← peek with
  | some (.version ..) | some (.tagHandle ..) => return true
  | _ => return false

def explicitRoot (fuel : Nat) : Parser Node := do
  if (← peek).isNone || (← seesDirective) || (← sees [.documentStart, .documentEnd]) then
    return .empty
  else node fuel true false

/-- The only document of a text; a text without tokens has an empty one. -/
def document (fuel : Nat) : Parser Node := do
  if (← peek).isNone then return .empty
  else
    let directed ← seesDirective
    directives fuel false []
    let root ←
      if ← accept .documentStart then explicitRoot fuel
      else if directed then fail
      else node fuel true false
    skipEnds fuel
    if (← peek).isNone then return root else fail

end Parser

/-- What the tags of the types of the core schema begin with. -/
def coreLead : Tag := Tag.ofAscii "tag:yaml.org,2002:".toList

/-- What handles stand for unless a directive says otherwise. -/
def usualHandles : List (String × Tag) := [("!", Tag.ofAscii ['!']), ("!!", coreLead)]

/-- How many steps it can take to read tokens. -/
def parseSteps (ts : List Token) : Nat := 4 * ts.length + 8

def Tree.parse? (text : List Char) : Option Tree := do
  let ts ← tokens? text
  let (root, p) ← (Parser.document (parseSteps ts)).run ⟨ts, [], 0, [], usualHandles⟩
  some ⟨root, ((List.range (p.names.length + 1)).map (latest p.anchored)).toArray⟩

end HelpMiner.Document.Yaml
