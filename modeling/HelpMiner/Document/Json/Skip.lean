import HelpMiner.Document.Content
import HelpMiner.Document.Json.Number
import HelpMiner.Document.Json.Text

/-! JSON values by their parts: words, items and members, and values that are passed over. -/
namespace HelpMiner.Document.Json

def word : List Char → List Char → Except Problem (List Char)
  | [], s => .ok s
  | _ :: _, [] => .error .unfinished
  | w :: ws, c :: s => if w == c then word ws s else .error .malformed

/-- The next item of a list, where it begins, unless the list ends here. -/
def nextItem (first : Bool) (s : List Char) : Except Problem (Option (List Char)) :=
  match skipSpace s with
  | [] => .error .unfinished
  | ']' :: _ => .ok none
  | c :: rest =>
    if first then .ok (some (c :: rest))
    else if c == ',' then
      match skipSpace rest with
      | [] => .error .unfinished
      | ']' :: _ => .error .malformed
      | item => .ok (some item)
    else .error .malformed

def endList (s : List Char) : Except Problem (List Char) :=
  match skipSpace s with
  | [] => .error .unfinished
  | ']' :: rest => .ok rest
  | _ => .error .malformed

/-- The next key of a map after its quote, unless the map ends here. -/
def nextKey (first : Bool) (s : List Char) : Except Problem (Option (List Char)) :=
  match skipSpace s with
  | [] => .error .unfinished
  | '\x7d' :: _ => .ok none
  | c :: rest =>
    if first then (if c == '"' then .ok (some rest) else .error .malformed)
    else if c == ',' then
      match skipSpace rest with
      | [] => .error .unfinished
      | '"' :: key => .ok (some key)
      | _ => .error .malformed
    else .error .malformed

def endMap (s : List Char) : Except Problem (List Char) :=
  match skipSpace s with
  | [] => .error .unfinished
  | '\x7d' :: rest => .ok rest
  | _ => .error .malformed

def colon (s : List Char) : Except Problem (List Char) :=
  match skipSpace s with
  | [] => .error .unfinished
  | ':' :: rest => .ok rest
  | _ => .error .malformed

/-- All items of a list after its bracket, each read by `read`, and what follows the list. -/
def allItems {α : Type} (read : List Char → Except Problem (α × List Char)) :
    Nat → Bool → List Char → Except Problem (List α × List Char)
  | 0, _, _ => .error .malformed
  | fuel + 1, first, s => do
    match ← nextItem first s with
    | none => return ([], ← endList s)
    | some item =>
      let (v, rest) ← read item
      let (vs, rest) ← allItems read fuel false rest
      return (v :: vs, rest)

/-- All members of a map after its brace: the keys, with the values read by `read`, and what
    follows the map. -/
def allMembers {α : Type} (read : String → List Char → Except Problem (α × List Char)) :
    Nat → Bool → List Char → Except Problem (List (String × α) × List Char)
  | 0, _, _ => .error .malformed
  | fuel + 1, first, s => do
    match ← nextKey first s with
    | none => return ([], ← endMap s)
    | some body =>
      let (key, rest) ← stringBody body
      let (v, rest) ← read (String.ofList key) rest
      let (vs, rest) ← allMembers read fuel false rest
      return ((String.ofList key, v) :: vs, rest)

mutual

/-- What follows a value that is passed over. Its strings and numbers are checked in form only. -/
def skip : Nat → List Char → Except Problem (List Char)
  | 0, _ => .error .malformed
  | fuel + 1, s =>
    match skipSpace s with
    | [] => .error .unfinished
    | 'n' :: rest => word ['u', 'l', 'l'] rest
    | 't' :: rest => word ['r', 'u', 'e'] rest
    | 'f' :: rest => word ['a', 'l', 's', 'e'] rest
    | '"' :: rest => skipString rest
    | '-' :: rest => skipNumber rest
    | '[' :: rest => skipItems fuel true rest
    | '\x7b' :: rest => skipMembers fuel true rest
    | c :: rest => if c.isDigit then skipNumber (c :: rest) else .error .malformed

def skipItems : Nat → Bool → List Char → Except Problem (List Char)
  | 0, _, _ => .error .malformed
  | fuel + 1, first, s =>
    match skipSpace s with
    | [] => .error .unfinished
    | ']' :: rest => .ok rest
    | c :: rest =>
      if first then (skip fuel (c :: rest)).bind (skipItems fuel false)
      else if c == ',' then
        match skipSpace rest with
        | ']' :: _ => .error .malformed
        | item => (skip fuel item).bind (skipItems fuel false)
      else .error .malformed

def skipMembers : Nat → Bool → List Char → Except Problem (List Char)
  | 0, _, _ => .error .malformed
  | fuel + 1, first, s =>
    match skipSpace s with
    | [] => .error .unfinished
    | '\x7d' :: rest => .ok rest
    | c :: rest =>
      let key := if first then c :: rest else skipSpace rest
      if !first && c != ',' then .error .malformed
      else match key with
        | [] => .error .unfinished
        | '"' :: body => do
          let after ← colon (← skipString body)
          let after ← skip fuel after
          skipMembers fuel false after
        | _ => .error .malformed

end

/-- How many steps it can take to pass over a text. -/
def steps (s : List Char) : Nat := 2 * s.length + 2

def skipValue (s : List Char) : Except Problem (List Char) := skip (steps s) s

/-- What stands for a value of the wrong type: the value is read first where that can fail. -/
def wrongType (expected : String) (s : List Char) : Problem :=
  let mismatch (f : Found) : Problem := .mismatch none (.wrongType f expected)
  let after {α : Type} (r : Except Problem α) (f : α → Found) : Problem :=
    match r with
    | .ok a => mismatch (f a)
    | .error e => e
  match skipSpace s with
  | [] => .unfinished
  | 'n' :: rest => after (word ['u', 'l', 'l'] rest) fun _ => .absent "null"
  | 't' :: rest => after (word ['r', 'u', 'e'] rest) fun _ => .bool true
  | 'f' :: rest => after (word ['a', 'l', 's', 'e'] rest) fun _ => .bool false
  | '"' :: rest => after (stringBody rest) fun r => .string (String.ofList r.1)
  | '-' :: rest => after (number true rest) fun r => r.1.found
  | '[' :: _ => mismatch .sequence
  | '\x7b' :: _ => mismatch .map
  | c :: rest =>
    if c.isDigit then after (number false (c :: rest)) fun r => r.1.found else .malformed

/-- A value of no known shape, nested less deep than `depth`. -/
def content : Nat → List Char → Except Problem (Content × List Char)
  | 0, _ => .error .malformed
  | depth + 1, s =>
    match skipSpace s with
    | [] => .error .unfinished
    | 'n' :: rest => (word ['u', 'l', 'l'] rest).map (.leaf (.absent "null"), ·)
    | 't' :: rest => (word ['r', 'u', 'e'] rest).map (.leaf (.bool true), ·)
    | 'f' :: rest => (word ['a', 'l', 's', 'e'] rest).map (.leaf (.bool false), ·)
    | '"' :: rest => (stringBody rest).map fun r => (.text (String.ofList r.1), r.2)
    | '-' :: rest => (number true rest).map fun r => (.leaf r.1.found, r.2)
    | '[' :: rest =>
      if depth == 0 then .error .malformed
      else (allItems (content depth) (steps rest) true rest).map fun r => (.list r.1, r.2)
    | '\x7b' :: rest =>
      if depth == 0 then .error .malformed
      else (allMembers (fun _ s => (colon s).bind (content depth)) (steps rest) true rest).map
        fun r => (.map (r.1.map fun m => (.text m.1, m.2)), r.2)
    | c :: rest =>
      if c.isDigit then (number false (c :: rest)).map fun r => (.leaf r.1.found, r.2)
      else .error .malformed

end HelpMiner.Document.Json
