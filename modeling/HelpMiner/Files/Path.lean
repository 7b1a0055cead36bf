import HelpMiner.Text.Basic

/-! File paths: texts with slashes, compared by their components; and what can be in the way of
using one. -/
namespace HelpMiner

/-- A path as it was written. -/
structure Path where
  text : String
  deriving DecidableEq, Repr, Inhabited

namespace Path

inductive Component where
  | root
  | here
  | up
  | name (text : String)
  deriving DecidableEq, Repr, Inhabited

def isAbsolute (p : Path) : Bool := p.text.toList.head? == some '/'

/-- The path `q` seen from `p`. -/
def join (p q : Path) : Path :=
  if q.isAbsolute then q
  else if p.text.isEmpty || p.text.toList.getLast? == some '/' then ⟨p.text ++ q.text⟩
  else ⟨p.text ++ "/" ++ q.text⟩

/-- The step that a piece between slashes stands for: none if it is empty or a dot. -/
def step? (piece : List Char) : Option Component :=
  if piece == [] || piece == ['.'] then none
  else if piece == ['.', '.'] then some .up
  else some (.name (String.ofList piece))

/-- The steps of a path. Repeated slashes and inner dots do not count. -/
def components (p : Path) : List Component :=
  let pieces := Text.cutWhere (· == '/') p.text.toList
  let steps := pieces.filterMap step?
  if p.isAbsolute then .root :: steps
  else if pieces.head? == some ['.'] then .here :: steps
  else steps

/-- Paths with the same steps. -/
def same (p q : Path) : Bool := p.components == q.components

def fileName? (p : Path) : Option String :=
  match p.components.getLast? with
  | some (.name n) => some n
  | _ => none

/-- What follows the last dot of a file name, unless the dot comes first. -/
def extension? (p : Path) : Option String :=
  match p.fileName? with
  | none => none
  | some n =>
    let back := n.toList.reverse
    let ext := back.takeWhile (· != '.')
    if ext.length + 1 < back.length then some (String.ofList ext.reverse) else none

def fileStem? (p : Path) : Option String :=
  match p.fileName?, p.extension? with
  | some n, some ext => some (String.ofList (n.toList.take (n.length - ext.length - 1)))
  | n, none => n
  | none, some _ => none

/-- The text between pieces is a slash. -/
def ofPieces (pieces : List (List Char)) : Path := ⟨String.ofList (List.intercalate ['/'] pieces)⟩

/-- The path without its last step. The root and the empty path have none. -/
def parent? (p : Path) : Option Path :=
  match Text.cutWhere (· == '/') p.text.toList with
  | [] => none
  | first :: rest =>
    match rest.reverse.dropWhile fun piece => (step? piece).isNone with
    | [] => if first.isEmpty then none else some ⟨""⟩
    | _ :: before =>
      match (before.dropWhile fun piece => (step? piece).isNone).reverse with
      | [] => some (if first.isEmpty then ⟨"/"⟩ else ofPieces [first])
      | kept => some (ofPieces (first :: kept))

def Component.text : Component → String
  | root => "/"
  | here => "."
  | up => ".."
  | name n => n

/-- A path with a step after it. -/
def push (p : Path) (c : Component) : Path := p.join ⟨c.text⟩

/-- The path from the root of a path seen from a directory. Two slashes at the front stay two, and
    a slash at the end stays. -/
def absolute (dir p : Path) : Path :=
  let steps := p.components
  let whole :=
    if p.isAbsolute then
      if "//".toList.isPrefixOf p.text.toList && !"///".toList.isPrefixOf p.text.toList then
        steps.tail.foldl push ⟨"//"⟩
      else steps.foldl push ⟨""⟩
    else (if steps.head? == some .here then steps.tail else steps).foldl push dir
  if p.text.toList.getLast? == some '/' then whole.join ⟨""⟩ else whole

end Path

/-- What is in the way of reading or writing a path. -/
inductive Trouble where
  | notFound
  | occupied
  | notDirectory
  | isDirectory
  | notUtf8
  | nameTooLong
  | zeroCharacter
  /-- An empty path has no path from the root. -/
  | emptyPath
  deriving DecidableEq, Repr

def Trouble.message : Trouble → String
  | notFound => "No such file or directory (os error 2)"
  | occupied => "File exists (os error 17)"
  | notDirectory => "Not a directory (os error 20)"
  | isDirectory => "Is a directory (os error 21)"
  | notUtf8 => "stream did not contain valid UTF-8"
  | nameTooLong => "File name too long (os error 36)"
  | zeroCharacter => "file name contained an unexpected NUL byte"
  | emptyPath => "cannot make an empty path absolute"

end HelpMiner
