import HelpMiner.Files.Path
import HelpMiner.Table.Sorted

/-! Files and directories as a map from places to what is there, and the lookup of paths. -/
namespace HelpMiner

/-- A place: the names on the way from the root. -/
abbrev Place := List String

inductive FileNode where
  | file (bytes : ByteArray)
  | dir

namespace FileNode

def isFile : FileNode → Bool
  | file _ => true
  | dir => false

end FileNode

/-- Files and directories, with the directory that relative paths are seen from. -/
structure FileTree where
  current : Place
  /-- What is there, the root apart. -/
  nodes : List (Place × FileNode)

namespace FileTree

/-- The directory that relative paths are seen from. -/
def currentPath (t : FileTree) : Path := ⟨"/" ++ "/".intercalate t.current⟩

/-- What is at a place. The root is a directory. -/
def at? (t : FileTree) (place : Place) : Option FileNode :=
  if place = [] then some .dir else t.nodes.lookup place

def without (t : FileTree) (p : Place → Bool) : FileTree :=
  { t with nodes := t.nodes.filter fun n => !p n.1 }

/-- Put something at a place, instead of what is there. -/
def put (t : FileTree) (place : Place) (node : FileNode) : FileTree :=
  { t.without (· == place) with nodes := (place, node) :: (t.without (· == place)).nodes }

/-- The most bytes of a name. -/
def maxName : Nat := 255

/-- The most bytes of a path. -/
def maxPath : Nat := 4095

/-- Go from a directory along one piece of a path. -/
def follow (t : FileTree) (place : Place) (piece : List Char) : Except Trouble Place :=
  match t.at? place with
  | none => .error .notFound
  | some (.file _) => .error .notDirectory
  | some .dir =>
    match Path.step? piece with
    | none | some .root | some .here => .ok place
    -- The root is above itself.
    | some .up => .ok place.dropLast
    | some (.name n) => if maxName < n.utf8ByteSize then .error .nameTooLong else .ok (place ++ [n])

/-- Where a path starts. -/
def start (t : FileTree) (p : Path) : Place := if p.isAbsolute then [] else t.current

/-- The pieces of a path between slashes. -/
def piecesOf (p : Path) : Except Trouble (List (List Char)) :=
  if p.text.isEmpty then .error .notFound
  else if p.text.toList.contains '\x00' then .error .zeroCharacter
  else if maxPath < p.text.utf8ByteSize then .error .nameTooLong
  else .ok (Text.cutWhere (· == '/') p.text.toList)

/-- The place that a path leads to. All but its last step are there. -/
def locate (t : FileTree) (p : Path) : Except Trouble Place := do
  (← piecesOf p).foldlM t.follow (t.start p)

def find (t : FileTree) (p : Path) : Except Trouble FileNode := do
  match t.at? (← t.locate p) with
  | some node => .ok node
  | none => .error .notFound

def isFile (t : FileTree) (p : Path) : Bool :=
  match t.find p with
  | .ok (.file _) => true
  | _ => false

def isDir (t : FileTree) (p : Path) : Bool :=
  match t.find p with
  | .ok .dir => true
  | _ => false

def bytes (t : FileTree) (p : Path) : Except Trouble ByteArray := do
  match ← t.find p with
  | .file content => .ok content
  | .dir => .error .isDirectory

def text (t : FileTree) (p : Path) : Except Trouble String := do
  match String.fromUTF8? (← t.bytes p) with
  | some s => .ok s
  | none => .error .notUtf8

/-- The directory of a new file or directory, with the last piece of its path. Slashes at the end
    do not count. -/
def slot (t : FileTree) (p : Path) : Except Trouble (Place × List Char) := do
  let back := (← piecesOf p).reverse
  match back.dropWhile List.isEmpty with
  | last :: before => .ok (← before.reverse.foldlM t.follow (t.start p), last)
  | [] => .ok ([], [])

def write (t : FileTree) (p : Path) (content : ByteArray) : Except Trouble FileTree := do
  let (dir, last) ← t.slot p
  let place ← t.follow dir last
  -- A dot, two dots and a slash at the end lead to directories only.
  if place == dir || place == dir.dropLast || p.text.toList.getLast? == some '/' then
    .error .isDirectory
  else match t.at? place with
    | some .dir => .error .isDirectory
    | _ => .ok (t.put place (.file content))

def makeDir (t : FileTree) (p : Path) : Except Trouble FileTree := do
  let (dir, last) ← t.slot p
  let place ← t.follow dir last
  match t.at? place with
  | some _ => .error .occupied
  | none => .ok (t.put place .dir)

def removeFile (t : FileTree) (p : Path) : Except Trouble FileTree := do
  let place ← t.locate p
  match t.at? place with
  | some (.file _) => .ok (t.without (· == place))
  | some .dir => .error .isDirectory
  | none => .error .notFound

def children (t : FileTree) (dir : Place) : SortedTable FileNode :=
  .ofList (t.nodes.filterMap fun n =>
    match n.1.getLast? with
    | some name => if n.1.dropLast == dir then some (name, n.2) else none
    | none => none)

/-- The names in a directory with what they stand for, ascending. -/
def list (t : FileTree) (p : Path) : Except Trouble (SortedTable FileNode) := do
  let place ← t.locate p
  match t.at? place with
  | some .dir => .ok (t.children place)
  | some (.file _) => .error .notDirectory
  | none => .error .notFound

/-- Whether a place comes no later than another: names by their code points, and a directory in
    front of what it holds. -/
def notAfter : Place → Place → Bool
  | [], _ => true
  | _ :: _, [] => false
  | a :: as, b :: bs => a < b || (a == b && notAfter as bs)

/-- The paths of all files at or under a path, directory by directory, names ascending. -/
def filesUnder (t : FileTree) (p : Path) : List Path :=
  match t.locate p with
  | .error _ => []
  | .ok root =>
    let places := (t.nodes.filter fun n => n.2.isFile && root.isPrefixOf n.1).map (·.1)
    (places.mergeSort notAfter).map fun place =>
      (place.drop root.length).foldl (fun q name => q.join ⟨name⟩) p

end FileTree

end HelpMiner
