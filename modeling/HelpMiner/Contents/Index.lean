import HelpMiner.Contents.Reader
import HelpMiner.Files.Action
import HelpMiner.Table.Ordered

/-! The table of contents among the pages, and the pages of the commands in it. -/
namespace HelpMiner

namespace Contents

def endsWith (suffix name : String) : Bool :=
  Text.startsWithLetters suffix.toList.reverse name.toList.reverse

/-- The names of the files in a directory that end with a text, ascending. -/
def candidates (suffix : String) (nodes : SortedTable FileNode) : List String :=
  (nodes.entries.filter fun n => n.2.isFile && endsWith suffix n.1).map (·.1)

/-- The first file in a directory whose name ends with a text. -/
def locate (dir : Path) (suffix : String) : Action Path := do
  match (← get).list dir with
  | .error .notFound => throw (.contentsNotFound dir suffix)
  | .error why => throw (.io dir why)
  | .ok nodes =>
    match candidates suffix nodes with
    | [] => throw (.contentsNotFound dir suffix)
    | name :: _ => return dir.join ⟨name⟩

def load (p : Path) (layout : Layout) : Action (List ContentsEntry) := do
  return parse layout (← Action.readText p)

end Contents

/-- Page paths by command name, in order of first appearance. -/
structure TopicIndex where
  topics : OrderedTable Path
  /-- Names that are no command names, in order. -/
  bypassed : List String
  deriving DecidableEq

namespace TopicIndex

/-- A target without its anchor, with slashes only, and relative. -/
def localPath (target : String) : Path :=
  let file := target.toList.takeWhile (· != '#')
  ⟨String.ofList ((file.map fun c => if c == '\\' then '/' else c).dropWhile (· == '/'))⟩

def empty : TopicIndex := ⟨.empty, []⟩

/-- Take one entry: commands are indexed, other names are passed by. -/
def add (dir : Path) (index : TopicIndex) (e : ContentsEntry) : TopicIndex :=
  if isCommandName e.name then
    { index with topics := index.topics.insert e.name (dir.join (localPath e.target)) }
  else { index with bypassed := index.bypassed ++ [e.name] }

/-- The index of a table of contents whose pages are under `dir`. -/
def ofEntries (dir : Path) (es : List ContentsEntry) : TopicIndex := es.foldl (add dir) empty

end TopicIndex

end HelpMiner
