import HelpMiner.Files.Tree

/-! What changes between two states of some files. -/
namespace HelpMiner.FileTree

/-- The path of a place that is seen from another. -/
def pathFrom (root place : Place) : String := "/".intercalate (place.drop root.length)

/-- The files under a place, by their paths seen from it. -/
def filesFrom (t : FileTree) (root : Place) : SortedTable ByteArray :=
  .ofList (t.nodes.filterMap fun n =>
    match n.2 with
    | .file bytes => if root.isPrefixOf n.1 then some (pathFrom root n.1, bytes) else none
    | .dir => none)

def changed (before after : SortedTable ByteArray) : List (String × ByteArray) :=
  after.entries.filter fun e => before.get? e.1 != some e.2

def gone (before after : SortedTable ByteArray) : List String :=
  before.keys.filter fun name => !after.contains name

end HelpMiner.FileTree
