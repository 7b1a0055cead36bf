import HelpMiner.Archive.Search
import HelpMiner.Archive.Unpack
import HelpMiner.Contents.Index
import HelpMiner.Page.Topic
import HelpMiner.Render.Topic

/-! What an archive holds: its topics, in the order of the table of contents. -/
namespace HelpMiner.Build

structure Extraction where
  helpFile : Path
  decompile : Archive.Outcome
  contentsFile : Path
  index : TopicIndex
  docs : Docs
  /-- Topics without a heading, which are dropped. -/
  withoutHeadings : List String
  deriving DecidableEq

/-- The documentation of the pages that have headings, and the names of the others. -/
def sortPages (pages : List (String × Topic)) : Docs × List String :=
  (.ofList ((pages.filter fun e => e.2.keep).map fun e => (e.1, e.2.doc)),
    (pages.filter fun e => !e.2.keep).map (·.1))

def readPages (index : TopicIndex) : Action (List (String × Topic)) :=
  index.topics.entries.mapM fun e => do return (e.1, ← Topic.load e.1 e.2)

/-- Find and unpack the archive, and read its table of contents and its topics. -/
def extract (env : Environment) (c : Config) : Action Extraction := do
  let helpFile ← Archive.locate env c
  let decompile ← Archive.unpack env c helpFile
  let contentsFile ← Contents.locate c.htmlPath c.contentsSuffix
  let index := TopicIndex.ofEntries c.htmlPath (← Contents.load contentsFile c.layout)
  let (docs, withoutHeadings) := sortPages (← readPages index)
  return { helpFile, decompile, contentsFile, index, docs, withoutHeadings }

end HelpMiner.Build
