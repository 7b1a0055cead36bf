import HelpMiner.Config.Basic
import HelpMiner.Render.Topic
import HelpMiner.Signature.Inference

/-! The schema as the documentation alone tells it. -/
namespace HelpMiner.Build

open Signature (Inference)

/-- What is read from the documentation of all commands. -/
structure Draft where
  schema : Schema
  /-- The documentation, with the return bindings of functions. -/
  docs : Docs
  /-- Commands whose parameters come from free text, ascending. -/
  uncertain : List String
  /-- How many lines are no declarations. -/
  dropped : Nat
  deriving DecidableEq

def returnsHeading : String := "Returns"

/-- The description that stands for a vendor's own. -/
def neutralDescription (name : String) : String := "Wrapper stub for " ++ name

/-- The documentation that stands for a vendor's own. -/
def redacted : Doc := OrderedTable.empty.insert "Documentation" "Not Available"

/-- The entry of a command as a build records it. -/
def entryOf (c : Config) (name : String) (i : Inference) : Entry :=
  if c.distributable then { i.entry with description := neutralDescription name } else i.entry

/-- Documentation with the return binding, if the command is a function with parameters to read. -/
def withReturns (i : Inference) (doc : Doc) : Doc :=
  if i.entry.kind == .function && i.source.isSome then
    doc.insert returnsHeading i.entry.returnsDeclaration
  else doc

def inferAll (c : Config) (docs : Docs) : SortedTable (Doc × Inference) :=
  docs.mapValues fun name doc => (doc, Signature.infer name doc c.nameLimit)

def Draft.ofDocs (c : Config) (docs : Docs) : Draft :=
  let read := inferAll c docs
  { schema := read.mapValues fun name r => entryOf c name r.2
    docs := read.mapValues fun _ r => withReturns r.2 r.1
    uncertain := (read.entries.filter fun e => e.2.2.isUncertain).map (·.1)
    dropped := read.entries.foldl (fun n e => n + e.2.2.dropped.length) 0 }

end HelpMiner.Build
