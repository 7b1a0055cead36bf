import HelpMiner.Build.Draft
import HelpMiner.Build.Extraction
import HelpMiner.Build.Report
import HelpMiner.Digest.Sha256
import HelpMiner.Override.Table

/-! A build: everything that follows from the documentation, the settings and the overrides, and
its files. Nothing is written before the override table is read and applied. -/
namespace HelpMiner

structure Build where
  rawSchema : Schema
  schema : Schema
  docs : Docs
  report : Build.Report
  deriving DecidableEq

namespace Build

/-- The documentation that a build gives out. -/
def publishedDocs (c : Config) (docs : Docs) : Docs :=
  if c.distributable then docs.mapValues fun _ _ => redacted else docs

/-- What is worth a look after a build: a failure to unpack, and the issues of the schema. -/
def warnings (c : Config) (outcome : Archive.Outcome) (s : Schema) : List String :=
  (match outcome with
    | .failed reason => ["decompiler: " ++ reason]
    | _ => []) ++ (s.check c.nameLimit).map Issue.message

def artifactPaths (c : Config) : List Path :=
  [c.rawApiPath, c.apiPath, c.docPath, c.renderingPath allTopicsStem] ++
    Kind.all.map (fun k => c.renderingPath k.renderingStem) ++ [c.reportPath]

def ofExtraction (c : Config) (now : String) (table : OverrideTable) (x : Extraction) :
    Except Error Build := do
  let draft := Draft.ofDocs c x.docs
  let (schema, applied) ← table.apply draft.schema
  let docs := publishedDocs c draft.docs
  return {
    rawSchema := draft.schema
    schema := schema
    docs := docs
    report := {
      generatedAt := now
      helpFile := some x.helpFile
      decompile := x.decompile
      contentsFile := some x.contentsFile
      topicsIndexed := x.index.topics.size
      topicsKept := docs.size
      withoutHeadings := x.withoutHeadings
      bypassed := x.index.bypassed
      kindCounts := .ofSchema schema
      uncertain := draft.uncertain
      droppedLines := draft.dropped
      overridesApplied := applied
      warnings := warnings c x.decompile schema
      digest := Digest.hexDigest (c.format.render schema)
      artifacts := artifactPaths c } }

def artifactTexts (c : Config) (b : Build) : List String :=
  [c.format.render b.rawSchema, c.format.render b.schema, c.format.render b.docs,
      Render.topics b.docs.keys b.docs] ++
    Kind.all.map (fun k => Render.topics (b.schema.namesOfKind k) b.docs) ++
    [Format.json.render b.report]

def artifacts (c : Config) (b : Build) : List (Path × String) :=
  (artifactPaths c).zip (artifactTexts c b)

def save (c : Config) (b : Build) : Action Unit :=
  (b.artifacts c).forM fun e => Action.writeText e.1 e.2

def finish (env : Environment) (c : Config) (x : Extraction) : Action Build := do
  let table ← OverrideTable.load c.overridePath
  let b ← Action.ofExcept (ofExtraction c env.now table x)
  b.save c
  return b

def run (env : Environment) (c : Config) : Action Build := do finish env c (← extract env c)

end Build

end HelpMiner
