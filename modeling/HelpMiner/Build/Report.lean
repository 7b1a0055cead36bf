import HelpMiner.Archive.Outcome
import HelpMiner.Command.Document
import HelpMiner.Config.Document

/-! The report of a build. -/
namespace HelpMiner.Build

open Document (Value Shape Fields Missing)

/-- How many commands there are of each kind, for the kinds that are counted. -/
structure KindCounts where
  functions : Option Nat
  subroutines : Option Nat
  datastructs : Option Nat
  unknowns : Option Nat
  deriving DecidableEq, Repr, Inhabited

namespace KindCounts

def get? (n : KindCounts) : Kind → Option Nat
  | .function => n.functions
  | .subroutine => n.subroutines
  | .datastruct => n.datastructs
  | .unknown => n.unknowns

def ofFunction (f : Kind → Option Nat) : KindCounts :=
  ⟨f .function, f .subroutine, f .datastruct, f .unknown⟩

def toList (n : KindCounts) : List (Kind × Nat) :=
  Kind.all.filterMap fun k => (n.get? k).map fun m => (k, m)

def ofSchema (s : Schema) : KindCounts := ofFunction fun k => some (s.namesOfKind k).length

def toValue (n : KindCounts) : Value := .map (n.toList.map fun e => (e.1.name, .nat e.2))

/-- The number of a kind in a list that may have kinds more than once: the last one. -/
def lastOf (counts : List (Kind × Nat)) (k : Kind) : Option Nat :=
  (counts.reverse.find? fun e => e.1 == k).map (·.2)

def count? (m : String × Value) : Option (Kind × Nat) := do
  let kind ← Kind.ofValue? (.text m.1)
  some (kind, ← m.2.nat?)

def ofValue? (v : Value) : Option KindCounts := do
  let counts ← (← v.members?).mapM count?
  some (ofFunction (lastOf counts))

end KindCounts

/-- What a build tells of itself. -/
structure Report where
  generatedAt : String
  helpFile : Option Path
  decompile : Archive.Outcome
  contentsFile : Option Path
  topicsIndexed : Nat
  topicsKept : Nat
  withoutHeadings : List String
  bypassed : List String
  kindCounts : KindCounts
  uncertain : List String
  droppedLines : Nat
  overridesApplied : Nat
  warnings : List String
  digest : String
  artifacts : List Path
  deriving DecidableEq

namespace Report

def toValue (r : Report) : Value := .map [
  ("generated_at", .text r.generatedAt),
  ("help_file", Path.optionValue r.helpFile),
  ("decompile", r.decompile.toValue),
  ("toc_file", Path.optionValue r.contentsFile),
  ("topics_indexed", .nat r.topicsIndexed),
  ("topics_kept", .nat r.topicsKept),
  ("topics_without_headings", .texts r.withoutHeadings),
  ("bypassed", .texts r.bypassed),
  ("kind_counts", r.kindCounts.toValue),
  ("low_confidence", .texts r.uncertain),
  ("dropped_lines", .nat r.droppedLines),
  ("overrides_applied", .nat r.overridesApplied),
  ("warnings", .texts r.warnings),
  ("schema_sha256", .text r.digest),
  ("artifacts", Path.listValue r.artifacts)]

def ofValue? (v : Value) : Option Report := do
  let generatedAt ← (← v.member? "generated_at").text?
  let helpFile ← (← v.member? "help_file").optional? Path.ofValue?
  let decompile ← Archive.Outcome.ofValue? (← v.member? "decompile")
  let contentsFile ← (← v.member? "toc_file").optional? Path.ofValue?
  let topicsIndexed ← (← v.member? "topics_indexed").nat?
  let topicsKept ← (← v.member? "topics_kept").nat?
  let withoutHeadings ← (← v.member? "topics_without_headings").texts?
  let bypassed ← (← v.member? "bypassed").texts?
  let kindCounts ← KindCounts.ofValue? (← v.member? "kind_counts")
  let uncertain ← (← v.member? "low_confidence").texts?
  let droppedLines ← (← v.member? "dropped_lines").nat?
  let overridesApplied ← (← v.member? "overrides_applied").nat?
  let warnings ← (← v.member? "warnings").texts?
  let digest ← (← v.member? "schema_sha256").text?
  let artifacts ← Path.list? (← v.member? "artifacts")
  some {
    generatedAt, helpFile, decompile, contentsFile, topicsIndexed, topicsKept, withoutHeadings,
    bypassed, kindCounts, uncertain, droppedLines, overridesApplied, warnings, digest, artifacts }

def shape : Shape := .record "BuildReport" false (Fields.ofList [
  ("generated_at", .text, .required),
  ("help_file", .optional .path, .null),
  ("decompile", Archive.Outcome.shape, .required),
  ("toc_file", .optional .path, .null),
  ("topics_indexed", .unsigned "usize", .required),
  ("topics_kept", .unsigned "usize", .required),
  ("topics_without_headings", .list .text, .required),
  ("bypassed", .list .text, .required),
  ("kind_counts", .table Kind.shape (.unsigned "usize"), .required),
  ("low_confidence", .list .text, .required),
  ("dropped_lines", .unsigned "usize", .required),
  ("overrides_applied", .unsigned "usize", .required),
  ("warnings", .list .text, .required),
  ("schema_sha256", .text, .required),
  ("artifacts", .list .path, .required)])

instance : Documented Report := ⟨shape, toValue, ofValue?⟩

end Report

end HelpMiner.Build
