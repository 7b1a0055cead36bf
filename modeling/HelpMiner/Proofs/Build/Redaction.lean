import HelpMiner.Build.Basic
import HelpMiner.Proofs.Build.Draft

/-! A build that is given out tells no more of the documentation than the sections that tell the
interfaces of commands. -/
namespace HelpMiner.Build

open Signature (Inference infer SameInterface)

/-- Documentation of the same commands that tells the same interfaces. -/
structure SameInterfaces (docs others : Docs) : Prop where
  names : docs.keys = others.keys
  interface : ∀ name doc other, docs.get? name = some doc → others.get? name = some other →
    SameInterface doc other

/-- What is read of a command, without its description. -/
def undescribed (i : Inference) : Inference :=
  { i with entry := { i.entry with description := "" } }

/-- What is read of all commands, without their descriptions. -/
def interfaces (c : Config) (docs : Docs) : SortedTable Inference :=
  docs.mapValues fun name doc => undescribed (infer name doc c.nameLimit)

theorem interfaces_congr {docs others : Docs} (h : SameInterfaces docs others) (c : Config) :
    interfaces c docs = interfaces c others := by
  apply SortedTable.ext_get?
  intro name
  unfold interfaces
  rw [SortedTable.get?_mapValues, SortedTable.get?_mapValues]
  by_cases hk : name ∈ docs.keys
  · obtain ⟨doc, hd⟩ := SortedTable.mem_keys_iff.1 hk
    obtain ⟨other, ho⟩ := SortedTable.mem_keys_iff.1 (h.names ▸ hk)
    rw [hd, ho, Option.map_some, Option.map_some,
      Signature.infer_congr (h.interface name doc other hd ho)]
    rfl
  · have hno : name ∉ others.keys := h.names ▸ hk
    rw [SortedTable.get?_eq_none_iff.2 hk, SortedTable.get?_eq_none_iff.2 hno]

/-! ## A draft that is given out -/

section Draft

variable {c : Config} (hc : c.distributable = true) (docs : Docs)

include hc in
theorem schema_eq : (Draft.ofDocs c docs).schema = (interfaces c docs).mapValues (entryOf c) := by
  simp [Draft.ofDocs, inferAll, interfaces, undescribed, entryOf, hc]

include hc in
theorem publishedDocs_eq : publishedDocs c (Draft.ofDocs c docs).docs =
    (interfaces c docs).mapValues fun _ _ => redacted := by
  simp [publishedDocs, Draft.ofDocs, inferAll, interfaces, hc]

theorem uncertain_eq : (Draft.ofDocs c docs).uncertain =
    ((interfaces c docs).entries.filter fun e => e.2.isUncertain).map (·.1) := by
  simp [Draft.ofDocs, inferAll, interfaces, SortedTable.mapValues, List.filter_map,
    Function.comp_def, undescribed, Inference.isUncertain]

theorem dropped_eq : (Draft.ofDocs c docs).dropped =
    (interfaces c docs).entries.foldl (fun n e => n + e.2.dropped.length) 0 := by
  simp [Draft.ofDocs, inferAll, interfaces, SortedTable.mapValues, List.foldl_map, undescribed]

end Draft

/-! ## A build that is given out -/

/-- What a build shows of the commands: its schemas, its documentation, the texts of all files but
the report, and what the report tells of the commands. -/
structure Shown where
  rawSchema : Schema
  schema : Schema
  docs : Docs
  texts : List String
  kindCounts : KindCounts
  uncertain : List String
  droppedLines : Nat
  issues : List String

/-- What a build shows of the commands. -/
def shown (c : Config) (b : Build) : Shown where
  rawSchema := b.rawSchema
  schema := b.schema
  docs := b.docs
  texts := (artifactTexts c b).dropLast
  kindCounts := b.report.kindCounts
  uncertain := b.report.uncertain
  droppedLines := b.report.droppedLines
  issues := (b.schema.check c.nameLimit).map Issue.message

theorem dropLast_artifactTexts (c : Config) (b : Build) : (artifactTexts c b).dropLast =
    [c.format.render b.rawSchema, c.format.render b.schema, c.format.render b.docs,
        Render.topics b.docs.keys b.docs] ++
      Kind.all.map fun k => Render.topics (b.schema.namesOfKind k) b.docs :=
  List.dropLast_concat

section Build

variable {c : Config} (hc : c.distributable = true) {x y : Extraction}
  (h : SameInterfaces x.docs y.docs)
include hc h

theorem ofExtraction_congr (now : String) (table : OverrideTable) :
    ofExtraction c now table { x with docs := y.docs } = ofExtraction c now table x := by
  unfold ofExtraction
  simp only [schema_eq hc, publishedDocs_eq hc, uncertain_eq, dropped_eq, interfaces_congr h]

theorem shown_congr (now later : String) (table : OverrideTable) :
    (ofExtraction c now table x).map (shown c) = (ofExtraction c later table y).map (shown c) := by
  unfold ofExtraction
  simp only [schema_eq hc, publishedDocs_eq hc, uncertain_eq, dropped_eq, interfaces_congr h]
  cases table.apply ((interfaces c y.docs).mapValues (entryOf c)) with
  | error e => rfl
  | ok applied =>
    refine congrArg Except.ok ?_
    simp only [shown, dropLast_artifactTexts]

/-- Where documentation is left out of the results, two builds of commands with the same interfaces
show the same of them, or fail alike, whatever else their documentation says. If nothing else is
different, the builds are the same, and so is what they write. -/
theorem redacted_build_same :
    (∀ now later table, (ofExtraction c now table x).map (shown c) =
      (ofExtraction c later table y).map (shown c)) ∧
    (∀ now table, ofExtraction c now table { x with docs := y.docs } =
      ofExtraction c now table x) ∧
    ∀ env, finish env c { x with docs := y.docs } = finish env c x := by
  refine ⟨shown_congr hc h, ofExtraction_congr hc h, fun env => ?_⟩
  unfold finish
  simp only [ofExtraction_congr hc h]

end Build

/-- An archive with this documentation. -/
def fillExtraction (docs : Docs) : Extraction where
  helpFile := ⟨"Fred.chm"⟩
  decompile := .skipped
  contentsFile := ⟨"html/Fred.hhc"⟩
  index := .empty
  docs := docs
  withoutHeadings := []

/-- The documentation of the same interface with other prose, in another order. -/
def describedDoc : Doc :=
  ⟨[("Description", "Fills it."), ("Parameters", "n As Long\nbyVAL as( T_Row )\nNo. 3"),
    ("See Also", "Close"), ("Syntax", "n = Fill(as)")], by decide⟩

/-- Documentation of one command, with a description. -/
def describedDocs : Docs := ⟨[("Fill", describedDoc)], List.pairwise_singleton _ _⟩

theorem sameInterfaces_describedDocs : SameInterfaces fillDocs describedDocs where
  names := rfl
  interface := by
    intro name doc other hd ho
    obtain ⟨-, rfl⟩ := Prod.mk.inj (List.mem_singleton.1 (SortedTable.mem_of_get? hd))
    obtain ⟨-, rfl⟩ := Prod.mk.inj (List.mem_singleton.1 (SortedTable.mem_of_get? ho))
    unfold SameInterface
    decide

/-- A description and another order of the sections leave no trace. -/
theorem redacted_build_same_fill :
    SameInterfaces fillDocs describedDocs ∧
    ofExtraction { Config.default with distributable := true } "now" .empty
        (fillExtraction describedDocs) =
      ofExtraction { Config.default with distributable := true } "now" .empty
        (fillExtraction fillDocs) :=
  ⟨sameInterfaces_describedDocs,
    (redacted_build_same (c := { Config.default with distributable := true }) rfl
      (x := fillExtraction fillDocs) (y := fillExtraction describedDocs)
      sameInterfaces_describedDocs).2.1 "now" .empty⟩

end HelpMiner.Build
