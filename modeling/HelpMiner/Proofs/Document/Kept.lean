import HelpMiner.Build.Report
import HelpMiner.Contents.Document
import HelpMiner.Override.Table
import HelpMiner.Page.Section
import HelpMiner.Proofs.Document.Stored
import HelpMiner.Proofs.Table.Ordered
import HelpMiner.Proofs.Table.Sorted

/-! The types that are kept in documents: each of their values has its shape, and what is read of
it stands for it. -/
namespace HelpMiner

open Document (Value Shape Stored Filled)

/-- A value that is kept by every format that reads what has the shape of its type. -/
def Document.Kept {α : Type} [Documented α] (n : Nat) (a : α) : Prop :=
  ∃ w, Stored n (Documented.shape α) (Documented.toValue a) w ∧ Documented.ofValue? w = some a

open Document (Kept)

/-! ## Lists and tables -/

theorem mapM_map_eq_some {α β : Type} {f : α → β} {g : β → Option α} {as : List α}
    (h : ∀ a ∈ as, g (f a) = some a) : (as.map f).mapM g = some as := by
  induction as with
  | nil => rfl
  | cons a as ih =>
    rw [List.forall_mem_cons] at h
    rw [List.map_cons, List.mapM_cons, h.1, ih h.2]
    rfl

namespace Document

theorem Stored.listOf {α : Type} {n : Nat} {item : Shape} {f g : α → Value} {as : List α}
    (h : ∀ a ∈ as, Stored n item (f a) (g a)) :
    Stored (n + 1) (.list item) (.list (as.map f)) (.list (as.map g)) := by
  have hlist := @Stored.list n item (as.map fun a => (f a, g a)) (by
    intro p hp
    obtain ⟨a, ha, rfl⟩ := List.mem_map.1 hp
    exact h a ha)
  rwa [List.map_map, List.map_map] at hlist

theorem Stored.tableOf {α : Type} {n : Nat} {key value : Shape} {k : α → String} {f g : α → Value}
    {as : List α} (hk : ∀ a ∈ as, key.HasKey (k a)) (h : ∀ a ∈ as, Stored n value (f a) (g a)) :
    Stored (n + 1) (.table key value) (.map (as.map fun a => (k a, f a)))
      (.map (as.map fun a => (k a, g a))) := by
  have htable := @Stored.table n key value (as.map fun a => (k a, f a, g a)) (by
    intro p hp
    obtain ⟨a, ha, rfl⟩ := List.mem_map.1 hp
    exact hk a ha) (by
    intro p hp
    obtain ⟨a, ha, rfl⟩ := List.mem_map.1 hp
    exact h a ha)
  rwa [List.map_map, List.map_map] at htable

/-- A way to write something as a value of a shape, which is never null, and to read it back. -/
structure Encodes {α : Type} (n : Nat) (shape : Shape) (toValue : α → Value)
    (read : Value → Option α) : Prop where
  ne_null : ∀ a, toValue a ≠ .null
  stored : ∀ a, Stored n shape (toValue a) (toValue a)
  read_toValue : ∀ a, read (toValue a) = some a

namespace Encodes

theorem text {n : Nat} : Encodes n .text .text Value.text? :=
  ⟨fun _ => Value.noConfusion, fun s => .text s, fun _ => rfl⟩

theorem texts {n : Nat} : Encodes (n + 1) (.list .text) .texts Value.texts? where
  ne_null _ := Value.noConfusion
  stored _ := .listOf fun s _ => .text s
  read_toValue _ := mapM_map_eq_some fun _ _ => rfl

variable {α : Type} {n : Nat} {shape : Shape} {toValue : α → Value} {read : Value → Option α}

/-- What is written for something, or null. -/
theorem stored_optional (h : Encodes n shape toValue read) (part : Option α) :
    Stored n (.optional shape) (part.elim .null toValue) (part.elim .null toValue) := by
  cases part with
  | none => exact .absent
  | some a => exact .present (h.ne_null a) (h.stored a)

theorem optional?_elim (h : Encodes n shape toValue read) (part : Option α) :
    (part.elim .null toValue).optional? read = some part := by
  cases part with
  | none => rfl
  | some a =>
    have hne := h.ne_null a
    have hread := h.read_toValue a
    rw [Option.elim_some]
    unfold Value.optional?
    split
    · contradiction
    · rw [hread]
      rfl

end Encodes

end Document

open Document (Encodes)

/-- A table is kept if its values are. -/
theorem SortedTable.kept {α : Type} [Documented α] {n : Nat} (h : ∀ a : α, Kept n a)
    (t : SortedTable α) : Kept (n + 1) t := by
  choose w hstored hvalue using h
  refine ⟨.map (t.entries.map fun e => (e.1, w e.2)), ?_, ?_⟩
  · exact .tableOf (fun _ _ => trivial) fun e _ => hstored e.2
  · have hentries : (t.entries.map fun e => (e.1, w e.2)).mapM
        (fun m => (Documented.ofValue? m.2).map fun a => (m.1, a)) = some t.entries :=
      mapM_map_eq_some fun e _ => by simp only [hvalue, Option.map_some]
    simp only [Documented.ofValue?, Value.table?, Value.members?, Option.bind_eq_bind,
      Option.bind_some, hentries, SortedTable.ofList_entries]

/-- The sections of a documentation are kept in their order. -/
theorem Doc.kept (doc : Doc) : Kept 0 doc := by
  refine ⟨.map (doc.entries.map fun e => (e.1, .text e.2)), .sections _, ?_⟩
  have hentries : (doc.entries.map fun e => (e.1, Value.text e.2)).mapM
      (fun m => m.2.text?.map fun s => (m.1, s)) = some doc.entries :=
    mapM_map_eq_some fun _ _ => rfl
  simp only [Documented.ofValue?, Value.members?, Option.bind_eq_bind, Option.bind_some, hentries,
    OrderedTable.ofList_entries]

/-! ## Entries and patches -/

theorem Kind.encodes {n : Nat} : Encodes n Kind.shape Kind.toValue Kind.ofValue? where
  ne_null _ := Value.noConfusion
  stored k := .choice (by cases k <;> decide)
  read_toValue k := by cases k <;> rfl

theorem Param.encodes_list {n : Nat} :
    Encodes (n + 1) (.list .textPair) Param.listValue Param.list? where
  ne_null _ := Value.noConfusion
  stored _ := .listOf fun p _ => .textPair p.name p.type
  read_toValue _ := mapM_map_eq_some fun _ _ => rfl

/-- The fields of an entry. -/
def Entry.filled (e : Entry) : List Filled := [
  .required "descr" .text (.text e.description) (.text e.description),
  .required "sig" (.list .textPair) (Param.listValue e.params) (Param.listValue e.params),
  .required "returns" (.list .text) (.texts e.returns) (.texts e.returns),
  .required "cmdtype" Kind.shape e.kind.toValue e.kind.toValue]

theorem Entry.kept (e : Entry) : Kept 2 e := by
  refine ⟨Documented.toValue e, ?_, ?_⟩
  · refine @Stored.record 1 "CommandEntry" false e.filled ?_ ?_ ?_
    · show ["descr", "sig", "returns", "cmdtype"].Nodup
      decide
    · simp [Entry.filled, Filled.required, Encodes.text.stored, Param.encodes_list.stored,
        Encodes.texts.stored, Kind.encodes.stored]
    · simp [Entry.filled, Filled.required, Filled.OmittedRight]
  · simp [Documented.ofValue?, Documented.toValue, Value.member?, Value.members?, Value.text?,
      (Param.encodes_list (n := 0)).read_toValue, (Encodes.texts (n := 0)).read_toValue,
      (Kind.encodes (n := 0)).read_toValue]

/-- A field of a patch, which is left out if it replaces nothing. -/
def Patch.replaced {α : Type} (name : String) (shape : Shape) (toValue : α → Value)
    (part : Option α) : Filled :=
  ⟨name, .optional shape, .default .null, part.map toValue, part.elim .null toValue⟩

theorem Patch.replaced_omittedRight {α : Type} (name : String) (shape : Shape)
    (toValue : α → Value) (part : Option α) :
    (replaced name shape toValue part).OmittedRight := by
  intro h
  cases part with
  | none => exact Or.inl rfl
  | some a => cases h

theorem Patch.stored_replaced {α : Type} {n : Nat} {shape : Shape} {toValue : α → Value}
    {read : Value → Option α} (h : Encodes n shape toValue read) {name : String}
    {part : Option α} (v : Value) (hv : (replaced name shape toValue part).written = some v) :
    Stored n (replaced name shape toValue part).shape v
      (replaced name shape toValue part).result := by
  cases part with
  | none => cases hv
  | some a =>
    cases hv
    exact h.stored_optional (some a)

/-- The fields of a patch. -/
def Patch.filled (p : Patch) : List Filled := [
  replaced "descr" .text .text p.description,
  replaced "sig" (.list .textPair) Param.listValue p.params,
  replaced "returns" (.list .text) .texts p.returns,
  replaced "cmdtype" Kind.shape Kind.toValue p.kind]

theorem Patch.members_filled (p : Patch) : Filled.members p.filled = p.members := by
  obtain ⟨description, params, returns, kind⟩ := p
  cases description <;> cases params <;> cases returns <;> cases kind <;> rfl

theorem Patch.kept (p : Patch) : Kept 2 p := by
  refine ⟨.map (Filled.results p.filled), ?_, ?_⟩
  · have hvalue : Documented.toValue p = .map (Filled.members p.filled) :=
      congrArg Value.map p.members_filled.symm
    rw [hvalue]
    refine @Stored.record 1 "CommandOverride" true p.filled ?_ ?_ ?_
    · show ["descr", "sig", "returns", "cmdtype"].Nodup
      decide
    · simp only [filled, List.forall_mem_cons]
      exact ⟨stored_replaced .text, stored_replaced Param.encodes_list, stored_replaced .texts,
        stored_replaced Kind.encodes, fun _ hf => nomatch hf⟩
    · simp [filled, replaced_omittedRight]
  · have hdescription := (Encodes.text (n := 0)).optional?_elim p.description
    have hparams := (Param.encodes_list (n := 0)).optional?_elim p.params
    have hreturns := (Encodes.texts (n := 0)).optional?_elim p.returns
    have hkind := (Kind.encodes (n := 0)).optional?_elim p.kind
    simp [Documented.ofValue?, Patch.part?, Filled.results, filled, replaced, Value.member?,
      Value.members?, hdescription, hparams, hreturns, hkind]

/-! ## Lines of a table of contents -/

/-- The fields of a line of a table of contents. -/
def ContentsEntry.filled (e : ContentsEntry) : List Filled := [
  .required "name" .text (.text e.name) (.text e.name),
  .required "local_path" .text (.text e.target) (.text e.target)]

theorem ContentsEntry.kept (e : ContentsEntry) : Kept 1 e := by
  refine ⟨Documented.toValue e, ?_, ?_⟩
  · refine @Stored.record 0 "TocEntry" false e.filled ?_ ?_ ?_
    · show ["name", "local_path"].Nodup
      decide
    · simp [filled, Filled.required, Encodes.text.stored]
    · simp [filled, Filled.required, Filled.OmittedRight]
  · simp [Documented.ofValue?, Documented.toValue, Value.member?, Value.members?, Value.text?]

/-! ## Settings -/

namespace Path

theorem encodes {n : Nat} : Encodes n .path Path.toValue Path.ofValue? :=
  ⟨fun _ => Value.noConfusion, fun p => .path p.text, fun _ => rfl⟩

theorem encodes_list {n : Nat} : Encodes (n + 1) (.list .path) Path.listValue Path.list? where
  ne_null _ := Value.noConfusion
  stored _ := .listOf fun p _ => .path p.text
  read_toValue _ := mapM_map_eq_some fun _ _ => rfl

theorem optionValue_eq_elim (p : Option Path) : optionValue p = p.elim .null toValue := by
  cases p <;> rfl

theorem stored_optionValue {n : Nat} (p : Option Path) :
    Stored n (.optional .path) (optionValue p) (optionValue p) := by
  rw [optionValue_eq_elim]
  exact encodes.stored_optional p

theorem optional?_optionValue (p : Option Path) :
    (optionValue p).optional? ofValue? = some p := by
  rw [optionValue_eq_elim]
  exact (encodes (n := 0)).optional?_elim p

end Path

theorem Contents.Layout.ofName?_name (l : Contents.Layout) : ofName? l.name = some l := by
  cases l <;> decide

theorem Contents.Layout.stored {n : Nat} (l : Contents.Layout) :
    Stored n shape (.text l.name) (.text l.name) :=
  .selector (by simp only [ofName?_name])

theorem Format.ofName?_name (f : Format) : ofName? f.name = some f := by
  cases f <;> decide

theorem Format.stored {n : Nat} (f : Format) : Stored n shape (.text f.name) (.text f.name) :=
  .selector (by simp only [ofName?_name])

/-- A field of a record that has the members of a map as defaults. -/
def Document.Filled.defaulted (defaults : Value) (name : String) (shape : Shape) (v : Value) :
    Filled :=
  ⟨name, shape, .default ((defaults.member? name).getD .null), some v, v⟩

/-- The fields of the settings of the decompiler. -/
def Decompiler.filled (d : Decompiler) : List Filled := [
  .defaulted Decompiler.default.toValue "program" .text (.text d.program),
  .defaulted Decompiler.default.toValue "args" (.list .text) (.texts d.args),
  .defaulted Decompiler.default.toValue "timeout_secs" (.unsigned "u64") (.nat d.timeoutSecs)]

theorem Decompiler.stored {d : Decompiler} (h : d.timeoutSecs < Nat.pow 2 64) :
    Stored 2 Decompiler.shape d.toValue d.toValue := by
  refine @Stored.record 1 "DecompilerConfig" false d.filled ?_ ?_ ?_
  · show ["program", "args", "timeout_secs"].Nodup
    decide
  · simp [filled, Filled.defaulted, Encodes.text.stored, Encodes.texts.stored, Stored.unsigned h]
  · simp [filled, Filled.defaulted, Filled.OmittedRight]

theorem Decompiler.ofValue?_toValue (d : Decompiler) : ofValue? d.toValue = some d := by
  simp [ofValue?, toValue, Value.member?, Value.members?, Value.text?, Value.nat?,
    (Encodes.texts (n := 0)).read_toValue]

namespace Config

/-- The numbers of the settings are below 2^64. -/
structure InRange (c : Config) : Prop where
  timeoutSecs : c.decompiler.timeoutSecs < Nat.pow 2 64
  wrapColumns : c.wrapColumns < Nat.pow 2 64
  nameLimit : c.nameLimit < Nat.pow 2 64

/-- A field of the settings. -/
def field (name : String) (shape : Shape) (v : Value) : Filled :=
  .defaulted default.toValue name shape v

/-- The fields of the settings. -/
def filled (c : Config) : List Filled := [
  field "data_dir" .path c.dataDir.toValue,
  field "html_dir" .path c.htmlDir.toValue,
  field "stub_dir" .path c.stubDir.toValue,
  field "api_file_stem" .text (.text c.apiStem),
  field "doc_file_stem" .text (.text c.docStem),
  field "override_file" .path c.overrideFile.toValue,
  field "help_file_name" .text (.text c.helpFileName),
  field "help_file" (.optional .path) (Path.optionValue c.helpFile),
  field "search_paths" (.list .path) (Path.listValue c.searchPaths),
  field "install_env_vars" (.list .text) (.texts c.installVars),
  field "vendor_dir" .text (.text c.vendorDir),
  field "decompiler" Decompiler.shape c.decompiler.toValue,
  field "toc_suffix" .text (.text c.contentsSuffix),
  field "toc_mode" Contents.Layout.shape (.text c.layout.name),
  field "stub_extension" .text (.text c.stubExtension),
  field "wrap_columns" (.unsigned "usize") (.nat c.wrapColumns),
  field "max_param_name_len" (.unsigned "usize") (.nat c.nameLimit),
  field "format" Format.shape (.text c.format.name),
  field "distributable" .bool (.bool c.distributable)]

theorem kept {c : Config} (h : c.InRange) : Kept 3 c := by
  refine ⟨c.toValue, ?_, ?_⟩
  · refine @Stored.record 2 "PipelineConfig" false c.filled ?_ ?_ ?_
    · show ["data_dir", "html_dir", "stub_dir", "api_file_stem", "doc_file_stem", "override_file",
        "help_file_name", "help_file", "search_paths", "install_env_vars", "vendor_dir",
        "decompiler", "toc_suffix", "toc_mode", "stub_extension", "wrap_columns",
        "max_param_name_len", "format", "distributable"].Nodup
      decide
    · simp [filled, field, Filled.defaulted, Path.encodes.stored, Path.encodes_list.stored,
        Path.stored_optionValue, Encodes.text.stored, Encodes.texts.stored,
        Decompiler.stored h.timeoutSecs, Contents.Layout.stored, Format.stored,
        Stored.unsigned h.wrapColumns, Stored.unsigned h.nameLimit, Stored.bool]
    · simp [filled, field, Filled.defaulted, Filled.OmittedRight]
  · simp [Documented.ofValue?, ofValue?, toValue, Value.member?, Value.members?, Value.text?,
      Value.nat?, Value.bool?, (Path.encodes (n := 0)).read_toValue,
      (Path.encodes_list (n := 0)).read_toValue, Path.optional?_optionValue,
      (Encodes.texts (n := 0)).read_toValue, Decompiler.ofValue?_toValue,
      Contents.Layout.ofName?_name, Format.ofName?_name]

end Config

/-! ## Reports -/

theorem Archive.Outcome.stored {n : Nat} (o : Archive.Outcome) :
    Stored (n + 2) shape o.toValue o.toValue := by
  cases o with
  | completed => exact @Stored.variant n _ "status" _ ⟨"completed", "Completed", none⟩ rfl rfl
  | failed reason =>
    exact @Stored.variantWith n _ "status" "reason" _ ⟨"failed", "Failed", some "reason"⟩ rfl rfl
      (by decide) reason
  | skipped => exact @Stored.variant n _ "status" _ ⟨"skipped", "Skipped", none⟩ rfl rfl

theorem Archive.Outcome.ofValue?_toValue (o : Archive.Outcome) : ofValue? o.toValue = some o := by
  cases o <;> rfl

namespace Build

namespace KindCounts

/-- The numbers are below 2^64. -/
def InRange (n : KindCounts) : Prop := ∀ e ∈ n.toList, e.2 < Nat.pow 2 64

instance (n : KindCounts) : Decidable n.InRange :=
  inferInstanceAs (Decidable (∀ e ∈ n.toList, e.2 < Nat.pow 2 64))

theorem stored {m : Nat} {n : KindCounts} (h : n.InRange) :
    Stored (m + 1) (.table Kind.shape (.unsigned "usize")) n.toValue n.toValue := by
  refine .tableOf (fun e _ => ?_) fun e he => .unsigned (h e he)
  have hname : e.1.name ∈ Kind.all.map Kind.name := by cases e.1 <;> decide
  exact hname

theorem ofFunction_lastOf_toList (n : KindCounts) : ofFunction (lastOf n.toList) = n := by
  obtain ⟨functions, subroutines, datastructs, unknowns⟩ := n
  cases functions <;> cases subroutines <;> cases datastructs <;> cases unknowns <;> rfl

theorem ofValue?_toValue (n : KindCounts) : ofValue? n.toValue = some n := by
  have hcounts : (n.toList.map fun e => (e.1.name, Value.nat e.2)).mapM count? = some n.toList :=
    mapM_map_eq_some fun e _ => by
      have hkind := (Kind.encodes (n := 0)).read_toValue e.1
      simp only [Kind.toValue] at hkind
      simp [count?, hkind, Value.nat?]
  simp only [ofValue?, toValue, Value.members?, Option.bind_eq_bind, Option.bind_some, hcounts,
    ofFunction_lastOf_toList]

end KindCounts

namespace Report

/-- The numbers of a report are below 2^64. -/
structure InRange (r : Report) : Prop where
  topicsIndexed : r.topicsIndexed < Nat.pow 2 64
  topicsKept : r.topicsKept < Nat.pow 2 64
  kindCounts : r.kindCounts.InRange
  droppedLines : r.droppedLines < Nat.pow 2 64
  overridesApplied : r.overridesApplied < Nat.pow 2 64

/-- A field that is null if a report does not have it. -/
def nullable (name : String) (shape : Shape) (v : Value) : Filled := ⟨name, shape, .null, some v, v⟩

/-- The fields of a report. -/
def filled (r : Report) : List Filled :=
  let required (name : String) (shape : Shape) (v : Value) : Filled := .required name shape v v
  [required "generated_at" .text (.text r.generatedAt),
    nullable "help_file" (.optional .path) (Path.optionValue r.helpFile),
    required "decompile" Archive.Outcome.shape r.decompile.toValue,
    nullable "toc_file" (.optional .path) (Path.optionValue r.contentsFile),
    required "topics_indexed" (.unsigned "usize") (.nat r.topicsIndexed),
    required "topics_kept" (.unsigned "usize") (.nat r.topicsKept),
    required "topics_without_headings" (.list .text) (.texts r.withoutHeadings),
    required "bypassed" (.list .text) (.texts r.bypassed),
    required "kind_counts" (.table Kind.shape (.unsigned "usize")) r.kindCounts.toValue,
    required "low_confidence" (.list .text) (.texts r.uncertain),
    required "dropped_lines" (.unsigned "usize") (.nat r.droppedLines),
    required "overrides_applied" (.unsigned "usize") (.nat r.overridesApplied),
    required "warnings" (.list .text) (.texts r.warnings),
    required "schema_sha256" .text (.text r.digest),
    required "artifacts" (.list .path) (Path.listValue r.artifacts)]

theorem kept {r : Report} (h : r.InRange) : Kept 3 r := by
  refine ⟨r.toValue, ?_, ?_⟩
  · refine @Stored.record 2 "BuildReport" false r.filled ?_ ?_ ?_
    · show ["generated_at", "help_file", "decompile", "toc_file", "topics_indexed", "topics_kept",
        "topics_without_headings", "bypassed", "kind_counts", "low_confidence", "dropped_lines",
        "overrides_applied", "warnings", "schema_sha256", "artifacts"].Nodup
      decide
    · simp [filled, nullable, Filled.required, Path.encodes_list.stored, Path.stored_optionValue,
        Encodes.text.stored, Encodes.texts.stored, Archive.Outcome.stored,
        KindCounts.stored h.kindCounts, Stored.unsigned h.topicsIndexed,
        Stored.unsigned h.topicsKept, Stored.unsigned h.droppedLines,
        Stored.unsigned h.overridesApplied]
    · simp [filled, nullable, Filled.required, Filled.OmittedRight]
  · simp [Documented.ofValue?, ofValue?, toValue, Value.member?, Value.members?, Value.text?,
      Value.nat?, (Path.encodes_list (n := 0)).read_toValue, Path.optional?_optionValue,
      (Encodes.texts (n := 0)).read_toValue, Archive.Outcome.ofValue?_toValue,
      KindCounts.ofValue?_toValue]

end Report

end Build

end HelpMiner
