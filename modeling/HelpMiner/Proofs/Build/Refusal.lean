import HelpMiner.Proofs.Build.Account

/-! Builds that are refused: a bad override table is found out before anything is written. -/
namespace HelpMiner.Build

open HelpMiner.Action (runOn)

/-- An override file that a build refuses, with the error that tells why. -/
inductive BadTable (t : FileTree) (c : Config) (x : Extraction) : Error → Prop where
  | unreadable {why : Trouble} (hread : t.text c.overridePath = .error why)
      (hwhy : why ≠ .notFound) : BadTable t c x (.io c.overridePath why)
  | malformed {text : String} {e : Error} (hread : t.text c.overridePath = .ok text)
      (hparse : OverrideTable.parse text = .error e) : BadTable t c x e
  /-- The table has commands that were not extracted: just these, ascending. -/
  | unknown {text : String} {table : OverrideTable} {names : List String}
      (hread : t.text c.overridePath = .ok text) (hparse : OverrideTable.parse text = .ok table)
      (hne : names ≠ []) (hascending : names.Pairwise (· < ·))
      (hmem : ∀ name, name ∈ names ↔ name ∈ table.keys ∧ name ∉ x.docs.keys) :
      BadTable t c x (.unknownCommands names)

section

variable (env : Environment) (c : Config) (x : Extraction) (t : FileTree)

theorem runOn_load_text {p : Path} {text : String} (h : t.text p = .ok text) :
    runOn t (OverrideTable.load p) = (OverrideTable.parse text, t) := by
  unfold OverrideTable.load
  rw [Action.runOn_bind_ok (Action.runOn_get t), h]
  rfl

theorem runOn_load_absent {p : Path} (h : t.text p = .error .notFound) :
    runOn t (OverrideTable.load p) = (.ok .empty, t) := by
  unfold OverrideTable.load
  rw [Action.runOn_bind_ok (Action.runOn_get t), h]
  rfl

theorem runOn_load_trouble {p : Path} {why : Trouble} (h : t.text p = .error why)
    (hwhy : why ≠ .notFound) : runOn t (OverrideTable.load p) = (.error (.io p why), t) := by
  unfold OverrideTable.load
  rw [Action.runOn_bind_ok (Action.runOn_get t), h]
  cases why with
  | notFound => exact absurd rfl hwhy
  | _ => rfl

theorem ofExtraction_error {now : String} {table : OverrideTable} {e : Error}
    (h : table.apply (Draft.ofDocs c x.docs).schema = .error e) :
    ofExtraction c now table x = .error e := by
  unfold ofExtraction
  simp only [h]
  rfl

/-- Nothing is written before the table is applied. -/
theorem runOn_finish_error {table : OverrideTable} {e : Error}
    (hload : runOn t (OverrideTable.load c.overridePath) = (.ok table, t))
    (h : table.apply (Draft.ofDocs c x.docs).schema = .error e) :
    runOn t (finish env c x) = (.error e, t) := by
  unfold finish
  rw [Action.runOn_bind_ok hload]
  apply Action.runOn_bind_error
  rw [ofExtraction_error c x h]
  rfl

theorem apply_unknown {table : OverrideTable} {s : Schema} {names : List String} (hne : names ≠ [])
    (hascending : names.Pairwise (· < ·))
    (hmem : ∀ name, name ∈ names ↔ name ∈ table.keys ∧ name ∉ s.keys) :
    table.apply s = .error (.unknownCommands names) := by
  have hnames : table.unknownCommands s = names := by
    apply SortedTable.eq_of_ascending (OverrideTable.unknownCommands_ascending table s) hascending
    intro name
    rw [OverrideTable.mem_unknownCommands, hmem]
  rw [OverrideTable.apply_of_unknown (by rwa [hnames]), hnames]

/-- An override table that is not bad names extracted commands only, or its file is not there. -/
theorem exists_load_of_not_badTable (h : ∀ e, ¬ BadTable t c x e) :
    ∃ table, runOn t (OverrideTable.load c.overridePath) = (.ok table, t) ∧
      table.unknownCommands (Draft.ofDocs c x.docs).schema = [] := by
  cases hread : t.text c.overridePath with
  | error why =>
    by_cases hwhy : why = .notFound
    · rw [hwhy] at hread
      exact ⟨.empty, runOn_load_absent t hread, rfl⟩
    · exact absurd (.unreadable hread hwhy) (h _)
  | ok text =>
    cases hparse : OverrideTable.parse text with
    | error e => exact absurd (.malformed hread hparse) (h e)
    | ok table =>
      have hload := runOn_load_text t hread
      rw [hparse] at hload
      refine ⟨table, hload, ?_⟩
      by_contra hne
      refine h _ (.unknown hread hparse hne ?_ fun name => ?_)
      · exact OverrideTable.unknownCommands_ascending _ _
      · rw [OverrideTable.mem_unknownCommands, keys_schema]

/-- A build with a bad override table fails and leaves all files as they are. Any other build comes
as far as to write its files. -/
theorem finish_bad_table :
    (∀ e, BadTable t c x e → runOn t (finish env c x) = (.error e, t)) ∧
    ((∀ e, ¬ BadTable t c x e) → ∃ b, runOn t (finish env c x) =
      runOn t (b.save c >>= fun _ => pure b)) := by
  constructor
  · intro e h
    cases h with
    | unreadable hread hwhy =>
      exact Action.runOn_bind_error (runOn_load_trouble t hread hwhy) _
    | malformed hread hparse =>
      have hload := runOn_load_text t hread
      rw [hparse] at hload
      exact Action.runOn_bind_error hload _
    | unknown hread hparse hne hascending hmem =>
      have hload := runOn_load_text t hread
      rw [hparse] at hload
      apply runOn_finish_error env c x t hload
      exact apply_unknown hne hascending (by rwa [keys_schema])
  · intro h
    obtain ⟨table, htable, hknown⟩ := exists_load_of_not_badTable c x t h
    obtain ⟨b, hb, -⟩ := exists_assembled env.now (OverrideTable.apply_of_known hknown)
    refine ⟨b, ?_⟩
    unfold finish
    rw [Action.runOn_bind_ok htable, hb]
    rfl

end

/-- Surroundings without variables and programs. -/
def bareEnvironment : Environment where
  valueOf? := fun _ => none
  now := "now"
  run := fun _ t => (.notStarted .notFound, t)

/-- An archive of one command. -/
def oneExtraction : Extraction where
  helpFile := ⟨"Fred.chm"⟩
  decompile := .skipped
  contentsFile := ⟨"html/Fred.hhc"⟩
  index := .empty
  docs := ⟨[("Close", .empty)], List.pairwise_singleton _ _⟩
  withoutHeadings := []

/-- An earlier schema, and a table for a command that is gone. -/
def goneTree : FileTree where
  current := []
  nodes := [(["data"], .dir), (["data", "api_build.yaml"], .file "Gone: old".toUTF8),
    (["data", "api_overrides.yaml"], .file "Gone: \x7b\x7d\n".toUTF8)]

/-- A command that was not extracted is told by name, and the earlier schema stays. -/
theorem finish_bad_table_gone : runOn goneTree (finish bareEnvironment .default oneExtraction) =
    (.error (.unknownCommands ["Gone"]), goneTree) := by
  have hkeys : (OverrideTable.parse "Gone: \x7b\x7d\n").map SortedTable.keys = .ok ["Gone"] := by
    decide +kernel
  have hread : goneTree.text Config.default.overridePath = .ok "Gone: \x7b\x7d\n" := by
    decide +kernel
  apply (finish_bad_table bareEnvironment .default oneExtraction goneTree).1
  cases hparse : OverrideTable.parse "Gone: \x7b\x7d\n" with
  | error e =>
    rw [hparse] at hkeys
    cases hkeys
  | ok table =>
    rw [hparse] at hkeys
    have htable : table.keys = ["Gone"] := Except.ok.inj hkeys
    refine .unknown hread hparse (by decide) (List.pairwise_singleton _ _) fun name => ?_
    rw [htable, List.mem_singleton]
    constructor
    · rintro rfl
      exact ⟨rfl, by decide⟩
    · exact And.left

end HelpMiner.Build
