import HelpMiner.Override.Table

/-! Applying an override table is all or nothing: an unknown name leaves the schema as it was, and
otherwise the fields that the table names are replaced, and nothing else. -/
namespace HelpMiner.OverrideTable

theorem mem_unknownCommands {t : OverrideTable} {s : Schema} {name : String} :
    name ∈ t.unknownCommands s ↔ name ∈ t.keys ∧ name ∉ s.keys := by
  unfold unknownCommands
  rw [List.mem_filter, ← SortedTable.contains_iff_mem_keys s]
  simp

theorem unknownCommands_ascending (t : OverrideTable) (s : Schema) :
    (t.unknownCommands s).Pairwise (· < ·) := t.keys_ascending.filter _

theorem unknownCommands_eq_nil_iff (t : OverrideTable) (s : Schema) :
    t.unknownCommands s = [] ↔ ∀ name ∈ t.keys, name ∈ s.keys := by
  rw [List.eq_nil_iff_forall_not_mem]
  simp only [mem_unknownCommands, not_and, Decidable.not_not]

theorem amend_of_known {t : OverrideTable} {s : Schema} (h : t.unknownCommands s = []) :
    t.amend s = (.ok (t.patchAll s).2, (t.patchAll s).1) := by
  unfold amend
  rw [h]

theorem amend_of_unknown {t : OverrideTable} {s : Schema} (h : t.unknownCommands s ≠ []) :
    t.amend s = (.error (.unknownCommands (t.unknownCommands s)), s) := by
  unfold amend
  split
  · contradiction
  · rfl

theorem apply_of_known {t : OverrideTable} {s : Schema} (h : t.unknownCommands s = []) :
    t.apply s = .ok (t.patchAll s) := by
  unfold apply
  rw [amend_of_known h]
  rfl

theorem apply_of_unknown {t : OverrideTable} {s : Schema} (h : t.unknownCommands s ≠ []) :
    t.apply s = .error (.unknownCommands (t.unknownCommands s)) := by
  unfold apply
  rw [amend_of_unknown h]
  rfl

section Records

variable (state : Schema × Nat) (records : List (String × Patch))

@[simp] theorem patchOne_keys (record : String × Patch) :
    (patchOne state record).1.keys = state.1.keys := by
  unfold patchOne
  split
  · exact SortedTable.keys_adjust _ _ _
  · rfl

theorem patchOne_of_mem {state : Schema × Nat} {record : String × Patch}
    (h : record.1 ∈ state.1.keys) :
    patchOne state record = (state.1.adjust record.1 record.2.apply, state.2 + 1) :=
  if_pos ((SortedTable.contains_iff_mem_keys _ _).2 h)

theorem patchOne_get?_ne {record : String × Patch} {name : String} (h : name ≠ record.1) :
    (patchOne state record).1.get? name = state.1.get? name := by
  unfold patchOne
  split
  · exact SortedTable.get?_adjust_ne h _ _
  · rfl

theorem foldl_patchOne_keys :
    (records.foldl patchOne state).1.keys = state.1.keys := by
  induction records generalizing state with
  | nil => rfl
  | cons record rest ih => rw [List.foldl_cons, ih, patchOne_keys]

theorem mem_patchOne_keys {record : String × Patch} {rest : List (String × Patch)}
    (h : ∀ r ∈ record :: rest, r.1 ∈ state.1.keys) :
    ∀ r ∈ rest, r.1 ∈ (patchOne state record).1.keys := by
  intro r hr
  rw [patchOne_keys]
  exact h r (List.mem_cons_of_mem record hr)

/-- Every record whose command is there is counted once. -/
theorem foldl_patchOne_count (h : ∀ record ∈ records, record.1 ∈ state.1.keys) :
    (records.foldl patchOne state).2 = state.2 + records.length := by
  induction records generalizing state with
  | nil => rfl
  | cons record rest ih =>
    rw [List.foldl_cons, ih _ (mem_patchOne_keys _ h), patchOne_of_mem (h record List.mem_cons_self)]
    simp only [List.length_cons]
    omega

theorem foldl_patchOne_get?_of_not_mem {name : String} (h : name ∉ records.map Prod.fst) :
    (records.foldl patchOne state).1.get? name = state.1.get? name := by
  induction records generalizing state with
  | nil => rfl
  | cons record rest ih =>
    rw [List.map_cons, List.mem_cons, not_or] at h
    rw [List.foldl_cons, ih _ h.2, patchOne_get?_ne _ h.1]

/-- A record is applied to the entry that the schema had at first: no other record of the table has
    its name. -/
theorem foldl_patchOne_get?_of_mem {record : String × Patch} (hr : record ∈ records)
    (hd : (records.map Prod.fst).Nodup) (hs : record.1 ∈ state.1.keys) :
    (records.foldl patchOne state).1.get? record.1 =
      (state.1.get? record.1).map record.2.apply := by
  induction records generalizing state with
  | nil => cases hr
  | cons first rest ih =>
    rw [List.map_cons, List.nodup_cons] at hd
    rw [List.foldl_cons]
    rcases List.mem_cons.1 hr with rfl | hr
    · rw [foldl_patchOne_get?_of_not_mem _ _ hd.1, patchOne_of_mem hs,
        SortedTable.get?_adjust_self]
    · have hne : record.1 ≠ first.1 := by
        intro he
        exact hd.1 (he ▸ List.mem_map_of_mem hr)
      rw [ih _ hr hd.2 (by rwa [patchOne_keys]), patchOne_get?_ne _ hne]

end Records

theorem patchAll_keys (t : OverrideTable) (s : Schema) : (t.patchAll s).1.keys = s.keys :=
  foldl_patchOne_keys (s, 0) t.entries

theorem patchAll_count {t : OverrideTable} {s : Schema} (h : ∀ name ∈ t.keys, name ∈ s.keys) :
    (t.patchAll s).2 = t.size := by
  have hc := foldl_patchOne_count (s, 0) t.entries fun record hr =>
    h record.1 (List.mem_map_of_mem hr)
  rw [Nat.zero_add] at hc
  exact hc

/-- The schema `after` is `s` with the fields replaced that the table names. -/
structure Amended (t : OverrideTable) (s after : Schema) : Prop where
  names : after.keys = s.keys
  others : ∀ name, name ∉ t.keys → after.get? name = s.get? name
  fields : ∀ name patch, t.get? name = some patch → ∃ old new, s.get? name = some old ∧
    after.get? name = some new ∧
    new.description = patch.description.getD old.description ∧
    new.params = patch.params.getD old.params ∧
    new.returns = patch.returns.getD old.returns ∧
    new.kind = patch.kind.getD old.kind

theorem patchAll_amended {t : OverrideTable} {s : Schema} (h : ∀ name ∈ t.keys, name ∈ s.keys) :
    Amended t s (t.patchAll s).1 where
  names := patchAll_keys t s
  others name hn := foldl_patchOne_get?_of_not_mem (s, 0) t.entries hn
  fields name patch hp := by
    have hr : (name, patch) ∈ t.entries := SortedTable.mem_of_get? hp
    have hs : name ∈ s.keys := h name (List.mem_map_of_mem hr)
    obtain ⟨old, ho⟩ := SortedTable.exists_get?_of_mem_keys hs
    have ha : (t.patchAll s).1.get? name = some (patch.apply old) := by
      have hg := foldl_patchOne_get?_of_mem (s, 0) t.entries hr t.keys_nodup hs
      rw [ho] at hg
      exact hg
    exact ⟨old, patch.apply old, ho, ha, rfl, rfl, rfl, rfl⟩

/-- A table fails exactly when the schema lacks one of its names. Then the schema stays as it was,
    and the names it lacks are told, in ascending order. Otherwise every record is counted, and the
    fields that the table names are replaced. -/
theorem amend_all_or_nothing (t : OverrideTable) (s : Schema) :
    ((∃ e, (t.amend s).1 = .error e) ↔ ∃ name ∈ t.keys, name ∉ s.keys) ∧
    (∀ e, (t.amend s).1 = .error e →
      (t.amend s).2 = s ∧ ∃ names, e = .unknownCommands names ∧ names.Pairwise (· < ·) ∧
        ∀ name, name ∈ names ↔ name ∈ t.keys ∧ name ∉ s.keys) ∧
    (∀ applied, (t.amend s).1 = .ok applied →
      applied = t.size ∧ Amended t s (t.amend s).2) := by
  by_cases hu : t.unknownCommands s = []
  · have hk := (unknownCommands_eq_nil_iff t s).1 hu
    rw [amend_of_known hu]
    refine ⟨⟨?_, ?_⟩, ?_, ?_⟩
    · rintro ⟨e, he⟩
      cases he
    · rintro ⟨name, ht, hs⟩
      exact absurd (hk name ht) hs
    · intro e he
      cases he
    · intro applied ha
      cases ha
      exact ⟨patchAll_count hk, patchAll_amended hk⟩
  · obtain ⟨name, hn⟩ := List.exists_mem_of_ne_nil _ hu
    rw [amend_of_unknown hu]
    refine ⟨⟨?_, ?_⟩, ?_, ?_⟩
    · intro _
      exact ⟨name, mem_unknownCommands.1 hn⟩
    · intro _
      exact ⟨_, rfl⟩
    · intro e he
      cases he
      exact ⟨rfl, _, rfl, unknownCommands_ascending t s, fun _ => mem_unknownCommands⟩
    · intro applied ha
      cases ha

end HelpMiner.OverrideTable
