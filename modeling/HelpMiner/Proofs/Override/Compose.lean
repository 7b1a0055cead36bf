import HelpMiner.Proofs.Override.Amend
import HelpMiner.Proofs.Table.Sorted

/-! Patches compose: two after each other are one, whose fields are those of the later where it has
them. Hence a table can be applied record by record in any order, and again, and with another. -/
namespace HelpMiner

namespace Patch

/-- The patch `q` after the patch `p`, as one. -/
def andThen (p q : Patch) : Patch where
  description := q.description.or p.description
  params := q.params.or p.params
  returns := q.returns.or p.returns
  kind := q.kind.or p.kind

theorem apply_andThen (p q : Patch) (e : Entry) : (p.andThen q).apply e = q.apply (p.apply e) := by
  unfold apply andThen
  simp only [Option.getD_or]

theorem andThen_self (p : Patch) : p.andThen p = p := by
  unfold andThen
  simp only [Option.or_self]

theorem apply_apply (p : Patch) (e : Entry) : p.apply (p.apply e) = p.apply e := by
  rw [← apply_andThen, andThen_self]

end Patch

namespace OverrideTable

/-! ## A table as a change of entries -/

/-- What a table makes of the entry of a command. -/
def patched (t : OverrideTable) (name : String) (e : Entry) : Entry :=
  (t.get? name).elim e (·.apply e)

theorem patched_of_none {t : OverrideTable} {name : String} (h : t.get? name = none) :
    t.patched name = id := by
  funext e
  rw [patched, h]
  rfl

theorem patched_of_some {t : OverrideTable} {name : String} {p : Patch}
    (h : t.get? name = some p) : t.patched name = p.apply := by
  funext e
  rw [patched, h]
  rfl

theorem patched_patched (t : OverrideTable) (name : String) (e : Entry) :
    t.patched name (t.patched name e) = t.patched name e := by
  cases h : t.get? name with
  | none => rw [patched_of_none h, id, id]
  | some p => rw [patched_of_some h, p.apply_apply]

/-- Patching changes every entry by the record of its command. -/
theorem patchAll_schema (t : OverrideTable) (s : Schema) :
    (t.patchAll s).1 = s.mapValues t.patched := by
  apply SortedTable.ext_get?
  intro name
  rw [SortedTable.get?_mapValues]
  by_cases hs : name ∈ s.keys
  · cases ht : t.get? name with
    | none =>
      rw [patched_of_none ht, Option.map_id]
      exact foldl_patchOne_get?_of_not_mem (s, 0) t.entries (SortedTable.get?_eq_none_iff.1 ht)
    | some p =>
      have hr : (name, p) ∈ t.entries := SortedTable.mem_of_get? ht
      rw [patched_of_some ht]
      exact foldl_patchOne_get?_of_mem (s, 0) t.entries hr t.keys_nodup hs
  · have hafter : name ∉ (t.patchAll s).1.keys := by rwa [patchAll_keys]
    rw [SortedTable.get?_eq_none_iff.2 hs, SortedTable.get?_eq_none_iff.2 hafter]
    rfl

/-- A table applies just if every command that it names is there. -/
theorem apply_eq_ok_iff {t : OverrideTable} {s : Schema} {r : Schema × Nat} :
    t.apply s = .ok r ↔ (∀ name ∈ t.keys, name ∈ s.keys) ∧ r = (s.mapValues t.patched, t.size) := by
  rw [← unknownCommands_eq_nil_iff]
  by_cases hu : t.unknownCommands s = []
  · have hknown := (unknownCommands_eq_nil_iff t s).1 hu
    have hall : t.patchAll s = (s.mapValues t.patched, t.size) :=
      Prod.ext (patchAll_schema t s) (patchAll_count hknown)
    rw [apply_of_known hu, hall, Except.ok.injEq, eq_comm, and_iff_right hu]
  · rw [apply_of_unknown hu]
    constructor
    · intro h
      cases h
    · intro h
      exact absurd h.1 hu

/-! ## Records one at a time -/

/-- Apply one record, as a table of its own. -/
def applyRecord (state : Schema × Nat) (record : String × Patch) : Except Error (Schema × Nat) :=
  (apply (.ofList [record]) state.1).map fun r => (r.1, state.2 + r.2)

theorem applyRecord_of_mem {state : Schema × Nat} {record : String × Patch}
    (h : record.1 ∈ state.1.keys) : applyRecord state record = .ok (patchOne state record) := by
  have hknown : unknownCommands (.ofList [record]) state.1 = [] := by
    apply (unknownCommands_eq_nil_iff _ _).2
    intro name hn
    obtain rfl : name = record.1 := List.mem_singleton.1 hn
    exact h
  have hone : patchAll (.ofList [record]) state.1 =
      (state.1.adjust record.1 record.2.apply, 1) := by
    change patchOne (state.1, 0) record = _
    exact patchOne_of_mem h
  unfold applyRecord
  rw [apply_of_known hknown, hone, patchOne_of_mem h]
  rfl

theorem foldlM_applyRecord (state : Schema × Nat) (records : List (String × Patch))
    (h : ∀ record ∈ records, record.1 ∈ state.1.keys) :
    records.foldlM applyRecord state = .ok (records.foldl patchOne state) := by
  induction records generalizing state with
  | nil => rfl
  | cons record rest ih =>
    rw [List.foldlM_cons, applyRecord_of_mem (h record List.mem_cons_self)]
    exact ih _ (mem_patchOne_keys _ h)

theorem patchOne_of_not_mem {state : Schema × Nat} {record : String × Patch}
    (h : record.1 ∉ state.1.keys) : patchOne state record = state :=
  if_neg fun hc => h ((SortedTable.contains_iff_mem_keys _ _).1 hc)

theorem patchOne_comm (state : Schema × Nat) {a b : String × Patch} (h : a.1 ≠ b.1) :
    patchOne (patchOne state a) b = patchOne (patchOne state b) a := by
  by_cases ha : a.1 ∈ state.1.keys
  · by_cases hb : b.1 ∈ state.1.keys
    · have hab : b.1 ∈ (patchOne state a).1.keys := by rwa [patchOne_keys]
      have hba : a.1 ∈ (patchOne state b).1.keys := by rwa [patchOne_keys]
      rw [patchOne_of_mem hab, patchOne_of_mem hba, patchOne_of_mem ha, patchOne_of_mem hb,
        SortedTable.adjust_comm h]
    · have hab : b.1 ∉ (patchOne state a).1.keys := by rwa [patchOne_keys]
      rw [patchOne_of_not_mem hab, patchOne_of_not_mem hb]
  · have hba : a.1 ∉ (patchOne state b).1.keys := by rwa [patchOne_keys]
    rw [patchOne_of_not_mem hba, patchOne_of_not_mem ha]

theorem foldl_patchOne_perm {records others : List (String × Patch)} (hp : records.Perm others)
    (hd : (records.map Prod.fst).Nodup) (state : Schema × Nat) :
    records.foldl patchOne state = others.foldl patchOne state := by
  apply hp.foldl_eq'
  intro a ha b hb z
  by_cases hab : a = b
  · rw [hab]
  · apply patchOne_comm
    intro hn
    exact hab (List.inj_on_of_nodup_map hd ha hb hn)

/-- A table that applies can be applied record by record, in any order. -/
theorem foldlM_applyRecord_perm {t : OverrideTable} {s : Schema} {r : Schema × Nat}
    (h : t.apply s = .ok r) {records : List (String × Patch)} (hp : records.Perm t.entries) :
    records.foldlM applyRecord (s, 0) = .ok r := by
  have hknown := (apply_eq_ok_iff.1 h).1
  have hnames : ∀ record ∈ records, record.1 ∈ s.keys := fun record hm =>
    hknown record.1 (List.mem_map_of_mem (hp.subset hm))
  have hnodup : (records.map Prod.fst).Nodup := (hp.map Prod.fst).nodup_iff.2 t.keys_nodup
  calc records.foldlM applyRecord (s, 0)
      = .ok (records.foldl patchOne (s, 0)) := foldlM_applyRecord _ _ hnames
    _ = .ok (t.patchAll s) := congrArg Except.ok (foldl_patchOne_perm hp hnodup _)
    _ = t.apply s := (apply_of_known ((unknownCommands_eq_nil_iff t s).2 hknown)).symm
    _ = .ok r := h

theorem apply_again {t : OverrideTable} {s : Schema} {r : Schema × Nat} (h : t.apply s = .ok r) :
    t.apply r.1 = .ok r := by
  obtain ⟨hknown, hr⟩ := apply_eq_ok_iff.1 h
  rw [apply_eq_ok_iff, hr, SortedTable.keys_mapValues, SortedTable.mapValues_mapValues]
  simp only [patched_patched]
  exact ⟨hknown, trivial⟩

/-! ## Two tables -/

/-- Two tables as one: where both have a record, that of `u` after that of `t`. -/
def merge (t u : OverrideTable) : OverrideTable :=
  t.union (u.mapValues fun name q => (t.get? name).elim q (·.andThen q))

theorem get?_merge (t u : OverrideTable) (name : String) :
    (t.merge u).get? name = Option.merge Patch.andThen (t.get? name) (u.get? name) := by
  unfold merge
  rw [SortedTable.get?_union, SortedTable.get?_mapValues]
  cases t.get? name <;> cases u.get? name <;> rfl

theorem patched_merge (t u : OverrideTable) (name : String) (e : Entry) :
    (t.merge u).patched name e = u.patched name (t.patched name e) := by
  unfold patched
  rw [get?_merge]
  cases t.get? name with
  | none => cases u.get? name <;> rfl
  | some p =>
    cases u.get? name with
    | none => rfl
    | some q => exact p.apply_andThen q e

theorem mem_keys_merge {t u : OverrideTable} {name : String} :
    name ∈ (t.merge u).keys ↔ name ∈ t.keys ∨ name ∈ u.keys := by
  rw [SortedTable.mem_keys_iff, SortedTable.mem_keys_iff, SortedTable.mem_keys_iff, get?_merge]
  cases t.get? name <;> cases u.get? name <;> simp [Option.merge]

theorem apply_merge {t u : OverrideTable} {s : Schema} {r r' : Schema × Nat}
    (ht : t.apply s = .ok r) (hu : u.apply r.1 = .ok r') :
    (t.merge u).apply s = .ok (r'.1, (t.merge u).size) := by
  obtain ⟨htknown, hr⟩ := apply_eq_ok_iff.1 ht
  obtain ⟨huknown, hr'⟩ := apply_eq_ok_iff.1 hu
  have hboth : (t.merge u).patched = fun name e => u.patched name (t.patched name e) :=
    funext₂ (patched_merge t u)
  refine apply_eq_ok_iff.2 ⟨?_, ?_⟩
  · intro name hn
    rcases mem_keys_merge.1 hn with hn | hn
    · exact htknown name hn
    · have h := huknown name hn
      rwa [hr, SortedTable.keys_mapValues] at h
  · rw [hr', hr, SortedTable.mapValues_mapValues, hboth]

/-- Patches after each other are one patch. The records of a table can be applied one at a time, in
any order, and a second time without effect. Tables after each other are one table, name by name. -/
theorem overrides_compose :
    (∀ (p q : Patch) (e : Entry), q.apply (p.apply e) = (p.andThen q).apply e) ∧
    (∀ (t : OverrideTable) (s : Schema) (r : Schema × Nat), t.apply s = .ok r →
      (∀ records : List (String × Patch), records.Perm t.entries →
        records.foldlM applyRecord (s, 0) = .ok r) ∧
      t.apply r.1 = .ok r) ∧
    ∀ (t u : OverrideTable) (s : Schema) (r r' : Schema × Nat),
      t.apply s = .ok r → u.apply r.1 = .ok r' →
      (∀ name, (t.merge u).get? name = Option.merge Patch.andThen (t.get? name) (u.get? name)) ∧
      (t.merge u).apply s = .ok (r'.1, (t.merge u).size) := by
  refine ⟨?_, ?_, ?_⟩
  · intro p q e
    exact (p.apply_andThen q e).symm
  · intro t s r h
    exact ⟨fun records hp => foldlM_applyRecord_perm h hp, apply_again h⟩
  · intro t u s r r' ht hu
    exact ⟨get?_merge t u, apply_merge ht hu⟩

/-- Two commands with a parameter each. -/
def shownCommands : Schema :=
  ⟨[("Close", ⟨"Ends.", [⟨"n", "Long"⟩], [], .subroutine⟩),
    ("Open", ⟨"Begins.", [⟨"f", "String"⟩], [], .unknown⟩)], by decide⟩

/-- A description for one command, and the kind of the other. -/
def firstRecords : OverrideTable :=
  ⟨[("Close", ⟨some "Closes.", none, none, none⟩),
    ("Open", ⟨none, none, none, some .subroutine⟩)], by decide⟩

/-- A description and no parameters for a command that `firstRecords` describes too. -/
def laterRecords : OverrideTable := ⟨[("Close", ⟨some "Shuts.", some [], none, none⟩)], by decide⟩

/-- The commands as `firstRecords` makes them. -/
def firstAmended : Schema :=
  ⟨[("Close", ⟨"Closes.", [⟨"n", "Long"⟩], [], .subroutine⟩),
    ("Open", ⟨"Begins.", [⟨"f", "String"⟩], [], .subroutine⟩)], by decide⟩

/-- The commands as `laterRecords` makes them after that. -/
def laterAmended : Schema :=
  ⟨[("Close", ⟨"Shuts.", [], [], .subroutine⟩),
    ("Open", ⟨"Begins.", [⟨"f", "String"⟩], [], .subroutine⟩)], by decide⟩

theorem overrides_compose_close :
    firstRecords.apply shownCommands = .ok (firstAmended, 2) ∧
    laterRecords.apply firstAmended = .ok (laterAmended, 1) ∧
    firstRecords.entries.reverse.foldlM applyRecord (shownCommands, 0) = .ok (firstAmended, 2) ∧
    firstRecords.apply firstAmended = .ok (firstAmended, 2) ∧
    (firstRecords.merge laterRecords).get? "Close" =
      some ⟨some "Shuts.", some [], none, none⟩ ∧
    (firstRecords.merge laterRecords).apply shownCommands = .ok (laterAmended, 2) := by
  have hfirst : firstRecords.apply shownCommands = .ok (firstAmended, 2) :=
    apply_eq_ok_iff.2 ⟨by decide, by decide⟩
  have hlater : laterRecords.apply firstAmended = .ok (laterAmended, 1) :=
    apply_eq_ok_iff.2 ⟨by decide, by decide⟩
  obtain ⟨-, hrecords, htables⟩ := overrides_compose
  obtain ⟨hany, hagain⟩ := hrecords _ _ _ hfirst
  obtain ⟨hmerged, hboth⟩ := htables _ _ _ _ _ hfirst hlater
  refine ⟨hfirst, hlater, hany _ (List.reverse_perm _), hagain, ?_, hboth⟩
  rw [hmerged]
  decide

end OverrideTable

end HelpMiner
