import HelpMiner.Proofs.Command.Issue
import HelpMiner.Proofs.Table.Sorted

/-! The check of a schema is sound and complete: it reports nothing just of valid schemas, and of
others one issue for each fault, in the order of the commands and of their parameters. -/
namespace HelpMiner

/-! ## Valid schemas -/

/-- Blanks and nothing else. -/
def OnlyBlanks (s : String) : Prop := ∀ c ∈ s.toList, Text.isBlank c = true

instance (s : String) : Decidable (OnlyBlanks s) :=
  inferInstanceAs (Decidable (∀ c ∈ s.toList, Text.isBlank c = true))

/-- A parameter without a name or without a type. -/
def Param.Vacant (p : Param) : Prop := OnlyBlanks p.name ∨ OnlyBlanks p.type

instance (p : Param) : Decidable p.Vacant :=
  inferInstanceAs (Decidable (OnlyBlanks p.name ∨ OnlyBlanks p.type))

structure Entry.Valid (limit : Nat) (e : Entry) : Prop where
  filled : ∀ p ∈ e.params, ¬ p.Vacant
  short : ∀ p ∈ e.params, p.name.length ≤ limit
  distinct : (e.params.map Param.name).Nodup
  returns : e.returns.length ≤ 2
  returnType : e.kind = .function → ∃ type, e.returnType? = some type

structure Schema.Valid (limit : Nat) (s : Schema) : Prop where
  named : ∀ e ∈ s.entries, ¬ OnlyBlanks e.1
  entries : ∀ e ∈ s.entries, e.2.Valid limit

theorem isBlankText_iff {s : String} : isBlankText s = true ↔ OnlyBlanks s := by
  unfold isBlankText Text.hasInk OnlyBlanks
  simp

theorem Param.isBlank_iff {p : Param} : p.isBlank = true ↔ p.Vacant := by
  unfold Param.isBlank Param.Vacant
  rw [Bool.or_eq_true, isBlankText_iff, isBlankText_iff]

/-! ## Parameters -/

namespace Param

/-- The name of the parameter has stood before, where a parameter was not vacant. -/
def Repeats (p : Param) (before : List Param) : Prop := ∃ q ∈ before, ¬ q.Vacant ∧ q.name = p.name

instance (p : Param) (before : List Param) : Decidable (p.Repeats before) :=
  inferInstanceAs (Decidable (∃ q ∈ before, ¬ q.Vacant ∧ q.name = p.name))

/-- The issues of one parameter, by the parameters before it. -/
def faults (command : String) (limit : Nat) (before : List Param) (p : Param) : List Issue :=
  if p.Vacant then [.emptyParameter command (before.length + 1)]
  else (if limit < p.name.length then [.parameterNameTooLong command p.name limit] else []) ++
    if p.Repeats before then [.duplicateParameter command p.name] else []

/-- The issues of all parameters, one parameter after another. -/
def allFaults (command : String) (limit : Nat) (ps : List Param) : List Issue :=
  ps.zipIdx.flatMap fun x => x.1.faults command limit (ps.take x.2)

variable {command : String} {limit : Nat}

theorem faults_of_vacant {p : Param} (h : p.Vacant) (before : List Param) :
    p.faults command limit before = [.emptyParameter command (before.length + 1)] := if_pos h

theorem faults_of_filled {p : Param} (h : ¬ p.Vacant) (before : List Param) :
    p.faults command limit before =
      (if limit < p.name.length then [.parameterNameTooLong command p.name limit] else []) ++
        if p.Repeats before then [.duplicateParameter command p.name] else [] := if_neg h

theorem repeats_concat_of_vacant {p q : Param} {before : List Param} (hq : q.Vacant) :
    p.Repeats (before ++ [q]) ↔ p.Repeats before := by
  unfold Repeats
  simp [or_and_right, exists_or, hq]

theorem repeats_concat {p q : Param} {before : List Param} (hq : ¬ q.Vacant) :
    p.Repeats (before ++ [q]) ↔ p.name = q.name ∨ p.Repeats before := by
  unfold Repeats
  simp [or_and_right, exists_or, hq, or_comm, eq_comm]

/-- The names that the loop has seen are those of the parameters before, the vacant ones apart. -/
theorem checkParams_eq {before rest : List Param} {seen : List String}
    (hseen : ∀ p : Param, p.name ∈ seen ↔ p.Repeats before) :
    checkParams command limit (before.length + 1) seen rest =
      (rest.zipIdx before.length).flatMap fun x =>
        x.1.faults command limit ((before ++ rest).take x.2) := by
  induction rest generalizing before seen with
  | nil => rfl
  | cons p rest ih =>
    have hfront : (before ++ p :: rest).take before.length = before := List.take_left
    have hsplit : before ++ p :: rest = (before ++ [p]) ++ rest := by simp
    have hlength : (before ++ [p]).length = before.length + 1 := by simp
    unfold checkParams
    rw [List.zipIdx_cons, List.flatMap_cons, hfront, hsplit, ← hlength]
    by_cases hv : p.Vacant
    · have hnext : ∀ q : Param, q.name ∈ seen ↔ q.Repeats (before ++ [p]) := fun q => by
        rw [hseen, repeats_concat_of_vacant hv]
      rw [if_pos (isBlank_iff.2 hv), faults_of_vacant hv, ← ih hnext, hlength]
      rfl
    · have hnext : ∀ q : Param, q.name ∈ p.name :: seen ↔ q.Repeats (before ++ [p]) := fun q => by
        rw [List.mem_cons, hseen, repeats_concat hv]
      have hmem : seen.contains p.name = true ↔ p.Repeats before := by
        rw [List.contains_iff_mem, hseen]
      rw [if_neg (mt isBlank_iff.1 hv), faults_of_filled hv, ← ih hnext]
      simp only [hmem]

theorem checkParams_eq_allFaults (ps : List Param) :
    checkParams command limit 1 [] ps = allFaults command limit ps := by
  have hseen : ∀ p : Param, p.name ∈ ([] : List String) ↔ p.Repeats [] := by simp [Repeats]
  exact checkParams_eq hseen

theorem faults_eq_nil_iff {before : List Param} {p : Param} :
    p.faults command limit before = [] ↔
      ¬ p.Vacant ∧ p.name.length ≤ limit ∧ ¬ p.Repeats before := by
  unfold faults
  by_cases hv : p.Vacant
  · simp [hv]
  · simp [hv]

theorem allFaults_eq_nil_iff {ps : List Param} : allFaults command limit ps = [] ↔
    ∀ (i : Nat) (p : Param), ps[i]? = some p →
      ¬ p.Vacant ∧ p.name.length ≤ limit ∧ ¬ p.Repeats (ps.take i) := by
  unfold allFaults
  rw [List.flatMap_eq_nil_iff]
  constructor
  · intro h i p hp
    exact faults_eq_nil_iff.1 (h (p, i) (List.mem_zipIdx_iff_getElem?.2 hp))
  · rintro h ⟨p, i⟩ hm
    exact faults_eq_nil_iff.2 (h i p (List.mem_zipIdx_iff_getElem?.1 hm))

/-- Where no parameter is vacant, names repeat just if they are not distinct. -/
theorem nodup_iff_not_repeats {ps : List Param} (hv : ∀ p ∈ ps, ¬ p.Vacant) :
    (ps.map Param.name).Nodup ↔
      ∀ (i : Nat) (p : Param), ps[i]? = some p → ¬ p.Repeats (ps.take i) := by
  have hpairs : (ps.map Param.name).Nodup ↔
      ∀ (i j : Nat) (hi : i < ps.length) (hj : j < ps.length), i < j → ps[i].name ≠ ps[j].name := by
    unfold List.Nodup
    rw [List.pairwise_map, List.pairwise_iff_getElem]
  rw [hpairs]
  constructor
  · rintro h j p hp ⟨q, hq, -, hname⟩
    obtain ⟨hj, rfl⟩ := List.getElem?_eq_some_iff.1 hp
    obtain ⟨i, hi, rfl⟩ := List.mem_take_iff_getElem.1 hq
    exact h i j (by omega) hj (by omega) hname
  · intro h i j hi hj hij hname
    have hq : ps[i] ∈ ps.take j := List.mem_take_iff_getElem.2 ⟨i, by omega, rfl⟩
    exact h j ps[j] (List.getElem?_eq_getElem hj) ⟨ps[i], hq, hv _ (List.getElem_mem hi), hname⟩

end Param

/-! ## Entries -/

namespace Entry

variable {command : String} {limit : Nat} {e : Entry}

/-- The issues of an entry: of its parameters, of its return binding and of its return type. -/
def faults (command : String) (limit : Nat) (e : Entry) : List Issue :=
  Param.allFaults command limit e.params ++
    (if 2 < e.returns.length then [.malformedReturns command e.returns.length] else []) ++
    if e.kind = .function ∧ e.returnType? = none then [.functionWithoutReturnType command] else []

theorem check_eq_faults (command : String) (limit : Nat) (e : Entry) :
    e.check command limit = e.faults command limit := by
  unfold check faults
  rw [Param.checkParams_eq_allFaults]
  simp only [Bool.and_eq_true, beq_iff_eq, Option.isNone_iff_eq_none]

theorem valid_iff_faults : e.Valid limit ↔ e.faults command limit = [] := by
  unfold faults
  rw [List.append_eq_nil_iff, List.append_eq_nil_iff, Param.allFaults_eq_nil_iff]
  constructor
  · -- Positions tell repeated names apart, which needs that no name is vacant.
    intro h
    have hreps := (Param.nodup_iff_not_repeats h.filled).1 h.distinct
    refine ⟨⟨fun i p hp => ?_, if_neg (Nat.not_lt.2 h.returns)⟩, if_neg ?_⟩
    · have hm : p ∈ e.params := List.mem_of_getElem? hp
      exact ⟨h.filled p hm, h.short p hm, hreps i p hp⟩
    · rintro ⟨hk, hnone⟩
      obtain ⟨type, htype⟩ := h.returnType hk
      rw [htype] at hnone
      cases hnone
  · rintro ⟨⟨hparams, hreturns⟩, htype⟩
    have hat : ∀ p ∈ e.params, ∃ i, e.params[i]? = some p := fun p hp => List.mem_iff_getElem?.1 hp
    have hfilled : ∀ p ∈ e.params, ¬ p.Vacant := fun p hp => by
      obtain ⟨i, hi⟩ := hat p hp
      exact (hparams i p hi).1
    constructor
    · exact hfilled
    · intro p hp
      obtain ⟨i, hi⟩ := hat p hp
      exact (hparams i p hi).2.1
    · exact (Param.nodup_iff_not_repeats hfilled).2 fun i p hp => (hparams i p hp).2.2
    · by_contra hlong
      rw [if_pos (Nat.not_le.1 hlong)] at hreturns
      cases hreturns
    · intro hk
      by_contra hnone
      rw [if_pos ⟨hk, Option.eq_none_iff_forall_not_mem.2 (by simpa using hnone)⟩] at htype
      cases htype

end Entry

/-! ## Schemas -/

namespace Schema

/-- The check reports nothing just of a valid schema. In general the commands follow each other in
ascending order; a blank name is one issue, whatever its entry, and any other command has the
issues of its parameters, each by those before it, and then of what it returns. -/
theorem check_sound_complete (s : Schema) (limit : Nat) :
    (s.check limit = [] ↔ s.Valid limit) ∧ s.keys.Pairwise (· < ·) ∧
      s.check limit = s.entries.flatMap fun e =>
        if OnlyBlanks e.1 then [.emptyCommandName] else e.2.faults e.1 limit := by
  have hcheck : s.check limit = s.entries.flatMap fun e =>
      if OnlyBlanks e.1 then [.emptyCommandName] else e.2.faults e.1 limit := by
    unfold check
    simp only [isBlankText_iff, Entry.check_eq_faults]
  refine ⟨?_, s.keys_ascending, hcheck⟩
  rw [hcheck, List.flatMap_eq_nil_iff]
  constructor
  · intro h
    have hnamed : ∀ e ∈ s.entries, ¬ OnlyBlanks e.1 := fun e he hb => by
      have hnil := h e he
      rw [if_pos hb] at hnil
      cases hnil
    refine ⟨hnamed, fun e he => ?_⟩
    have hnil := h e he
    rw [if_neg (hnamed e he)] at hnil
    exact Entry.valid_iff_faults.2 hnil
  · intro h e he
    rw [if_neg (h.named e he)]
    exact Entry.valid_iff_faults.1 (h.entries e he)

end Schema

end HelpMiner
