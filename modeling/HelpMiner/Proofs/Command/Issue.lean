import HelpMiner.Command.Issue
import HelpMiner.Proofs.Text.Blank

/-! What a check reports, it has found: each issue of an entry tells something about the entry. -/
namespace HelpMiner

/-- Text with ink at both ends is not blank. -/
theorem isBlankText_of_inked {s : String} (h : Text.Inked s.toList) : isBlankText s = false := by
  obtain ⟨c, rest, hs, hc⟩ := h.first
  unfold isBlankText Text.hasInk
  rw [hs]
  simp [hc]

/-- What the check of parameters reports. -/
inductive ParamIssue (command : String) (limit : Nat) (ps : List Param) : Issue → Prop where
  | empty {p : Param} (hp : p ∈ ps) (hb : p.isBlank = true) (position : Nat) :
      ParamIssue command limit ps (.emptyParameter command position)
  | tooLong {p : Param} (hp : p ∈ ps) (hb : p.isBlank = false) (hl : limit < p.name.length) :
      ParamIssue command limit ps (.parameterNameTooLong command p.name limit)
  | duplicate {p : Param} (hp : p ∈ ps) (hb : p.isBlank = false) :
      ParamIssue command limit ps (.duplicateParameter command p.name)

section Params

variable {command : String} {limit : Nat}

theorem ParamIssue.cons {p : Param} {ps : List Param} {issue : Issue}
    (h : ParamIssue command limit ps issue) : ParamIssue command limit (p :: ps) issue := by
  cases h with
  | empty hq hb position => exact .empty (List.mem_cons_of_mem p hq) hb position
  | tooLong hq hb hl => exact .tooLong (List.mem_cons_of_mem p hq) hb hl
  | duplicate hq hb => exact .duplicate (List.mem_cons_of_mem p hq) hb

theorem of_mem_checkParams {position : Nat} {seen : List String} {ps : List Param} {issue : Issue}
    (h : issue ∈ checkParams command limit position seen ps) :
    ParamIssue command limit ps issue := by
  induction ps generalizing position seen with
  | nil => cases h
  | cons p rest ih =>
    unfold checkParams at h
    split at h
    · rename_i hb
      obtain rfl | h := List.mem_cons.1 h
      · exact .empty List.mem_cons_self hb position
      · exact (ih h).cons
    · rename_i hb
      have hb := Bool.eq_false_of_not_eq_true hb
      rw [List.mem_append, List.mem_append] at h
      obtain (h | h) | h := h
      · split at h
        · rename_i hl
          obtain rfl := List.mem_singleton.1 h
          exact .tooLong List.mem_cons_self hb hl
        · cases h
      · split at h
        · obtain rfl := List.mem_singleton.1 h
          exact .duplicate List.mem_cons_self hb
        · cases h
      · exact (ih h).cons

/-- Every name that is too long is reported. -/
theorem tooLong_mem_checkParams {position : Nat} {seen : List String} {ps : List Param} {p : Param}
    (hp : p ∈ ps) (hb : p.isBlank = false) (hl : limit < p.name.length) :
    .parameterNameTooLong command p.name limit ∈ checkParams command limit position seen ps := by
  induction ps generalizing position seen with
  | nil => cases hp
  | cons q rest ih =>
    unfold checkParams
    obtain rfl | hp := List.mem_cons.1 hp
    · rw [if_neg (by simp [hb]), if_pos hl]
      simp
    · split
      · exact List.mem_cons_of_mem _ (ih hp)
      · exact List.mem_append_right _ (ih hp)

end Params

namespace Entry

variable {command other : String} {e : Entry} {limit : Nat}

theorem mem_check {issue : Issue} : issue ∈ e.check command limit ↔
    issue ∈ checkParams command limit 1 [] e.params ∨
      (2 < e.returns.length ∧ issue = .malformedReturns command e.returns.length) ∨
      ((e.kind = .function ∧ e.returnType? = none) ∧
        issue = .functionWithoutReturnType command) := by
  unfold check
  rw [List.mem_append, List.mem_append, or_assoc]
  simp only [List.mem_ite_nil_right, List.mem_singleton, Bool.and_eq_true, beq_iff_eq,
    Option.isNone_iff_eq_none]

theorem exists_of_emptyParameter_mem {position : Nat}
    (h : .emptyParameter other position ∈ e.check command limit) :
    ∃ p ∈ e.params, p.isBlank = true := by
  obtain h | ⟨-, h⟩ | ⟨-, h⟩ := mem_check.1 h
  · obtain ⟨hp, hb, -⟩ := of_mem_checkParams h
    exact ⟨_, hp, hb⟩
  · cases h
  · cases h

theorem lt_of_malformedReturns_mem {length : Nat}
    (h : .malformedReturns other length ∈ e.check command limit) : 2 < e.returns.length := by
  obtain h | ⟨h, -⟩ | ⟨-, h⟩ := mem_check.1 h
  · cases of_mem_checkParams h
  · exact h
  · cases h

theorem parameterNameTooLong_mem_iff {name : String} {bound : Nat} :
    .parameterNameTooLong other name bound ∈ e.check command limit ↔
      other = command ∧ bound = limit ∧
        ∃ p ∈ e.params, p.isBlank = false ∧ limit < p.name.length ∧ p.name = name := by
  constructor
  · intro h
    obtain h | ⟨-, h⟩ | ⟨-, h⟩ := mem_check.1 h
    · cases of_mem_checkParams h with
      | tooLong hp hb hl => exact ⟨rfl, rfl, _, hp, hb, hl, rfl⟩
    · cases h
    · cases h
  · rintro ⟨rfl, rfl, p, hp, hb, hl, rfl⟩
    exact mem_check.2 (.inl (tooLong_mem_checkParams hp hb hl))

end Entry

theorem Schema.mem_check {s : Schema} {limit : Nat} {issue : Issue} :
    issue ∈ s.check limit ↔ ∃ e ∈ s.entries,
      if isBlankText e.1 then issue = .emptyCommandName else issue ∈ e.2.check e.1 limit := by
  unfold check
  rw [List.mem_flatMap]
  refine exists_congr fun e => and_congr_right fun _ => ?_
  split
  · exact List.mem_singleton
  · exact Iff.rfl

end HelpMiner
