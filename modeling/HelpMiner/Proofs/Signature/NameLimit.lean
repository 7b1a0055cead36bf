import HelpMiner.Proofs.Command.Issue
import HelpMiner.Proofs.Signature.WellFormed

/-! Inference and the check of an entry measure names at different times: inference before a reserved
name takes its underscore, the check after it. -/
namespace HelpMiner.Signature

theorem isReserved_length_le {word : List Char} (h : isReserved word = true) :
    word.length ≤ 10 := by
  have hall : ∀ w ∈ reservedWords, w.toList.length ≤ 10 := by decide
  obtain ⟨w, hw, he⟩ := List.any_eq_true.1 h
  have hlen := congrArg List.length (beq_iff_eq.1 he)
  rw [Text.lower, List.length_map] at hlen
  exact hlen ▸ hall w hw

/-- Only a reserved name that is as long as names may be gets too long. -/
theorem Accepted.lt_name_length_iff {line : String} {limit : Nat} {p : Param}
    {before typed : List Char} (h : Accepted line limit p before typed) :
    limit < p.name.length ↔
      ∃ word, isReserved word = true ∧ word.length = limit ∧ p.name.toList = word ++ ['_'] := by
  have hshort := h.name_length
  rw [← String.length_toList]
  constructor
  · intro hlong
    -- A name that stays as it is has passed the check of its length.
    obtain hc | ⟨hr, hc⟩ := cleanName_cases (Text.trim before)
    · rw [h.name, hc] at hlong
      omega
    · rw [h.name, hc, List.length_append, List.length_singleton] at hlong
      exact ⟨Text.trim before, hr, by omega, h.name.trans hc⟩
  · rintro ⟨word, -, rfl, hn⟩
    rw [hn, List.length_append, List.length_singleton]
    omega

section Limit

variable {name command reported parameter : String} {doc : Doc} {limit bound : Nat}

theorem lt_length_of_mem_params_iff {p : Param} (h : p ∈ (infer name doc limit).entry.params) :
    limit < p.name.length ↔
      ∃ word, isReserved word = true ∧ word.length = limit ∧ p.name.toList = word ++ ['_'] := by
  obtain ⟨line, -, hd⟩ := exists_of_mem_params h
  obtain ⟨before, typed, ha⟩ := exists_of_declaration? hd
  exact ha.lt_name_length_iff

theorem parameterNameTooLong_mem_infer_iff :
    .parameterNameTooLong reported parameter bound ∈
        (infer name doc limit).entry.check command limit ↔
      reported = command ∧ bound = limit ∧
        (∃ p ∈ (infer name doc limit).entry.params, p.name = parameter) ∧
        ∃ word, isReserved word = true ∧ word.length = limit ∧
          parameter.toList = word ++ ['_'] := by
  rw [Entry.parameterNameTooLong_mem_iff]
  refine and_congr_right fun _ => and_congr_right fun _ => ?_
  constructor
  · rintro ⟨p, hp, -, hlong, rfl⟩
    exact ⟨⟨p, hp, rfl⟩, (lt_length_of_mem_params_iff hp).1 hlong⟩
  · rintro ⟨⟨p, hp, rfl⟩, hword⟩
    have hblank := ((infer_wellFormed name doc limit).params p hp).not_blank
    exact ⟨p, hp, hblank, (lt_length_of_mem_params_iff hp).2 hword, rfl⟩

end Limit

/-- A check with the limit of the inference reports a name as too long exactly when it is a reserved
word of as many characters as the limit, with its underscore. No reserved word has more than ten
characters, so a limit above ten is kept. -/
theorem infer_name_limit (name : String) (doc : Doc) (limit : Nat) (command : String) :
    (∀ reported parameter bound,
      .parameterNameTooLong reported parameter bound ∈
          (infer name doc limit).entry.check command limit ↔
        reported = command ∧ bound = limit ∧
          (∃ p ∈ (infer name doc limit).entry.params, p.name = parameter) ∧
          ∃ word, isReserved word = true ∧ word.length = limit ∧
            parameter.toList = word ++ ['_']) ∧
    (10 < limit → ∀ reported parameter bound,
      .parameterNameTooLong reported parameter bound ∉
        (infer name doc limit).entry.check command limit) := by
  refine ⟨fun _ _ _ => parameterNameTooLong_mem_infer_iff, fun hlimit _ _ _ h => ?_⟩
  obtain ⟨-, -, -, word, hr, hlen, -⟩ := parameterNameTooLong_mem_infer_iff.1 h
  have := isReserved_length_le hr
  omega

/-- Documentation of a parameter with a reserved name. -/
def endDoc : Doc := ⟨[("Parameters", "end As Long")], by decide⟩

/-- The reserved name is reported where it just fits, and not where there is room. -/
theorem infer_name_limit_end :
    .parameterNameTooLong "Close" "end_" 3 ∈ (infer "Close" endDoc 3).entry.check "Close" 3 ∧
    .parameterNameTooLong "Close" "end_" 32 ∉ (infer "Close" endDoc 32).entry.check "Close" 32 := by
  have hparam : ⟨"end_", "Long"⟩ ∈ (infer "Close" endDoc 3).entry.params := by decide +kernel
  exact ⟨((infer_name_limit "Close" endDoc 3 "Close").1 _ _ _).2
      ⟨rfl, rfl, ⟨_, hparam, rfl⟩, ['e', 'n', 'd'], by decide, rfl, rfl⟩,
    (infer_name_limit "Close" endDoc 32 "Close").2 (by decide) _ _ _⟩

/-- Inference with a limit of three characters accepts a name that the check then finds too long. -/
theorem end_too_long : ∃ parameter,
    .parameterNameTooLong "Close" parameter 3 ∈ (infer "Close" endDoc 3).entry.check "Close" 3 :=
  ⟨"end_", by decide +kernel⟩

end HelpMiner.Signature
