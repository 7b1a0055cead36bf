import HelpMiner.Proofs.Signature.Spelling

/-! Words, their ends, and words matched in any letter case. -/
namespace HelpMiner.Signature

open Text (isWord isAsciiWord isBlank)

/-! ## Words -/

theorem isWord_of_isAsciiWord {c : Char} (h : isAsciiWord c = true) : isWord c = true := by
  have hn : c.toNat < 128 := by
    have hc := h
    simp only [isAsciiWord, Char.isAlphanum, Char.isAlpha, Char.isUpper, Char.isLower,
      Char.isDigit, Bool.or_eq_true, Bool.and_eq_true, decide_eq_true_eq, beq_iff_eq, ge_iff_le,
      UInt32.le_iff_toNat_le] at hc
    change (((65 ≤ c.toNat ∧ c.toNat ≤ 90) ∨ (97 ≤ c.toNat ∧ c.toNat ≤ 122)) ∨
      (48 ≤ c.toNat ∧ c.toNat ≤ 57)) ∨ c = '_' at hc
    obtain hc | rfl := hc
    · omega
    · decide
  unfold isWord
  rw [if_pos hn, h]

theorem isWord_of_isAlpha {c : Char} (h : c.isAlpha = true) : isWord c = true := by
  apply isWord_of_isAsciiWord
  simp [isAsciiWord, Char.isAlphanum, h]

theorem isBlank_of_isWord {c : Char} (h : isWord c = true) : isBlank c = false := by
  by_contra hb
  have hw := Text.isWord_of_isBlank (Bool.eq_true_of_not_eq_false hb)
  rw [h] at hw
  cases hw

theorem isWord_foldCase (c : Char) : isWord (foldCase c) = isWord c := by
  unfold foldCase
  by_cases hs : c = 'ſ'
  · rw [hs]
    decide +kernel
  · rw [if_neg (by simpa using hs)]
    exact Text.toLower_stable (fun d hd => isWord_of_isAlpha hd) c

theorem InCase.isWord {word t : List Char} (h : InCase word t)
    (hw : ∀ l ∈ word, Text.isWord l = true) : ∀ c ∈ t, Text.isWord c = true := by
  intro c hc
  have hm : foldCase c ∈ word.map foldCase := h ▸ List.mem_map_of_mem hc
  obtain ⟨l, hl, he⟩ := List.mem_map.1 hm
  rw [← isWord_foldCase, ← he, isWord_foldCase]
  exact hw l hl

theorem InCase.ne_nil {word t : List Char} (h : InCase word t) (hw : word ≠ []) : t ≠ [] := by
  rintro rfl
  exact hw (List.map_eq_nil_iff.1 h.symm)

theorem InCase.length {word t : List Char} (h : InCase word t) : t.length = word.length := by
  have hl := congrArg List.length h
  rwa [List.length_map, List.length_map] at hl

theorem takeWhile_word {t after : List Char} (ht : ∀ c ∈ t, isWord c = true)
    (ha : atWordEnd after = true) : (t ++ after).takeWhile isWord = t := by
  rw [List.takeWhile_append_of_pos ht]
  cases after with
  | nil => simp
  | cons c after =>
    have hc : isWord c = false := by simpa [atWordEnd] using ha
    rw [List.takeWhile_cons_of_neg (by simp [hc]), List.append_nil]

/-- There is one way to read a word to its end. -/
theorem word_unique {t u after rest : List Char} (ht : ∀ c ∈ t, isWord c = true)
    (ha : atWordEnd after = true) (hu : ∀ c ∈ u, isWord c = true) (hr : atWordEnd rest = true)
    (h : t ++ after = u ++ rest) : t = u ∧ after = rest := by
  have htu : t = u := by rw [← takeWhile_word ht ha, h, takeWhile_word hu hr]
  rw [htu] at h
  exact ⟨htu, List.append_cancel_left h⟩

theorem atWordEnd_blanks {blanks : List Char} (hb : Blanks blanks) (hne : blanks ≠ [])
    (rest : List Char) : atWordEnd (blanks ++ rest) = true := by
  cases blanks with
  | nil => exact absurd rfl hne
  | cons b blanks =>
    have hw := Text.isWord_of_isBlank (hb b List.mem_cons_self).1
    simp [atWordEnd, hw]

/-! ## Matching in any letter case -/

theorem sameLetter_iff {l : Char} (hl : l ≠ 'ſ') (c : Char) :
    sameLetter l c = true ↔ foldCase c = foldCase l := by
  have hfl : foldCase l = l.toLower := if_neg (by simpa using hl)
  rw [hfl]
  unfold sameLetter foldCase
  by_cases hc : c = 'ſ'
  · have hne : l.toLower ≠ 'ſ' := by
      intro h
      exact hl (Text.eq_of_toLower_eq (by decide) h)
    have hs : ('ſ' : Char).toLower = 'ſ' := by decide
    rw [hc, hs, beq_eq_false_iff_ne.2 hne, Bool.false_or, beq_self_eq_true, Bool.and_true,
      if_pos rfl, beq_iff_eq]
    exact eq_comm
  · rw [beq_eq_false_iff_ne.2 hc, Bool.and_false, Bool.or_false, beq_iff_eq,
      if_neg Bool.false_ne_true]
    exact eq_comm

theorem afterWord?_append {word t : List Char} (hw : 'ſ' ∉ word) (h : InCase word t)
    (rest : List Char) : afterWord? word (t ++ rest) = some rest := by
  induction word generalizing t with
  | nil =>
    have ht : t = [] := List.map_eq_nil_iff.1 h
    rw [ht]
    rfl
  | cons l word ih =>
    cases t with
    | nil => cases h
    | cons c t =>
      obtain ⟨hc, ht⟩ := List.cons.inj h
      rw [List.mem_cons, not_or] at hw
      rw [List.cons_append, afterWord?, if_pos ((sameLetter_iff (Ne.symm hw.1) c).2 hc)]
      exact ih hw.2 ht

theorem exists_of_afterWord? {word s rest : List Char} (hw : 'ſ' ∉ word)
    (h : afterWord? word s = some rest) : ∃ t, s = t ++ rest ∧ InCase word t := by
  induction word generalizing s with
  | nil =>
    cases h
    exact ⟨[], rfl, rfl⟩
  | cons l word ih =>
    rw [List.mem_cons, not_or] at hw
    cases s with
    | nil => cases h
    | cons c s =>
      unfold afterWord? at h
      split at h
      · rename_i hc
        obtain ⟨t, hs, ht⟩ := ih hw.2 h
        refine ⟨c :: t, by rw [hs]; rfl, ?_⟩
        exact congrArg₂ List.cons ((sameLetter_iff (Ne.symm hw.1) c).1 hc) ht
      · cases h

theorem afterWord?_cons_of_ne {l c : Char} (h : sameLetter l c = false) (word s : List Char) :
    afterWord? (l :: word) (c :: s) = none := by
  rw [afterWord?, h]
  rfl

end HelpMiner.Signature
