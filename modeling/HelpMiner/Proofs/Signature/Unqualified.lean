import HelpMiner.Proofs.Signature.Link

/-! Text without qualifiers, word by word: what stripping leaves, and what unifying connectors and
trimming keep. -/
namespace HelpMiner.Signature

open Text (isWord isBlank)

/-- What stands after another character than one of a word. -/
theorem Unqualified.of_append {front s : List Char} {c : Char} (hc : isWord c = false)
    {inWord : Bool} (h : Unqualified inWord (front ++ c :: s)) : Unqualified false s := by
  induction front generalizing inWord with
  | nil => exact (unqualified_mark hc).1 h
  | cons d front ih =>
    rw [List.cons_append] at h
    by_cases hd : isWord d = true
    · exact ih ((unqualified_cons hd).1 h).2
    · exact ih ((unqualified_mark (Bool.eq_false_of_not_eq_true hd)).1 h)

theorem atWordEnd_dropWhile (s : List Char) : atWordEnd (s.dropWhile isWord) = true := by
  cases hd : s.dropWhile isWord with
  | nil => rfl
  | cons c rest =>
    have hc := List.head_dropWhile_not isWord (l := s) (by simp [hd])
    simpa [hd, atWordEnd] using hc

theorem takeWhile_append_end {after : List Char} (ha : atWordEnd after = true) (s : List Char) :
    (s ++ after).takeWhile isWord = s.takeWhile isWord := by
  have hend := atWordEnd_append ha (s.dropWhile isWord)
  rw [atWordEnd_dropWhile] at hend
  have hword := takeWhile_word (t := s.takeWhile isWord) (fun _ => List.mem_takeWhile_imp) hend
  rwa [← List.append_assoc, List.takeWhile_append_dropWhile] at hword

theorem Unqualified.of_append_end {s after : List Char} (ha : atWordEnd after = true)
    {inWord : Bool} (h : Unqualified inWord (s ++ after)) : Unqualified inWord s := by
  induction s generalizing inWord with
  | nil => exact Unqualified.nil inWord
  | cons c s ih =>
    rw [List.cons_append] at h
    by_cases hc : isWord c = true
    · obtain ⟨hfirst, hs⟩ := (unqualified_cons hc).1 h
      rw [takeWhile_append_end ha] at hfirst
      exact (unqualified_cons hc).2 ⟨hfirst, ih hs⟩
    · have hc := Bool.eq_false_of_not_eq_true hc
      exact (unqualified_mark hc).2 (ih ((unqualified_mark hc).1 h))

/-! ## Stripping -/

/-- A word at which no qualifier is found is none. -/
theorem free_of_afterQualifier? {c : Char} {s : List Char}
    (h : afterQualifier? false (c :: s) = none) : Free (c :: s.takeWhile isWord) := by
  intro q hq hw
  have hfound := afterQualifier?_qualifier hq hw (atWordEnd_dropWhile s)
  rw [List.cons_append, List.takeWhile_append_dropWhile, h] at hfound
  cases hfound

theorem takeWhile_of_afterQualifier? {s rest : List Char}
    (h : afterQualifier? true s = some rest) : s.takeWhile isWord = [] := by
  cases s with
  | nil => rfl
  | cons c s =>
    apply List.takeWhile_cons_of_neg
    intro hc
    rw [afterQualifier?_inWord (isBlank_of_isWord hc)] at h
    cases h

/-- Stripping leaves no qualifier, and a word that goes on goes on as before. -/
theorem unqualified_stripQualifiers (inWord : Bool) (s : List Char) :
    Unqualified inWord (stripQualifiers inWord s) ∧ (inWord = true →
      (stripQualifiers inWord s).takeWhile isWord = s.takeWhile isWord) := by
  have hspace : isWord ' ' = false := by decide
  fun_induction stripQualifiers inWord s with
  | case1 inWord s rest h ih =>
    refine ⟨(unqualified_mark hspace).2 ih.1, ?_⟩
    rintro rfl
    rw [takeWhile_of_afterQualifier? h, List.takeWhile_cons_of_neg (by simp [hspace])]
  | case2 inWord h => exact ⟨Unqualified.nil inWord, fun _ => rfl⟩
  | case3 inWord c rest h ih =>
    by_cases hc : isWord c = true
    · rw [hc] at ih ⊢
      have hgoes : (c :: stripQualifiers true rest).takeWhile isWord =
          (c :: rest).takeWhile isWord := by
        rw [List.takeWhile_cons_of_pos hc, List.takeWhile_cons_of_pos hc, ih.2 rfl]
      refine ⟨(unqualified_cons hc).2 ⟨?_, ih.1⟩, fun _ => hgoes⟩
      rintro rfl
      rw [ih.2 rfl]
      exact free_of_afterQualifier? h
    · have hneg := Bool.eq_false_of_not_eq_true hc
      rw [hneg] at ih ⊢
      refine ⟨(unqualified_mark hneg).2 ih.1, fun _ => ?_⟩
      rw [List.takeWhile_cons_of_neg hc, List.takeWhile_cons_of_neg hc]

/-! ## Unifying and trimming -/

theorem unqualified_connector {inWord : Bool} {s : List Char} (h : Unqualified false s) :
    Unqualified inWord (connector ++ s) := by
  have has : InCase ['a', 's'] ['A', 's'] := rfl
  have hspace : isWord ' ' = false := by decide
  have hend : atWordEnd (' ' :: s) = true := by simp [atWordEnd, hspace]
  have hword : Unqualified false (['A', 's'] ++ ' ' :: s) :=
    ((unqualified_mark hspace).2 h).word (has.isWord as_isWord) hend (free_as has)
  exact (unqualified_mark hspace).2 hword

/-- Connectors are unified between words, so that all other words stay. -/
theorem Unqualified.unify {inWord : Bool} {s : List Char} (h : Unqualified inWord s) :
    Unqualified inWord (unifyConnectors s) ∧
      (unifyConnectors s).takeWhile isWord = s.takeWhile isWord := by
  fun_induction unifyConnectors s generalizing inWord with
  | case1 s t rest hc ih =>
    obtain ⟨conn, hlink, rfl, ht⟩ := exists_of_connected? hc
    obtain ⟨⟨c, front, hfirst, hcw⟩, init, d, hlast, hdw⟩ := hlink.ends
    have hword := (exists_of_type? ht).2.isWord
    rw [hlast, List.append_assoc, List.singleton_append] at h
    obtain ⟨hfree, hrest⟩ := (unqualified_word hword).1 (h.of_append hdw)
    have hgoesOn : Unqualified true rest := ⟨Bool.noConfusion, hrest⟩
    obtain ⟨hih, hgoes⟩ := ih hgoesOn
    have htype : Unqualified false (t ++ unifyConnectors rest) :=
      (unqualified_word hword).2 ⟨hgoes.symm ▸ hfree, hih.others⟩
    refine ⟨by rw [List.append_assoc]; exact unqualified_connector htype, ?_⟩
    rw [hfirst, List.cons_append, List.takeWhile_cons_of_neg (by simp [hcw])]
    rfl
  | case2 => exact ⟨h, rfl⟩
  | case3 c rest hc ih =>
    by_cases hw : isWord c = true
    · obtain ⟨hfree, hrest⟩ := (unqualified_cons hw).1 h
      obtain ⟨hih, hgoes⟩ := ih hrest
      refine ⟨(unqualified_cons hw).2 ⟨hgoes.symm ▸ hfree, hih⟩, ?_⟩
      rw [List.takeWhile_cons_of_pos hw, List.takeWhile_cons_of_pos hw, hgoes]
    · have hneg := Bool.eq_false_of_not_eq_true hw
      have hih := ih ((unqualified_mark hneg).1 h)
      refine ⟨(unqualified_mark hneg).2 hih.1, ?_⟩
      rw [List.takeWhile_cons_of_neg hw, List.takeWhile_cons_of_neg hw]

theorem atWordEnd_of_blank {s : List Char} (hs : ∀ c ∈ s, isBlank c = true) :
    atWordEnd s = true := by
  cases s with
  | nil => rfl
  | cons c s =>
    have hc := Text.isWord_of_isBlank (hs c List.mem_cons_self)
    simp [atWordEnd, hc]

theorem Unqualified.trim {s : List Char} (h : Unqualified false s) :
    Unqualified false (Text.trim s) := by
  obtain ⟨lead, trail, hs, hlead, htrail⟩ := Text.exists_trimWhile isBlank s
  rw [hs] at h
  exact ((unqualified_blanks hlead).1 h).of_append_end (atWordEnd_of_blank htrail)

/-- No word of a normal form is a qualifier. -/
theorem unqualified_normalizeChars (line : List Char) : Unqualified false (normalizeChars line) :=
  (unqualified_stripQualifiers false line).1.unify.1.trim

end HelpMiner.Signature
