import HelpMiner.Proofs.Signature.LetterCase

/-! Types recognized at the front of a text. -/
namespace HelpMiner.Signature

open Text (isWord isAsciiWord)

/-! ## Keywords -/

theorem keywordStem_plain : ∀ k ∈ typeKeywords, 'ſ' ∉ keywordStem k.1 := by decide

theorem keywordStem_alpha : ∀ k ∈ typeKeywords, ∀ c ∈ keywordStem k.1, c.isAlpha = true := by
  have h : ∀ k ∈ typeKeywords, (keywordStem k.1).all Char.isAlpha = true := by decide
  intro k hk
  exact List.all_eq_true.1 (h k hk)

/-- Keywords have at most one underscore, at the end. -/
theorem keyword_eq_stem : ∀ k ∈ typeKeywords,
    k.1.toList = keywordStem k.1 ∨ k.1.toList = keywordStem k.1 ++ ['_'] := by decide

theorem atWordEnd_underscore (s : List Char) : atWordEnd ('_' :: s) = false := by
  have hw : isWord '_' = true := by decide
  simp [atWordEnd, hw]

theorem InCase.underscore {word t : List Char} (h : InCase (word ++ ['_']) t) :
    ∃ u, t = u ++ ['_'] ∧ InCase word u := by
  have hl : t.map foldCase = word.map foldCase ++ [foldCase '_'] := by
    rw [h, List.map_append]
    rfl
  obtain ⟨u, v, rfl, hu, hv⟩ := List.map_eq_append_iff.1 hl
  obtain ⟨c, rfl, hc⟩ := List.map_eq_singleton_iff.1 hv
  have hs : foldCase '_' = '_' := by decide
  rw [hs] at hc
  have hcs : c ≠ 'ſ' := by
    rintro rfl
    exact absurd hc (by decide)
  unfold foldCase at hc
  rw [if_neg (by simpa using hcs)] at hc
  have hcu : c = '_' := Text.eq_of_toLower_eq (by decide) hc
  exact ⟨u, by rw [hcu], hu⟩

theorem afterKeyword?_append {k : String × HostType} (hk : k ∈ typeKeywords) {t after : List Char}
    (ht : InCase k.1.toList t ∨ InCase (keywordStem k.1) t) (ha : atWordEnd after = true) :
    afterKeyword? k.1 (t ++ after) = some after := by
  have hstem : ∀ u, InCase (keywordStem k.1) u → afterKeyword? k.1 (u ++ after) = some after := by
    intro u hu
    unfold afterKeyword?
    rw [afterWord?_append (keywordStem_plain k hk) hu]
    cases after with
    | nil => rfl
    | cons c rest =>
      have hc : c ≠ '_' := by
        rintro rfl
        rw [atWordEnd_underscore] at ha
        cases ha
      simp [hc, ha]
  obtain ht | ht := ht
  · obtain he | he := keyword_eq_stem k hk
    · rw [he] at ht
      exact hstem t ht
    · rw [he] at ht
      obtain ⟨u, rfl, hu⟩ := ht.underscore
      unfold afterKeyword?
      rw [List.append_assoc, afterWord?_append (keywordStem_plain k hk) hu]
      simp [ha]
  · exact hstem t ht

/-- What the name of a type begins with: a keyword in any letter case, with or without an
underscore, or the lead of a record's name. -/
inductive TypeLead : List Char → Prop where
  | keyword {k : String × HostType} {t : List Char} (hk : k ∈ typeKeywords)
      (ht : InCase (keywordStem k.1) t) : TypeLead t
  | underscored {k : String × HostType} {t : List Char} (hk : k ∈ typeKeywords)
      (ht : InCase (keywordStem k.1) t) : TypeLead (t ++ ['_'])
  | record {t : List Char} (ht : InCase recordLead.toList t) : TypeLead t

theorem recordLead_isWord : ∀ c ∈ recordLead.toList, isWord c = true := by
  have hlead : recordLead.toList.all isAsciiWord = true := by decide
  exact fun c hc => isWord_of_isAsciiWord (List.all_eq_true.1 hlead c hc)

theorem TypeLead.isWord {t : List Char} (h : TypeLead t) : ∀ c ∈ t, Text.isWord c = true := by
  have hstem : ∀ {k : String × HostType} {u : List Char}, k ∈ typeKeywords →
      InCase (keywordStem k.1) u → ∀ c ∈ u, Text.isWord c = true :=
    fun hk hu => hu.isWord fun c hc => isWord_of_isAlpha (keywordStem_alpha _ hk c hc)
  cases h with
  | keyword hk ht => exact hstem hk ht
  | underscored hk ht =>
    intro c hc
    obtain hc | hc := List.mem_append.1 hc
    · exact hstem hk ht c hc
    · rw [List.mem_singleton.1 hc]
      decide
  | record ht => exact ht.isWord recordLead_isWord

theorem TypeLead.ne_nil {t : List Char} (h : TypeLead t) : t ≠ [] := by
  cases h with
  | keyword hk ht => exact ht.ne_nil (List.ne_nil_of_length_pos (keywordStem_length_pos _ hk))
  | underscored hk ht => simp
  | record ht => exact ht.ne_nil (by decide)

/-- A keyword that is read is a word that ends there. -/
theorem exists_of_afterKeyword? {k : String × HostType} (hk : k ∈ typeKeywords)
    {s rest : List Char} (h : afterKeyword? k.1 s = some rest) :
    atWordEnd rest = true ∧ ∃ t, s = t ++ rest ∧ TypeLead t := by
  unfold afterKeyword? at h
  split at h
  · rename_i r hr
    obtain ⟨t, hs, ht⟩ := exists_of_afterWord? (keywordStem_plain k hk) hr
    split at h
    · rename_i ha
      cases h
      exact ⟨ha, t ++ ['_'], by rw [hs, List.append_assoc]; rfl, .underscored hk ht⟩
    · cases h
  · rename_i r _ hr
    obtain ⟨t, hs, ht⟩ := exists_of_afterWord? (keywordStem_plain k hk) hr
    split at h
    · rename_i ha
      cases h
      exact ⟨ha, t, hs, .keyword hk ht⟩
    · cases h
  · cases h

/-! ## Types -/

/-- The letters that types begin with, in lower case. -/
def typeInitials : List Char := recordLead.toList.head?.toList.map foldCase ++
  typeKeywords.flatMap fun k => (keywordStem k.1).head?.toList.map foldCase

theorem afterType?_eq_none {c : Char} (hc : foldCase c ∉ typeInitials) (s : List Char) :
    afterType? (c :: s) = none := by
  have hkey : ∀ k ∈ typeKeywords, afterKeyword? k.1 (c :: s) = none := by
    intro k hk
    cases hst : keywordStem k.1 with
    | nil => exact absurd hst (List.ne_nil_of_length_pos (keywordStem_length_pos k hk))
    | cons l stem =>
      have hl : foldCase l ∈ typeInitials := by
        refine List.mem_append_right _ (List.mem_flatMap.2 ⟨k, hk, ?_⟩)
        rw [hst]
        exact List.mem_singleton_self _
      have hplain : l ≠ 'ſ' := fun h =>
        keywordStem_plain k hk (by rw [hst, h]; exact List.mem_cons_self)
      have hne : sameLetter l c = false := by
        rw [Bool.eq_false_iff, Ne, sameLetter_iff hplain]
        intro h
        exact hc (h ▸ hl)
      unfold afterKeyword?
      rw [hst, afterWord?_cons_of_ne hne]
  have hrec : sameLetter 'T' c = false := by
    rw [Bool.eq_false_iff, Ne, sameLetter_iff (by decide)]
    intro h
    exact hc (h ▸ (by decide))
  unfold afterType?
  rw [List.findSome?_eq_none_iff.2 hkey]
  exact afterWord?_cons_of_ne hrec _ s

/-- A type that is read stands at the front, and what is read of it is what types begin with. -/
theorem exists_of_type? {s t rest : List Char} (h : type? s = some (t, rest)) :
    s = t ++ rest ∧ TypeLead t := by
  obtain ⟨r, hr, he⟩ := Option.map_eq_some_iff.1 h
  have hlead : ∃ u, s = u ++ r ∧ TypeLead u := by
    unfold afterType? at hr
    split at hr
    · rename_i r' hf
      cases hr
      obtain ⟨k, hk, hr⟩ := List.exists_of_findSome?_eq_some hf
      exact (exists_of_afterKeyword? hk hr).2
    · obtain ⟨u, hs, hu⟩ := exists_of_afterWord? (by decide) hr
      exact ⟨u, hs, .record hu⟩
  obtain ⟨u, rfl, hu⟩ := hlead
  obtain ⟨rfl, rfl⟩ : (u ++ r).take ((u ++ r).length - r.length) = t ∧ r = rest := by
    simpa using he
  simp [hu]

/-- A keyword before the end of a word is read as a whole. -/
theorem type?_keyword {k : String × HostType} (hk : k ∈ typeKeywords) {t after : List Char}
    (ht : InCase k.1.toList t ∨ InCase (keywordStem k.1) t) (hw : ∀ c ∈ t, isWord c = true)
    (ha : atWordEnd after = true) : type? (t ++ after) = some (t, after) := by
  have hafter : afterType? (t ++ after) = some after := by
    unfold afterType?
    cases hf : typeKeywords.findSome? fun k => afterKeyword? k.1 (t ++ after) with
    | none =>
      have hn := List.findSome?_eq_none_iff.1 hf k hk
      rw [afterKeyword?_append hk ht ha] at hn
      cases hn
    | some rest =>
      obtain ⟨j, hj, hr⟩ := List.exists_of_findSome?_eq_some hf
      -- Another keyword may come first in the table, but both end where the word ends.
      obtain ⟨hre, u, hs, hu⟩ := exists_of_afterKeyword? hj hr
      rw [(word_unique hw ha hu.isWord hre hs).2]
  unfold type?
  rw [hafter]
  simp

/-- Of a record's name only the lead is read. -/
theorem type?_record (s : List Char) :
    type? (recordLead.toList ++ s) = some (recordLead.toList, s) := by
  have hkey : ∀ k ∈ typeKeywords, afterKeyword? k.1 (recordLead.toList ++ s) = none := by
    intro k hk
    simp only [typeKeywords, List.mem_cons, List.not_mem_nil, or_false] at hk
    obtain rfl | rfl | rfl | rfl | rfl | rfl | rfl | rfl | rfl | rfl := hk <;> rfl
  have hafter : afterType? (recordLead.toList ++ s) = some s := by
    unfold afterType?
    rw [List.findSome?_eq_none_iff.2 hkey]
    exact afterWord?_append (by decide) rfl s
  unfold type?
  rw [hafter]
  simp

theorem IsType.isWord {t : List Char} (h : IsType t) : ∀ c ∈ t, Text.isWord c = true := by
  cases h with
  | @keyword k t hk ht =>
    have hstem : ∀ c ∈ keywordStem k.1, Text.isWord c = true :=
      fun c hc => isWord_of_isAlpha (keywordStem_alpha k hk c hc)
    obtain ht | ht := ht
    · apply ht.isWord
      obtain he | he := keyword_eq_stem k hk
      · rwa [he]
      · intro c hc
        rw [he, List.mem_append, List.mem_singleton] at hc
        obtain hc | rfl := hc
        · exact hstem c hc
        · decide
    · exact ht.isWord hstem
  | record hr =>
    intro c hc
    obtain hc | hc := List.mem_append.1 hc
    · exact recordLead_isWord c hc
    · exact isWord_of_isAsciiWord (hr c hc)

/-- A type is read from its front. What is not read of it is a stretch of a word. -/
theorem IsType.type? {t : List Char} (h : IsType t) : ∃ front back, t = front ++ back ∧
    (∀ c ∈ back, Text.isWord c = true) ∧ ∀ after, atWordEnd after = true →
      type? (t ++ after) = some (front, back ++ after) := by
  have hw := h.isWord
  cases h with
  | keyword hk ht =>
    refine ⟨t, [], by simp, by simp, ?_⟩
    intro after ha
    exact type?_keyword hk ht hw ha
  | @record rest hr =>
    refine ⟨recordLead.toList, rest, rfl, fun c hc => isWord_of_isAsciiWord (hr c hc), ?_⟩
    intro after _
    rw [List.append_assoc]
    exact type?_record _

/-- No type is a qualifier. -/
theorem IsType.not_qualifier {t : List Char} (h : IsType t) :
    ∀ q ∈ qualifiers, ¬ InCase q.toList t := by
  intro q hq hqt
  cases h with
  | @keyword k t hk ht =>
    have hne : ∀ q ∈ qualifiers, ∀ k ∈ typeKeywords,
        q.toList.map foldCase ≠ k.1.toList.map foldCase ∧
        q.toList.map foldCase ≠ (keywordStem k.1).map foldCase := by decide
    obtain ht | ht := ht
    · exact (hne q hq k hk).1 (hqt.symm.trans ht)
    · exact (hne q hq k hk).2 (hqt.symm.trans ht)
  | record hr =>
    have hne : ∀ q ∈ qualifiers, (q.toList.map foldCase).head? ≠ some 't' := by decide
    apply hne q hq
    rw [← hqt]
    rfl

theorem IsType.ne_nil {t : List Char} (h : IsType t) : t ≠ [] := by
  cases h with
  | @keyword k t hk ht =>
    obtain ht | ht := ht
    · apply ht.ne_nil
      have hne : ∀ k ∈ typeKeywords, k.1.toList ≠ [] := by decide
      exact hne k hk
    · exact ht.ne_nil (List.ne_nil_of_length_pos (keywordStem_length_pos k hk))
  | record hr => simp [recordLead]

end HelpMiner.Signature
