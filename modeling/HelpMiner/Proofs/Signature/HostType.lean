import HelpMiner.Proofs.Signature.WellFormed

/-! Which recognized types have a host type, and which spellings have none although they are
recognized. -/
namespace HelpMiner.Signature

open Text (lower sameLetters)

/-! ## Keywords up to letter case -/

theorem map_foldCase {t : List Char} (ht : 'ſ' ∉ t) : t.map foldCase = lower t := by
  apply List.map_congr_left
  intro c hc
  have hne : c ≠ 'ſ' := fun h => ht (h ▸ hc)
  exact if_neg (by simpa using hne)

theorem not_mem_of_lower_eq {word t : List Char} (hw : 'ſ' ∉ word) (h : lower word = lower t) :
    'ſ' ∉ t := by
  intro hm
  have hlower : 'ſ' ∈ lower word := by
    rw [h]
    exact List.mem_map.2 ⟨'ſ', hm, by decide⟩
  obtain ⟨c, hc, he⟩ := List.mem_map.1 hlower
  have hs : ('ſ' : Char).toLower = 'ſ' := by decide
  obtain rfl : c = 'ſ' := Text.eq_of_toLower_eq (by decide) (he.trans hs.symm)
  exact hw hc

/-- To have the same letters is to be the same word in some letter case, but for the long s. -/
theorem sameLetters_iff {word t : List Char} (hw : 'ſ' ∉ word) :
    sameLetters word t = true ↔ InCase word t ∧ 'ſ' ∉ t := by
  unfold sameLetters InCase
  rw [beq_iff_eq, map_foldCase hw]
  constructor
  · intro h
    have ht := not_mem_of_lower_eq hw h
    exact ⟨by rw [map_foldCase ht, h], ht⟩
  · rintro ⟨h, ht⟩
    rw [← map_foldCase ht, h]

theorem keyword_plain : ∀ k ∈ typeKeywords, 'ſ' ∉ k.1.toList := by decide

/-- A keyword begins with no stem but its own. -/
theorem eq_of_stem_front : ∀ k ∈ typeKeywords, ∀ l ∈ typeKeywords,
    (keywordStem k.1).map foldCase <+: l.1.toList.map foldCase → l.1 = k.1 := by decide

theorem keywordStem_second : ∀ k ∈ typeKeywords, 1 < ((keywordStem k.1).map foldCase).length ∧
    ((keywordStem k.1).map foldCase)[1]? ≠ some '_' := by decide

/-- What follows the stem of a keyword in it is an underscore or nothing. -/
theorem eq_of_inCase_stem_append {k : String × HostType} (hk : k ∈ typeKeywords)
    {t rest : List Char} (ht : InCase (keywordStem k.1) t) (h : InCase k.1.toList (t ++ rest)) :
    k.1.toList = keywordStem k.1 ++ rest := by
  unfold InCase at ht h
  rw [List.map_append, ht] at h
  obtain he | he := keyword_eq_stem k hk
  · have hrest : rest.map foldCase = [] := by
      rw [he] at h
      exact List.append_right_eq_self.1 h
    rw [List.map_eq_nil_iff.1 hrest, List.append_nil]
    exact he
  · rw [he, List.map_append] at h
    have hrest : InCase ([] ++ ['_']) rest := List.append_cancel_left h
    obtain ⟨u, rfl, hu⟩ := hrest.underscore
    rw [List.map_eq_nil_iff.1 hu]
    exact he

/-- A text that begins with the stem of a keyword is in the table if it is that keyword. -/
theorem find?_keyword_eq_none_iff {k : String × HostType} (hk : k ∈ typeKeywords)
    {t rest : List Char} (ht : InCase (keywordStem k.1) t) :
    (typeKeywords.find? fun l => sameLetters l.1.toList (t ++ rest)) = none ↔
      'ſ' ∈ t ∨ k.1.toList ≠ keywordStem k.1 ++ rest := by
  rw [List.find?_eq_none]
  constructor
  · intro h
    by_contra hn
    rw [not_or, not_not] at hn
    obtain ⟨hplain, hkey⟩ := hn
    refine h k hk ((sameLetters_iff (keyword_plain k hk)).2 ⟨?_, ?_⟩)
    · unfold InCase at ht ⊢
      rw [hkey, List.map_append, List.map_append, ht]
    · have hrest := keyword_plain k hk
      rw [hkey, List.mem_append, not_or] at hrest
      rw [List.mem_append, not_or]
      exact ⟨hplain, hrest.2⟩
  · intro h l hl hs
    obtain ⟨hcase, hplain⟩ := (sameLetters_iff (keyword_plain l hl)).1 hs
    have hfront : (keywordStem k.1).map foldCase <+: l.1.toList.map foldCase := by
      rw [← hcase, List.map_append, ht]
      exact List.prefix_append _ _
    rw [eq_of_stem_front k hk l hl hfront] at hcase
    obtain h | h := h
    · exact hplain (List.mem_append_left rest h)
    · exact h (eq_of_inCase_stem_append hk ht hcase)

/-! ## Records -/

theorem eq_of_toLower_t {c : Char} (h : c.toLower = 't') : c = 'T' ∨ c = 't' := by
  unfold Char.toLower at h
  split at h
  · left
    have hval : c.val + 32 = 116 := congrArg Char.val h
    apply Char.ext
    change c.val = 84
    grind
  · exact Or.inr h

theorem exists_of_inCase_recordLead {t : List Char} (h : InCase recordLead.toList t) :
    t = ['T', '_'] ∨ t = ['t', '_'] := by
  have hlead : InCase (['T'] ++ ['_']) t := h
  obtain ⟨u, rfl, hu⟩ := hlead.underscore
  obtain ⟨c, rfl, hc⟩ := List.map_eq_singleton_iff.1 hu
  have hplain : c ≠ 'ſ' := by
    rintro rfl
    exact absurd hc (by decide)
  have hlower : c.toLower = 't' := by
    unfold foldCase at hc
    rwa [if_neg (by simpa using hplain)] at hc
  obtain rfl | rfl := eq_of_toLower_t hlower
  · exact Or.inl rfl
  · exact Or.inr rfl

/-- No keyword begins like a record's name. -/
theorem not_front_recordLead {k : String × HostType} (hk : k ∈ typeKeywords) {t rest : List Char}
    (ht : InCase (keywordStem k.1) t) : recordLead.toList.isPrefixOf (t ++ rest) = false := by
  obtain ⟨hlength, hsecond⟩ := keywordStem_second k hk
  by_contra hlead
  rw [Bool.not_eq_false, List.isPrefixOf_iff_prefix] at hlead
  obtain ⟨more, hmore⟩ := hlead
  have hfold : ((t ++ rest).map foldCase)[1]? = some '_' := by
    rw [← hmore]
    rfl
  rw [List.map_append, ht, List.getElem?_append_left hlength] at hfold
  exact hsecond hfold

theorem keyword_second : ∀ k ∈ typeKeywords, (k.1.toList.map foldCase)[1]? ≠ some '_' := by decide

/-- A record's name in lower case is neither a record nor a keyword. -/
theorem find?_smallRecord (rest : List Char) :
    (typeKeywords.find? fun k => sameLetters k.1.toList ('t' :: '_' :: rest)) = none := by
  rw [List.find?_eq_none]
  intro k hk hs
  obtain ⟨hcase, -⟩ := (sameLetters_iff (keyword_plain k hk)).1 hs
  apply keyword_second k hk
  rw [← hcase]
  rfl

/-! ## Types without a host type -/

/-- A spelling that begins as types do and has no host type: a keyword that is not as the table has
it, or the name of a record with its first letter in lower case. -/
inductive Unlisted : List Char → Prop where
  | keyword {k : String × HostType} {t rest : List Char} (hk : k ∈ typeKeywords)
      (ht : InCase (keywordStem k.1) t) (h : 'ſ' ∈ t ∨ k.1.toList ≠ keywordStem k.1 ++ rest) :
      Unlisted (t ++ rest)
  | record (rest : List Char) : Unlisted ('t' :: '_' :: rest)

theorem ofDocumented?_eq_none_iff {s : String} (hs : Text.Inked s.toList) :
    HostType.ofDocumented? s = none ↔ recordLead.toList.isPrefixOf s.toList = false ∧
      (typeKeywords.find? fun k => sameLetters k.1.toList s.toList) = none := by
  unfold HostType.ofDocumented?
  simp only [Text.trim_inked hs]
  split
  · rename_i hlead
    simp [hlead]
  · rename_i hlead
    simp [hlead]

theorem unlisted_iff {s : String} (hs : Text.Inked s.toList) (ht : TypeText s.toList) :
    HostType.ofDocumented? s = none ↔ Unlisted s.toList := by
  rw [ofDocumented?_eq_none_iff hs]
  constructor
  · rintro ⟨hlead, hfind⟩
    obtain ⟨lead, rest, he, htype⟩ := ht
    rw [he] at hlead hfind ⊢
    cases htype with
    | keyword hk hcase =>
      exact .keyword hk hcase ((find?_keyword_eq_none_iff hk hcase).1 hfind)
    | underscored hk hcase =>
      rw [List.append_assoc] at hfind ⊢
      exact .keyword hk hcase ((find?_keyword_eq_none_iff hk hcase).1 hfind)
    | record hcase =>
      obtain rfl | rfl := exists_of_inCase_recordLead hcase
      · cases hlead
      · exact .record rest
  · intro h
    generalize s.toList = u at h ⊢
    cases h with
    | keyword hk hcase hodd =>
      exact ⟨not_front_recordLead hk hcase, (find?_keyword_eq_none_iff hk hcase).2 hodd⟩
    | record rest => exact ⟨rfl, find?_smallRecord rest⟩

/-- The name of a record is told by its lead. -/
theorem exists_of_ofDocumented?_record {s n : String}
    (h : HostType.ofDocumented? s = some (.record n)) : ∃ rest, n.toList = 'T' :: '_' :: rest := by
  unfold HostType.ofDocumented? at h
  simp only at h
  split at h
  · rename_i hlead
    obtain ⟨rest, hrest⟩ := List.isPrefixOf_iff_prefix.1 hlead
    cases h
    exact ⟨rest, by rw [String.toList_ofList, ← hrest]; rfl⟩
  · obtain ⟨k, hk, hrecord⟩ := Option.map_eq_some_iff.1 h
    have hplain : ∀ k ∈ typeKeywords, ∀ n, k.2 ≠ .record n := by
      simp [typeKeywords]
    exact absurd hrecord (hplain k (List.mem_of_find?_eq_some hk) n)

theorem ne_unknown_of_head? {s : String} {c : Char} (h : s.toList.head? = some c) (hc : c ≠ 'u') :
    s ≠ "unknown" := by
  rintro rfl
  exact hc (Option.some.inj h).symm

/-- A type is shown as unknown if it has no host type, or by its name if it has no counterpart. -/
theorem showType?_eq_unknown_iff (s : String) (rendering : Rendering) :
    showType? s rendering = some "unknown" ↔ HostType.ofDocumented? s = none ∨
      HostType.ofDocumented? s = some .noAnalogue ∧ rendering = .str := by
  unfold showType?
  cases hs : HostType.ofDocumented? s with
  | none => simp
  | some t =>
    cases t with
    | record n =>
      obtain ⟨rest, hn⟩ := exists_of_ofDocumented?_record hs
      have htype : "record " ++ n ≠ "unknown" :=
        ne_unknown_of_head? (c := 'r') (by rw [String.toList_append]; rfl) (by decide)
      have hrepr : "<record '" ++ n ++ "'>" ≠ "unknown" :=
        ne_unknown_of_head? (c := '<') (by rw [String.append_assoc, String.toList_append]; rfl)
          (by decide)
      have hstr : n ≠ "unknown" := ne_unknown_of_head? (c := 'T') (by rw [hn]; rfl) (by decide)
      cases rendering with
      | type => simpa using htype
      | repr => simpa using hrepr
      | str => simpa [HostType.name] using hstr
    | noAnalogue => cases rendering <;> decide
    | bool => cases rendering <;> decide
    | int => cases rendering <;> decide
    | float => cases rendering <;> decide
    | str => cases rendering <;> decide

/-- A declared type has no host type just if its spelling is one of the unlisted, and only then is
it shown as unknown, but for the types without a counterpart by their name. -/
theorem declaration?_hostType {line : String} {limit : Nat} {p : Param}
    (h : declaration? line limit = some p) :
    (HostType.ofDocumented? p.type = none ↔ Unlisted p.type.toList) ∧
    ∀ rendering, showType? p.type rendering = some "unknown" ↔
      Unlisted p.type.toList ∨
        HostType.ofDocumented? p.type = some .noAnalogue ∧ rendering = .str := by
  obtain ⟨before, typed, ha⟩ := exists_of_declaration? h
  have hunlisted := unlisted_iff ha.type_inked ha.typeText
  refine ⟨hunlisted, fun rendering => ?_⟩
  rw [showType?_eq_unknown_iff, hunlisted]

/-- A keyword as the table has it has a host type, whatever the letter case. -/
theorem declaration?_hostType_huge : declaration? "n As hUGE_" 32 = some ⟨"n", "hUGE_"⟩ ∧
    ¬ Unlisted "hUGE_".toList ∧ showType? "hUGE_" .str ≠ some "unknown" := by
  have hdeclared : declaration? "n As hUGE_" 32 = some ⟨"n", "hUGE_"⟩ := by decide +kernel
  have hint : HostType.ofDocumented? "hUGE_" = some .int := by decide
  obtain ⟨hnone, hshown⟩ := declaration?_hostType hdeclared
  have hlisted : ¬ Unlisted "hUGE_".toList := by
    rw [← hnone, hint]
    nofun
  refine ⟨hdeclared, hlisted, ?_⟩
  rw [Ne, hshown, hint]
  rintro (h | ⟨h, -⟩)
  · exact hlisted h
  · cases h

/-- A keyword without the underscore that the table has is recognized, and has no host type. -/
theorem huge_unknown : declaration? "n As Huge" 32 = some ⟨"n", "Huge"⟩ ∧
    (∀ c ∈ "Huge".toList, Text.isWord c = true) ∧ HostType.ofDocumented? "Huge" = none ∧
    showType? "Huge" .str = some "unknown" := by
  have hletters : "Huge".toList.all Char.isAlpha = true := by decide
  refine ⟨?_, fun c hc => isWord_of_isAlpha (List.all_eq_true.1 hletters c hc), ?_, ?_⟩
  · decide +kernel
  · decide
  · decide

end HelpMiner.Signature
