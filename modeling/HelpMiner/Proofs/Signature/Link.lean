import HelpMiner.Proofs.Signature.Reading

/-! Connectors wherever they stand in a text: what they are made of, and how they are found. -/
namespace HelpMiner.Signature

open Text (isWord isBlank)

/-! ## Types before the end of a word -/

theorem atWordEnd_append {after : List Char} (ha : atWordEnd after = true) (s : List Char) :
    atWordEnd (s ++ after) = atWordEnd s := by
  cases s with
  | nil => exact ha
  | cons c s => rfl

theorem afterWord?_append_end {word after : List Char} (hp : 'ſ' ∉ word)
    (hw : ∀ l ∈ word, isWord l = true) (ha : atWordEnd after = true) (s : List Char) :
    afterWord? word (s ++ after) = (afterWord? word s).map (· ++ after) := by
  induction word generalizing s with
  | nil => rfl
  | cons l word ih =>
    rw [List.mem_cons, not_or] at hp
    cases s with
    | cons c s =>
      rw [List.cons_append, afterWord?, afterWord?]
      split
      · exact ih hp.2 (fun d hd => hw d (List.mem_cons_of_mem l hd)) s
      · rfl
    | nil =>
      cases after with
      | nil => rfl
      | cons c after =>
        apply afterWord?_cons_of_ne
        by_contra h
        have hc := (sameLetter_iff (Ne.symm hp.1) c).1 (Bool.eq_true_of_not_eq_false h)
        have hword : isWord c = true := by
          rw [← isWord_foldCase, hc, isWord_foldCase]
          exact hw l List.mem_cons_self
        simp [atWordEnd, hword] at ha

theorem afterKeyword?_append_end {k : String × HostType} (hk : k ∈ typeKeywords)
    {after : List Char} (ha : atWordEnd after = true) (s : List Char) :
    afterKeyword? k.1 (s ++ after) = (afterKeyword? k.1 s).map (· ++ after) := by
  have hstem := fun c hc => isWord_of_isAlpha (keywordStem_alpha k hk c hc)
  unfold afterKeyword?
  rw [afterWord?_append_end (keywordStem_plain k hk) hstem ha]
  cases afterWord? (keywordStem k.1) s with
  | none => rfl
  | some rest =>
    cases rest with
    | nil =>
      cases after with
      | nil => rfl
      | cons c after =>
        have hc : c ≠ '_' := by
          rintro rfl
          rw [atWordEnd_underscore] at ha
          cases ha
        have hw : isWord c = false := by simpa [atWordEnd] using ha
        simp [hc, hw, atWordEnd]
    | cons c rest =>
      by_cases hc : c = '_'
      · simp [hc, atWordEnd_append ha, apply_ite (Option.map (· ++ after))]
      · have hend := atWordEnd_append ha (c :: rest)
        rw [List.cons_append] at hend
        simp [hc, hend, apply_ite (Option.map (· ++ after))]

theorem afterType?_append_end {after : List Char} (ha : atWordEnd after = true) (s : List Char) :
    afterType? (s ++ after) = (afterType? s).map (· ++ after) := by
  have hkeys : (typeKeywords.findSome? fun k => afterKeyword? k.1 (s ++ after)) =
      (typeKeywords.findSome? fun k => afterKeyword? k.1 s).map (· ++ after) := by
    have hall := fun k hk => afterKeyword?_append_end (k := k) hk ha s
    generalize typeKeywords = keys at hall ⊢
    induction keys with
    | nil => rfl
    | cons k keys ih =>
      rw [List.findSome?_cons, List.findSome?_cons, hall k List.mem_cons_self]
      cases afterKeyword? k.1 s with
      | some rest => rfl
      | none => exact ih fun j hj => hall j (List.mem_cons_of_mem k hj)
  unfold afterType?
  rw [hkeys, afterWord?_append_end (by decide) recordLead_isWord ha]
  cases typeKeywords.findSome? fun k => afterKeyword? k.1 s with
  | some rest => rfl
  | none => rfl

/-- Where a word ends, what is after it does not change which type is read. -/
theorem type?_append_end {after : List Char} (ha : atWordEnd after = true) (s : List Char) :
    type? (s ++ after) = (type? s).map fun p => (p.1, p.2 ++ after) := by
  unfold type?
  rw [afterType?_append_end ha, Option.map_map, Option.map_map]
  apply congrFun
  apply congrArg
  funext rest
  have htake : (s ++ after).length - (rest ++ after).length = s.length - rest.length := by
    rw [List.length_append, List.length_append, Nat.add_sub_add_right]
  simp only [Function.comp_apply, htake]
  rw [List.take_append_of_le_length (Nat.sub_le _ _)]

/-- A text that begins with a type begins with a letter of one. -/
theorem exists_of_isSome_type? {s : List Char} (h : (type? s).isSome) :
    ∃ c rest, s = c :: rest ∧ isWord c = true ∧ foldCase c ∈ typeInitials := by
  obtain ⟨p, hp⟩ := Option.isSome_iff_exists.1 h
  obtain ⟨hs, hlead⟩ := exists_of_type? hp
  obtain ⟨c, rest, hc⟩ := List.exists_cons_of_ne_nil hlead.ne_nil
  refine ⟨c, rest ++ p.2, by rw [hs, hc]; rfl, hlead.isWord c (hc ▸ List.mem_cons_self), ?_⟩
  by_contra hinitial
  rw [hs, hc, List.cons_append, type?_eq_none hinitial] at hp
  cases hp

theorem dropWhile_of_isSome_type? {s : List Char} (h : (type? s).isSome) :
    s.dropWhile isBlank = s := by
  obtain ⟨c, rest, rfl, hc, -⟩ := exists_of_isSome_type? h
  exact List.dropWhile_cons_of_neg (by simp [isBlank_of_isWord hc])

/-! ## Connectors -/

/-- A connector keeps the words on its two sides apart. -/
theorem Link.ends {conn : List Char} (h : Link conn) :
    (∃ c rest, conn = c :: rest ∧ isWord c = false) ∧
      ∃ init c, conn = init ++ [c] ∧ isWord c = false := by
  have hblank : ∀ {s : List Char}, s ≠ [] → (∀ c ∈ s, isBlank c = true) →
      (∃ c rest, s = c :: rest ∧ isWord c = false) ∧
        ∃ init c, s = init ++ [c] ∧ isWord c = false := by
    intro s hne hs
    refine ⟨⟨s.head hne, s.tail, (List.cons_head_tail hne).symm, ?_⟩,
      ⟨s.dropLast, s.getLast hne, (List.dropLast_append_getLast hne).symm, ?_⟩⟩
    · exact Text.isWord_of_isBlank (hs _ (List.head_mem hne))
    · exact Text.isWord_of_isBlank (hs _ (List.getLast_mem hne))
  have hmark : isWord '(' = false := by decide
  cases h with
  | @word before w after hb hbne _ ha hane =>
    obtain ⟨c, rest, rfl, hc⟩ := (hblank hbne hb).1
    obtain ⟨init, d, rfl, hd⟩ := (hblank hane ha).2
    exact ⟨⟨c, _, rfl, hc⟩, ⟨c :: rest ++ (w ++ init), d, by simp, hd⟩⟩
  | @opening before after hb ha =>
    constructor
    · by_cases hne : before = []
      · exact ⟨'(', after, by rw [hne]; rfl, hmark⟩
      · obtain ⟨c, rest, rfl, hc⟩ := (hblank hne hb).1
        exact ⟨c, _, rfl, hc⟩
    · by_cases hne : after = []
      · exact ⟨before, '(', by rw [hne], hmark⟩
      · obtain ⟨init, c, rfl, hc⟩ := (hblank hne ha).2
        exact ⟨before ++ '(' :: init, c, by simp, hc⟩

/-- What is found is a connector with a type after it. -/
theorem exists_of_connected? {s t rest : List Char} (h : connected? s = some (t, rest)) :
    ∃ conn, Link conn ∧ s = conn ++ (t ++ rest) ∧ type? (t ++ rest) = some (t, rest) := by
  unfold connected? at h
  split at h
  · rename_i u hu
    obtain ⟨b, more, c, v, rfl, hb, hw, hc, rfl⟩ := exists_of_afterAs? hu
    obtain ⟨w, hmore, hw⟩ := exists_of_afterWord? (by decide) hw
    have hv := (exists_of_type? h).1
    have hlink : Link ((b :: more.takeWhile isBlank) ++ (w ++ (c :: v.takeWhile isBlank))) := by
      refine .word ?_ (List.cons_ne_nil _ _) hw ?_ (List.cons_ne_nil _ _)
      · exact List.forall_mem_cons.2 ⟨hb, fun d hd => List.mem_takeWhile_imp hd⟩
      · exact List.forall_mem_cons.2 ⟨hc, fun d hd => List.mem_takeWhile_imp hd⟩
    refine ⟨_, hlink, ?_, hv ▸ h⟩
    rw [← hv, List.append_assoc, List.append_assoc, List.cons_append, List.cons_append,
      List.takeWhile_append_dropWhile, ← hmore, List.takeWhile_append_dropWhile]
  · obtain ⟨u, hu, ht⟩ := Option.bind_eq_some_iff.1 h
    have hv := (exists_of_type? ht).1
    unfold afterOpening? at hu
    split at hu
    · rename_i more hmore
      cases hu
      have hlink : Link (s.takeWhile isBlank ++ '(' :: more.takeWhile isBlank) :=
        .opening (fun d hd => List.mem_takeWhile_imp hd) fun d hd => List.mem_takeWhile_imp hd
      refine ⟨_, hlink, ?_, hv ▸ ht⟩
      rw [← hv, List.append_assoc, List.cons_append, List.takeWhile_append_dropWhile, ← hmore,
        List.takeWhile_append_dropWhile]
    · cases hu

end HelpMiner.Signature
