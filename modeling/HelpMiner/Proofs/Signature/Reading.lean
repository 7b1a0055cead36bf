import HelpMiner.Proofs.Signature.Declaration

/-! Reading a line makes nothing up: the parts of a declaration are taken from the line, whatever the
line says, and each type begins as types do. -/
namespace HelpMiner.Signature

open Text (isWord isBlank)

/-! ## Suffixes -/

theorem afterWord?_suffix {word s rest : List Char} (hw : 'ſ' ∉ word)
    (h : afterWord? word s = some rest) : rest <:+ s := by
  obtain ⟨t, rfl, -⟩ := exists_of_afterWord? hw h
  exact List.suffix_append t rest

theorem afterQualifier?_suffix {inWord : Bool} {s rest : List Char}
    (h : afterQualifier? inWord s = some rest) : rest <:+ s := by
  unfold afterQualifier? at h
  split at h
  · cases h
  · split at h
    · rename_i more hq
      split at h
      · cases h
        obtain ⟨q, hq, hw⟩ := List.exists_of_findSome?_eq_some hq
        have hmore := afterWord?_suffix (qualifier_plain q hq) hw
        exact (List.dropWhile_suffix _).trans (hmore.trans (List.dropWhile_suffix _))
      · cases h
    · cases h

theorem afterAs?_suffix {s rest : List Char} (h : afterAs? s = some rest) : rest <:+ s := by
  obtain ⟨b, more, c, u, rfl, -, hw, -, rfl⟩ := exists_of_afterAs? h
  have hu : c :: u <:+ more := (afterWord?_suffix (by decide) hw).trans (List.dropWhile_suffix _)
  exact (List.dropWhile_suffix _).trans
    ((List.suffix_cons c u).trans (hu.trans (List.suffix_cons b more)))

theorem afterOpening?_suffix {s rest : List Char} (h : afterOpening? s = some rest) :
    rest <:+ s := by
  unfold afterOpening? at h
  split at h
  · rename_i more hs
    cases h
    have hmore : more <:+ s := (hs ▸ List.suffix_cons '(' more).trans (List.dropWhile_suffix _)
    exact (List.dropWhile_suffix _).trans hmore
  · cases h

theorem type?_suffix {s t rest : List Char} (h : type? s = some (t, rest)) : t ++ rest <:+ s :=
  (exists_of_type? h).1 ▸ List.suffix_refl _

theorem connected?_suffix {s t rest : List Char} (h : connected? s = some (t, rest)) :
    t ++ rest <:+ s := by
  unfold connected? at h
  split at h
  · rename_i u hu
    exact (type?_suffix h).trans (afterAs?_suffix hu)
  · obtain ⟨u, hu, ht⟩ := Option.bind_eq_some_iff.1 h
    exact (type?_suffix ht).trans (afterOpening?_suffix hu)

theorem connectedByAs?_suffix {s t rest : List Char} (h : connectedByAs? s = some (t, rest)) :
    t ++ rest <:+ s := by
  obtain ⟨u, hu, ht⟩ := Option.bind_eq_some_iff.1 h
  exact (type?_suffix ht).trans (afterAs?_suffix hu)

/-! ## Characters -/

theorem stripQualifiers_subset (inWord : Bool) (s : List Char) :
    stripQualifiers inWord s ⊆ ' ' :: s := by
  fun_induction stripQualifiers inWord s with
  | case1 inWord s rest h ih =>
    have hrest : ' ' :: rest ⊆ ' ' :: s :=
      List.cons_subset_cons ' ' (afterQualifier?_suffix h).subset
    exact List.cons_subset.2 ⟨List.mem_cons_self, List.Subset.trans ih hrest⟩
  | case2 inWord h => simp
  | case3 inWord c rest h ih =>
    have hrest : ' ' :: rest ⊆ ' ' :: c :: rest :=
      List.cons_subset_cons ' ' (List.subset_cons_self c rest)
    exact List.cons_subset.2 ⟨by simp, List.Subset.trans ih hrest⟩

theorem connector_append_subset {rest s : List Char} (h : rest ⊆ s) :
    connector ++ rest ⊆ connector ++ s :=
  List.append_subset.2
    ⟨List.subset_append_left _ _, List.Subset.trans h (List.subset_append_right _ _)⟩

theorem unifyConnectors_subset (s : List Char) : unifyConnectors s ⊆ connector ++ s := by
  fun_induction unifyConnectors s with
  | case1 s t rest h ih =>
    obtain ⟨htype, hrest⟩ := List.append_subset.1 (connected?_suffix h).subset
    have hfront : connector ++ t ⊆ connector ++ s := connector_append_subset htype
    exact List.append_subset.2 ⟨hfront, List.Subset.trans ih (connector_append_subset hrest)⟩
  | case2 h => simp
  | case3 c rest h ih =>
    have hrest := connector_append_subset (List.subset_cons_self c rest)
    exact List.cons_subset.2 ⟨by simp, List.Subset.trans ih hrest⟩

/-- A normal form has the characters of the line and of connectors, and no others. -/
theorem normalizeChars_subset (line : List Char) : normalizeChars line ⊆ connector ++ line := by
  intro c hc
  obtain hc | hc := List.mem_append.1 (unifyConnectors_subset _ (Text.trim_subset _ hc))
  · exact List.mem_append_left line hc
  · obtain rfl | hc := List.mem_cons.1 (stripQualifiers_subset false line hc)
    · exact List.mem_append_left line (by decide)
    · exact List.mem_append_right connector hc

/-- The pieces of a line are stretches of it. -/
theorem splitAtConnectors_subset (s : List Char) :
    (splitAtConnectors s).1 ⊆ s ∧ ∀ piece ∈ (splitAtConnectors s).2, piece ⊆ s := by
  fun_induction splitAtConnectors s with
  | case1 s t rest h more ih =>
    obtain ⟨htype, hrest⟩ := List.append_subset.1 (connectedByAs?_suffix h).subset
    refine ⟨by simp, fun piece hp => ?_⟩
    obtain rfl | hp := List.mem_cons.1 hp
    · exact List.append_subset.2 ⟨htype, List.Subset.trans ih.1 hrest⟩
    · exact List.Subset.trans (ih.2 piece hp) hrest
  | case2 h => simp
  | case3 c rest h more ih =>
    refine ⟨List.cons_subset_cons c ih.1, fun piece hp => ?_⟩
    exact List.Subset.trans (ih.2 piece hp) (List.subset_cons_self c rest)

theorem dropSpacedClosings_subset (s : List Char) : dropSpacedClosings s ⊆ s := by
  fun_induction dropSpacedClosings s with
  | case1 => simp
  | case2 c rest more h ih =>
    have htail : (rest.dropWhile isBlank).tail <:+ c :: rest :=
      (List.tail_suffix _).trans ((List.dropWhile_suffix _).trans (List.suffix_cons c rest))
    rw [dite_eq_ite] at h
    rw [h]
    exact List.Subset.trans ih htail.subset
  | case3 c rest h ih =>
    rw [dite_eq_ite] at h
    split
    · rename_i more hm
      exact (h more hm).elim
    · exact List.cons_subset_cons c ih

theorem dropLoneClosing_subset (s : List Char) : dropLoneClosing s ⊆ s := by
  unfold dropLoneClosing
  split
  · exact List.dropLast_subset s
  · exact List.Subset.refl s

theorem cleanType_subset (s : List Char) : cleanType s ⊆ s := by
  intro c hc
  have hclosed := dropLoneClosing_subset _ (Text.trim_subset _ hc)
  exact Text.trim_subset s (dropSpacedClosings_subset _ hclosed)

/-! ## Types -/

/-- What stands for a type begins as types do. -/
def TypeText (s : List Char) : Prop := ∃ lead rest, s = lead ++ rest ∧ TypeLead lead

/-- Each piece after a connector stands for a type. -/
theorem typeText_of_mem_splitAtConnectors {s piece : List Char}
    (h : piece ∈ (splitAtConnectors s).2) : TypeText piece := by
  fun_induction splitAtConnectors s with
  | case1 s t rest hc more ih =>
    obtain rfl | hp := List.mem_cons.1 h
    · obtain ⟨u, -, ht⟩ := Option.bind_eq_some_iff.1 hc
      exact ⟨t, more.1, rfl, (exists_of_type? ht).2⟩
    · exact ih hp
  | case2 hc => cases h
  | case3 c rest hc more ih => exact ih h

theorem TypeLead.inked {t : List Char} (h : TypeLead t) : Text.Inked t :=
  inked_of_forall (fun c hc => isBlank_of_isWord (h.isWord c hc)) h.ne_nil

theorem TypeLead.dropLoneClosing {t : List Char} (h : TypeLead t) (rest : List Char) :
    ∃ more, Signature.dropLoneClosing (t ++ rest) = t ++ more := by
  unfold Signature.dropLoneClosing
  split
  · rename_i hlast
    -- A parenthesis is no part of a word, so it stands after the lead of the type.
    have hne : rest ≠ [] := by
      rintro rfl
      rw [List.append_nil, Bool.and_eq_true, beq_iff_eq] at hlast
      exact absurd (h.isWord ')' (List.mem_of_getLast? hlast.1)) (by decide)
    exact ⟨rest.dropLast, List.dropLast_append_of_ne_nil hne⟩
  · exact ⟨rest, rfl⟩

/-- Cleaning does not reach into what a type begins with. What follows it may come closer, where a
closing parenthesis is left out. -/
theorem TypeText.clean {s : List Char} (h : TypeText s) : TypeText (cleanType s) := by
  obtain ⟨lead, rest, rfl, hl⟩ := h
  have hplain : ∀ c ∈ lead, isBlank c = false := fun c hc => isBlank_of_isWord (hl.isWord c hc)
  obtain ⟨trimmed, ht⟩ := Text.exists_trim_append hl.inked rest
  obtain ⟨bare, hb⟩ := hl.dropLoneClosing (dropSpacedClosings trimmed)
  obtain ⟨more, hm⟩ := Text.exists_trim_append hl.inked bare
  refine ⟨lead, more, ?_, hl⟩
  unfold cleanType
  rw [ht, dropSpacedClosings_plain hplain, hb, hm]

/-! ## Declarations -/

/-- What an accepted line says. -/
structure Accepted (line : String) (limit : Nat) (p : Param) (before typed : List Char) : Prop where
  split : splitAtConnectors line.toList = (before, [typed])
  name_ne_nil : Text.trim before ≠ []
  name_length : (Text.trim before).length ≤ limit
  name_no_period : '.' ∉ Text.trim before
  typed_no_period : '.' ∉ typed
  type_ne_nil : cleanType typed ≠ []
  name : p.name.toList = cleanName (Text.trim before)
  type : p.type.toList = cleanType typed

/-- A line is accepted when it has one name and one type, and both pass every check. -/
theorem exists_of_declaration? {line : String} {limit : Nat} {p : Param}
    (h : declaration? line limit = some p) : ∃ before typed, Accepted line limit p before typed := by
  unfold declaration? at h
  split at h
  · rename_i before typed hs
    simp only at h
    split at h
    · cases h
    · rename_i hlength
      split at h
      · cases h
      · rename_i hperiod
        split at h
        · cases h
        · rename_i htype
          cases h
          simp only [Bool.or_eq_true, List.isEmpty_iff, decide_eq_true_eq, not_or, Nat.not_lt,
            List.contains_iff_mem] at hlength hperiod htype
          exact ⟨before, typed, {
            split := hs
            name_ne_nil := hlength.1
            name_length := hlength.2
            name_no_period := hperiod.1
            typed_no_period := hperiod.2
            type_ne_nil := htype
            name := String.toList_ofList
            type := String.toList_ofList }⟩
  · cases h

end HelpMiner.Signature
