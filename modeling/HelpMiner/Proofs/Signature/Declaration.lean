import HelpMiner.Proofs.Signature.Normal

/-! The normal form of a declaration is read as that declaration, and as a return binding. -/
namespace HelpMiner.Signature

open Text (isWord isBlank)

/-! ## Splitting at the connector -/

theorem connectedByAs?_plain {c : Char} (hc : isBlank c = false) (s : List Char) :
    connectedByAs? (c :: s) = none := by
  unfold connectedByAs?
  cases h : afterAs? (c :: s) with
  | none => rfl
  | some t =>
    obtain ⟨b, rest, d, u, hs, hb, -⟩ := exists_of_afterAs? h
    rw [(List.cons.inj hs).1, hb] at hc
    cases hc

theorem splitAtConnectors_found {s t rest : List Char} (h : connectedByAs? s = some (t, rest)) :
    splitAtConnectors s =
      ([], (t ++ (splitAtConnectors rest).1) :: (splitAtConnectors rest).2) := by
  rw [splitAtConnectors]
  split
  · rename_i u r hr
    rw [h] at hr
    cases hr
    rfl
  · rename_i hr
    rw [h] at hr
    cases hr

theorem splitAtConnectors_cons {c : Char} {s : List Char} (h : connectedByAs? (c :: s) = none) :
    splitAtConnectors (c :: s) = (c :: (splitAtConnectors s).1, (splitAtConnectors s).2) := by
  rw [splitAtConnectors]
  split
  · rename_i t rest hr
    rw [h] at hr
    cases hr
  · rfl

theorem splitAtConnectors_nil : splitAtConnectors [] = ([], []) := by
  rw [splitAtConnectors]
  split
  · rename_i t rest hr
    cases hr
  · rfl

theorem splitAtConnectors_plain {t : List Char} (ht : ∀ c ∈ t, isBlank c = false)
    (s : List Char) :
    splitAtConnectors (t ++ s) = (t ++ (splitAtConnectors s).1, (splitAtConnectors s).2) := by
  induction t with
  | nil => rfl
  | cons c t ih =>
    have hc := ht c List.mem_cons_self
    rw [List.cons_append, splitAtConnectors_cons (connectedByAs?_plain hc _),
      ih fun d hd => ht d (List.mem_cons_of_mem c hd), List.cons_append]

theorem Closing.split {closing : List Char} (h : Closing closing) :
    splitAtConnectors closing = (closing, []) := by
  cases h with
  | bare => exact splitAtConnectors_nil
  | @parens last hl =>
    induction last with
    | nil =>
      rw [List.nil_append, splitAtConnectors_cons (connectedByAs?_plain (by decide) []),
        splitAtConnectors_nil]
    | cons c last ih =>
      have hrest : Blanks last := fun d hd => hl d (List.mem_cons_of_mem c hd)
      have hnone : connectedByAs? (c :: (last ++ [')'])) = none := by
        unfold connectedByAs?
        rw [← List.cons_append, afterAs?_mark hl.isBlank (by decide) (by decide)]
        rfl
      rw [List.cons_append, splitAtConnectors_cons hnone, ih hrest]

theorem connector_blanks : Blanks [' '] := by
  intro c hc
  rw [List.mem_singleton.1 hc]
  decide

/-- A normal form is cut into the name and one type. -/
theorem splitAtConnectors_normal (d : Declared) {closing : List Char} (hc : Closing closing) :
    splitAtConnectors (d.name ++ (connector ++ (d.type ++ closing))) =
      (d.name, [d.type ++ closing]) := by
  have hend : atWordEnd closing = true := by
    have h := hc.atWordEnd Blanks.nil
    rwa [List.append_nil] at h
  obtain ⟨front, back, hfb, hback, hread⟩ := d.isType.type?
  have hfound : connectedByAs? (connector ++ (d.type ++ closing)) =
      some (front, back ++ closing) := by
    have hword : InCase ['a', 's'] ['A', 's'] := rfl
    have has := afterAs?_word connector_blanks.isBlank (List.cons_ne_nil _ _) hword
      connector_blanks.isBlank (List.cons_ne_nil _ _) (d.type ++ closing)
    unfold connectedByAs?
    change (afterAs? ([' '] ++ (['A', 's'] ++ ([' '] ++ (d.type ++ closing))))).bind type? = _
    rw [has, dropWhile_word d.isType.isWord d.isType.ne_nil]
    exact hread closing hend
  have hplain : ∀ c ∈ d.name, isBlank c = false := d.name_plain
  rw [splitAtConnectors_plain hplain, splitAtConnectors_found hfound,
    splitAtConnectors_plain fun c hc => isBlank_of_isWord (hback c hc), hc.split, hfb,
    List.append_nil, List.append_assoc]

/-! ## The type -/

theorem dropSpacedClosings_nil : dropSpacedClosings [] = [] := by rw [dropSpacedClosings.eq_def]

theorem dropSpacedClosings_cons {c : Char} (hc : isBlank c = false) (s : List Char) :
    dropSpacedClosings (c :: s) = c :: dropSpacedClosings s := by
  rw [dropSpacedClosings.eq_def]
  simp only [hc]
  rfl

theorem dropSpacedClosings_plain {t : List Char} (ht : ∀ c ∈ t, isBlank c = false)
    (s : List Char) : dropSpacedClosings (t ++ s) = t ++ dropSpacedClosings s := by
  induction t with
  | nil => rfl
  | cons c t ih =>
    rw [List.cons_append, dropSpacedClosings_cons (ht c List.mem_cons_self),
      ih fun d hd => ht d (List.mem_cons_of_mem c hd), List.cons_append]

theorem dropSpacedClosings_spaced {c : Char} {blanks : List Char} (hb : Blanks (c :: blanks)) :
    dropSpacedClosings (c :: (blanks ++ [')'])) = [] := by
  have hrest : (blanks ++ [')']).dropWhile isBlank = [')'] :=
    List.dropWhile_append_of_pos fun d hd => (hb d (List.mem_cons_of_mem c hd)).1
  have hall : (c :: (blanks ++ [')'])).dropWhile isBlank = [')'] := by
    rw [List.dropWhile_cons_of_pos (hb c List.mem_cons_self).1, hrest]
  rw [dropSpacedClosings.eq_def]
  simp only [(hb c List.mem_cons_self).1, if_true, hall, hrest, List.tail_cons]
  exact dropSpacedClosings_nil

/-- Cleaning leaves the name of a type. -/
theorem IsType.clean {t : List Char} (h : IsType t) {closing : List Char} (hc : Closing closing) :
    cleanType (t ++ closing) = t := by
  have hplain : ∀ c ∈ t, isBlank c = false := fun c hc => isBlank_of_isWord (h.isWord c hc)
  have hopening : t.contains '(' = false := by
    rw [List.contains_eq_mem, decide_eq_false_iff_not]
    intro hm
    exact absurd (h.isWord '(' hm) (by decide)
  have hbare : dropLoneClosing t = t := by
    have hlast : t.getLast? ≠ some ')' := by
      intro hl
      exact absurd (h.isWord ')' (List.mem_of_getLast? hl)) (by decide)
    unfold dropLoneClosing
    rw [if_neg (by simp [hlast])]
  unfold cleanType
  rw [Text.trim_inked (hc.inked h.inked), dropSpacedClosings_plain hplain]
  cases hc with
  | bare => rw [dropSpacedClosings_nil, List.append_nil, hbare, Text.trim_inked h.inked]
  | @parens last hl =>
    cases last with
    | nil =>
      have hmark : dropSpacedClosings ([] ++ [')']) = [')'] := by
        rw [List.nil_append, dropSpacedClosings_cons (by decide), dropSpacedClosings_nil]
      have hlone : dropLoneClosing (t ++ [')']) = t := by
        unfold dropLoneClosing
        rw [if_pos (by simpa using hopening), List.dropLast_concat]
      rw [hmark, hlone, Text.trim_inked h.inked]
    | cons c last =>
      rw [List.cons_append, dropSpacedClosings_spaced hl, List.append_nil, hbare,
        Text.trim_inked h.inked]

theorem Closing.no_period {closing : List Char} (h : Closing closing) : '.' ∉ closing := by
  cases h with
  | bare => simp
  | parens hl =>
    intro hm
    obtain hm | hm := List.mem_append.1 hm
    · exact absurd (hl '.' hm).1 (by decide)
    · exact absurd (List.mem_singleton.1 hm) (by decide)

theorem no_period_of_isWord {t : List Char} (ht : ∀ c ∈ t, isWord c = true) : '.' ∉ t := by
  intro hm
  exact absurd (ht '.' hm) (by decide)

/-- A normal form is read as the declaration it spells. -/
theorem declaration?_normal (d : Declared) {closing : List Char} (hc : Closing closing)
    {limit : Nat} (hlimit : d.name.length ≤ limit) :
    declaration? (String.ofList (d.name ++ (connector ++ (d.type ++ closing)))) limit =
      some d.param := by
  have hname : '.' ∉ d.name := by
    intro hm
    obtain hm | hm := List.mem_append.1 hm
    · exact no_period_of_isWord d.isIdent.isWord hm
    · exact (Declared.marks_plain '.' hm).2.2 rfl
  have htype : '.' ∉ d.type ++ closing := by
    rw [List.mem_append, not_or]
    exact ⟨no_period_of_isWord d.isType.isWord, hc.no_period⟩
  have hnameNe : d.name.isEmpty = false := by
    rw [List.isEmpty_eq_false_iff]
    exact List.append_ne_nil_of_left_ne_nil d.isIdent.ne_nil _
  have htypeNe : d.type.isEmpty = false := List.isEmpty_eq_false_iff.2 d.isType.ne_nil
  unfold declaration?
  rw [String.toList_ofList, splitAtConnectors_normal d hc]
  simp only [Text.trim_inked d.name_inked, d.isType.clean hc]
  rw [hnameNe, Bool.false_or, if_neg (by simpa using hlimit), if_neg (by simp [hname, htype]),
    htypeNe, if_neg Bool.false_ne_true]
  rfl

/-! ## The return binding -/

/-- The words before a mark and after it. -/
theorem wordsOf_append_cons {c : Char} (hc : isWord c = false) (before after : List Char) :
    wordsOf (before ++ c :: after) = wordsOf before ++ wordsOf after := by
  unfold wordsOf
  rw [Text.cutWhere_append_cons (by simp [hc]), List.filter_append, List.map_append]

theorem wordsOf_word {t : List Char} (ht : ∀ c ∈ t, isWord c = true) (hne : t ≠ []) :
    wordsOf t = [String.ofList t] := by
  unfold wordsOf
  rw [Text.cutWhere_piece fun c hc => by simp [ht c hc]]
  simp [hne]

theorem wordsOf_append_marks {marks : List Char} (hm : ∀ c ∈ marks, isWord c = false)
    (s : List Char) : wordsOf (s ++ marks) = wordsOf s := by
  induction marks generalizing s with
  | nil => rw [List.append_nil]
  | cons c marks ih =>
    have hnil : wordsOf marks = [] := by
      have h := ih (fun d hd => hm d (List.mem_cons_of_mem c hd)) []
      rwa [List.nil_append] at h
    rw [wordsOf_append_cons (hm c List.mem_cons_self), hnil, List.append_nil]

theorem Closing.no_word {closing : List Char} (h : Closing closing) :
    ∀ c ∈ closing, Text.isWord c = false := by
  cases h with
  | bare => simp
  | parens hl =>
    intro c hc
    obtain hc | hc := List.mem_append.1 hc
    · exact Text.isWord_of_isBlank (hl c hc).1
    · rw [List.mem_singleton.1 hc]
      decide

theorem wordsOf_normal (d : Declared) {closing : List Char} (hc : Closing closing) :
    wordsOf (d.name ++ (connector ++ (d.type ++ closing))) =
      [String.ofList d.ident, "As", String.ofList d.type] := by
  have hname : wordsOf d.name = [String.ofList d.ident] := by
    unfold Declared.name
    rw [wordsOf_append_marks fun c hm => (Declared.marks_plain c hm).2.1,
      wordsOf_word d.isIdent.isWord d.isIdent.ne_nil]
  have htype : wordsOf (d.type ++ closing) = [String.ofList d.type] := by
    rw [wordsOf_append_marks hc.no_word, wordsOf_word d.isType.isWord d.isType.ne_nil]
  have hspace : isWord ' ' = false := by decide
  change wordsOf (d.name ++ ' ' :: (['A', 's'] ++ ' ' :: (d.type ++ closing))) = _
  rw [wordsOf_append_cons hspace, wordsOf_append_cons hspace, hname, htype]
  rfl

/-- A normal form is read as a return binding, even when the bound name is `As`. -/
theorem returnBinding_normal (d : Declared) {closing : List Char} (hc : Closing closing) :
    returnBinding (String.ofList (d.name ++ (connector ++ (d.type ++ closing)))) = d.binding := by
  have herase : [String.ofList d.ident, "As", String.ofList d.type].erase "As" = d.binding := by
    unfold Declared.binding
    by_cases h : String.ofList d.ident = "As"
    · rw [h, List.erase_cons_head]
    · rw [List.erase_cons_tail (by simpa using h), List.erase_cons_head]
  unfold returnBinding
  rw [String.toList_ofList, wordsOf_normal d hc, herase]
  rfl

end HelpMiner.Signature
