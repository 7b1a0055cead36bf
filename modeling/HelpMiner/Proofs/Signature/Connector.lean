import HelpMiner.Proofs.Signature.Qualifier

/-! Connectors: where none is found, and that every spelling of one is. -/
namespace HelpMiner.Signature

open Text (isWord isBlank)

/-! ## Text without connectors -/

/-- After blanks, `s` is no connector with a type. -/
structure Unconnected (s : List Char) : Prop where
  noAs : ∀ c t, afterWord? ['a', 's'] s = some (c :: t) → isBlank c = true →
    type? (t.dropWhile isBlank) = none
  noOpening : ∀ t, s = '(' :: t → type? (t.dropWhile isBlank) = none

theorem type?_eq_none {c : Char} (hc : foldCase c ∉ typeInitials) (s : List Char) :
    type? (c :: s) = none := by
  unfold type?
  rw [afterType?_eq_none hc]
  rfl

theorem exists_of_afterAs? {s t : List Char} (h : afterAs? s = some t) :
    ∃ b rest c u, s = b :: rest ∧ isBlank b = true ∧
      afterWord? ['a', 's'] (rest.dropWhile isBlank) = some (c :: u) ∧ isBlank c = true ∧
      t = u.dropWhile isBlank := by
  unfold afterAs? at h
  split at h
  · cases h
  · rename_i b rest
    split at h
    · rename_i hb
      split at h
      · rename_i c u hw
        split at h
        · rename_i hc
          cases h
          exact ⟨b, rest, c, u, rfl, hb, hw, hc, rfl⟩
        · cases h
      · cases h
    · cases h

theorem connected?_eq_none {s : List Char} (h : Unconnected (s.dropWhile isBlank)) :
    connected? s = none := by
  unfold connected?
  split
  · rename_i t ht
    obtain ⟨b, rest, c, u, rfl, hb, hw, hc, rfl⟩ := exists_of_afterAs? ht
    rw [List.dropWhile_cons_of_pos hb] at h
    exact h.noAs c u hw hc
  · unfold afterOpening?
    split
    · rename_i rest hr
      exact h.noOpening rest hr
    · rfl

theorem connected?_plain {c : Char} (hb : isBlank c = false) (hc : c ≠ '(') (s : List Char) :
    connected? (c :: s) = none := by
  have has : afterAs? (c :: s) = none := by
    unfold afterAs?
    exact if_neg (by simp [hb])
  have hopening : afterOpening? (c :: s) = none := by
    unfold afterOpening?
    rw [List.dropWhile_cons_of_neg (by simp [hb])]
    split
    · rename_i rest hr
      exact absurd (List.cons.inj hr).1 hc
    · rfl
  unfold connected?
  rw [has, hopening]
  rfl

theorem Unconnected.nil : Unconnected [] where
  noAs := by
    intro c t h
    cases h
  noOpening := by
    intro t h
    cases h

theorem Unconnected.closing (s : List Char) : Unconnected (')' :: s) where
  noAs := by
    intro c t h
    rw [afterWord?_cons_of_ne (by decide)] at h
    cases h
  noOpening := by
    intro t h
    cases h

theorem unifyConnectors_connected {s t rest : List Char} (h : connected? s = some (t, rest)) :
    unifyConnectors s = connector ++ t ++ unifyConnectors rest := by
  rw [unifyConnectors]
  split
  · rename_i u r hr
    rw [h] at hr
    cases hr
    rfl
  · rename_i hr
    rw [h] at hr
    cases hr

theorem unifyConnectors_cons {c : Char} {s : List Char} (h : connected? (c :: s) = none) :
    unifyConnectors (c :: s) = c :: unifyConnectors s := by
  rw [unifyConnectors]
  split
  · rename_i t rest hr
    rw [h] at hr
    cases hr
  · rfl

theorem unifyConnectors_nil : unifyConnectors [] = [] := by
  rw [unifyConnectors]
  split
  · rename_i t rest hr
    rw [connected?_eq_none (s := []) Unconnected.nil] at hr
    cases hr
  · rfl

theorem unifyConnectors_plain {t : List Char} (ht : ∀ c ∈ t, isBlank c = false ∧ c ≠ '(')
    (s : List Char) : unifyConnectors (t ++ s) = t ++ unifyConnectors s := by
  induction t with
  | nil => rfl
  | cons c t ih =>
    have hc := ht c List.mem_cons_self
    rw [List.cons_append, unifyConnectors_cons (connected?_plain hc.1 hc.2 _),
      ih fun d hd => ht d (List.mem_cons_of_mem c hd), List.cons_append]

theorem unifyConnectors_word {t : List Char} (ht : ∀ c ∈ t, isWord c = true) (s : List Char) :
    unifyConnectors (t ++ s) = t ++ unifyConnectors s := by
  apply unifyConnectors_plain
  intro c hc
  refine ⟨isBlank_of_isWord (ht c hc), ?_⟩
  rintro rfl
  exact absurd (ht '(' hc) (by decide)

theorem unifyConnectors_blanks {blanks : List Char} (hb : ∀ c ∈ blanks, isBlank c = true)
    {s : List Char} (hs : Unconnected (s.dropWhile isBlank)) :
    unifyConnectors (blanks ++ s) = blanks ++ unifyConnectors s := by
  induction blanks with
  | nil => rfl
  | cons c blanks ih =>
    have hnone : connected? (c :: (blanks ++ s)) = none := by
      apply connected?_eq_none
      rwa [← List.cons_append, List.dropWhile_append_of_pos hb]
    rw [List.cons_append, unifyConnectors_cons hnone,
      ih fun d hd => hb d (List.mem_cons_of_mem c hd), List.cons_append]

/-! ## What follows a type -/

/-- The end of a declaration after its type. -/
inductive Closing : List Char → Prop where
  | bare : Closing []
  | parens {last : List Char} (hl : Blanks last) : Closing (last ++ [')'])

theorem Blanks.nil : Blanks [] := by
  intro c hc
  cases hc

theorem Blanks.isBlank {blanks : List Char} (h : Blanks blanks) :
    ∀ c ∈ blanks, Text.isBlank c = true := fun c hc => (h c hc).1

theorem Closing.atWordEnd {closing : List Char} (h : Closing closing) {trail : List Char}
    (ht : Blanks trail) : Signature.atWordEnd (closing ++ trail) = true := by
  cases h with
  | bare =>
    by_cases hne : trail = []
    · rw [hne]
      rfl
    · have hend := atWordEnd_blanks ht hne []
      rwa [List.append_nil] at hend
  | @parens last hl =>
    by_cases hne : last = []
    · rw [hne]
      rfl
    · rw [List.append_assoc]
      exact atWordEnd_blanks hl hne _

theorem Closing.unqualified {closing : List Char} (h : Closing closing) {trail : List Char}
    (ht : Blanks trail) : Unqualified false (closing ++ trail) := by
  have htrail : Unqualified false trail := by
    have hb := (unqualified_blanks ht.isBlank).2 (Unqualified.nil false)
    rwa [List.append_nil] at hb
  cases h with
  | bare => exact htrail
  | parens hl =>
    rw [List.append_assoc, unqualified_blanks hl.isBlank]
    exact (unqualified_mark (by decide)).2 htrail

/-- No connector follows a type. -/
theorem Closing.unify {closing : List Char} (h : Closing closing) {trail : List Char}
    (ht : Blanks trail) : unifyConnectors (closing ++ trail) = closing ++ trail := by
  have htrail : unifyConnectors trail = trail := by
    have hb := unifyConnectors_blanks ht.isBlank (s := []) Unconnected.nil
    rwa [unifyConnectors_nil, List.append_nil] at hb
  cases h with
  | bare => exact htrail
  | parens hl =>
    have hmark : (')' :: trail).dropWhile Text.isBlank = ')' :: trail :=
      List.dropWhile_cons_of_neg (by decide)
    have hun : Unconnected ((')' :: trail).dropWhile Text.isBlank) := by
      rw [hmark]
      exact Unconnected.closing trail
    rw [List.append_assoc, List.singleton_append, unifyConnectors_blanks hl.isBlank hun,
      unifyConnectors_cons (connected?_plain (by decide) (by decide) trail), htrail]

end HelpMiner.Signature
