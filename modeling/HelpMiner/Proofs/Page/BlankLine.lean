import HelpMiner.Proofs.Page.Normal

/-! Line breaks in the text of a section: blank lines are left out once and for all, and a line feed
may have a carriage return before it. -/
namespace HelpMiner.Page

open Text (isBlank)

/-! ## Single breaks -/

/-- No stretch of blanks has two line breaks. -/
def SingleBreaks (s : List Char) : Prop :=
  ∀ run, run <:+: s → (∀ c ∈ run, isBlank c = true) → run.countP isBreak ≤ 1

theorem SingleBreaks.of_isInfix {s t : List Char} (h : SingleBreaks s) (ht : t <:+: s) :
    SingleBreaks t :=
  fun run hrun => h run (hrun.trans ht)

theorem pastBlankBreaks?_cons_eq_none {c : Char} {s : List Char} :
    pastBlankBreaks? (c :: s) = none ↔
      isBlank c = false ∨ (isBreak c = false ∧ pastBlankBreaks? s = none) := by
  by_cases hb : isBlank c = true
  · by_cases hc : isBreak c = true
    · rw [pastBlankBreaks?_break hc]
      simp [hb, hc]
    · rw [pastBlankBreaks?_spacing hb (Bool.eq_false_of_not_eq_true hc)]
      simp [hb, hc]
  · rw [pastBlankBreaks?_ink (Bool.eq_false_of_not_eq_true hb)]
    simp [hb]

/-- No blank lines are found where no break is among the blanks at the front. -/
theorem countP_of_pastBlankBreaks?_eq_none {s run : List Char} (h : pastBlankBreaks? s = none)
    (hrun : run <+: s) (hb : ∀ c ∈ run, isBlank c = true) : run.countP isBreak = 0 := by
  induction s generalizing run with
  | nil => rw [List.prefix_nil.1 hrun, List.countP_nil]
  | cons c s ih =>
    obtain rfl | ⟨more, rfl, hmore⟩ := List.prefix_cons_iff.1 hrun
    · exact List.countP_nil
    · obtain ⟨hc, hblank⟩ := List.forall_mem_cons.1 hb
      obtain hink | ⟨hbreak, hs⟩ := pastBlankBreaks?_cons_eq_none.1 h
      · rw [hc] at hink
        cases hink
      · rw [List.countP_cons_of_neg (by simp [hbreak])]
        exact ih hs hmore hblank

theorem singleBreaks_cons {c : Char} {s : List Char} : SingleBreaks (c :: s) ↔
    (isBreak c = true → pastBlankBreaks? s = none) ∧ SingleBreaks s := by
  constructor
  · intro h
    refine ⟨fun hc => ?_, h.of_isInfix (List.suffix_cons c s).isInfix⟩
    by_contra hsome
    obtain ⟨r, hr⟩ := Option.ne_none_iff_exists'.1 hsome
    obtain ⟨gap, d, rfl, hgap, hd, -⟩ := exists_of_pastBlankBreaks? hr
    have hrun : ∀ e ∈ c :: (gap ++ [d]), isBlank e = true := by
      refine List.forall_mem_cons.2 ⟨isBlank_of_isBreak hc, List.forall_mem_append.2 ⟨hgap, ?_⟩⟩
      intro e he
      exact List.mem_singleton.1 he ▸ isBlank_of_isBreak hd
    have hcount := h (c :: (gap ++ [d])) ⟨[], r, by simp⟩ hrun
    rw [List.countP_cons_of_pos hc, List.countP_append, List.countP_singleton, if_pos hd] at hcount
    omega
  · rintro ⟨hc, hs⟩ run hrun hb
    obtain hfront | hrun := List.infix_cons_iff.1 hrun
    · obtain rfl | ⟨more, rfl, hmore⟩ := List.prefix_cons_iff.1 hfront
      · simp
      · have hblank := (List.forall_mem_cons.1 hb).2
        by_cases hbreak : isBreak c = true
        · have hnone := countP_of_pastBlankBreaks?_eq_none (hc hbreak) hmore hblank
          rw [List.countP_cons_of_pos hbreak, hnone]
        · rw [List.countP_cons_of_neg hbreak]
          exact hs more hmore.isInfix hblank
    · exact hs run hrun hb

theorem SingleBreaks.nil : SingleBreaks [] := by
  intro run hrun _
  rw [List.infix_nil.1 hrun, List.countP_nil]
  exact Nat.zero_le 1

theorem singleBreaks_of_forall {s : List Char} (hs : ∀ c ∈ s, isBreak c = false) :
    SingleBreaks s := by
  intro run hrun _
  have hnone : run.countP isBreak = 0 :=
    List.countP_eq_zero.2 fun c hc => by simp [hs c (hrun.subset hc)]
  rw [hnone]
  exact Nat.zero_le 1

/-! ## Blank lines left out -/

/-- Leaving blank lines out moves no break to the front. -/
theorem pastBlankBreaks?_collapse {s : List Char} (h : pastBlankBreaks? s = none) :
    pastBlankBreaks? (collapseBlankLines s) = none := by
  induction s with
  | nil => rwa [collapseBlankLines_nil]
  | cons c s ih =>
    obtain hc | ⟨hc, hs⟩ := pastBlankBreaks?_cons_eq_none.1 h
    · rw [collapseBlankLines_kept (by simp [isBreak_of_ink hc])]
      exact pastBlankBreaks?_ink hc _
    · rw [collapseBlankLines_kept fun _ => hs]
      exact pastBlankBreaks?_cons_eq_none.2 (.inr ⟨hc, ih hs⟩)

theorem singleBreaks_collapse (s : List Char) : SingleBreaks (collapseBlankLines s) := by
  induction s using collapse_induction with
  | nil =>
    rw [collapseBlankLines_nil]
    exact SingleBreaks.nil
  | found c rest r hc hr ih =>
    obtain ⟨-, -, -, -, -, hnone⟩ := exists_of_pastBlankBreaks? hr
    rw [collapseBlankLines_found hc hr]
    exact singleBreaks_cons.2 ⟨fun _ => pastBlankBreaks?_collapse hnone, ih⟩
  | kept c rest hc ih =>
    rw [collapseBlankLines_kept hc]
    exact singleBreaks_cons.2 ⟨fun h => pastBlankBreaks?_collapse (hc h), ih⟩

/-- Text without blank lines stays as it is. -/
theorem SingleBreaks.collapse {s : List Char} (h : SingleBreaks s) : collapseBlankLines s = s := by
  induction s with
  | nil => exact collapseBlankLines_nil
  | cons c s ih =>
    obtain ⟨hc, hs⟩ := singleBreaks_cons.1 h
    rw [collapseBlankLines_kept hc, ih hs]

theorem isInfix_trim (s : List Char) : Text.trim s <:+: s := by
  obtain ⟨lead, trail, hs, -, -⟩ := Text.exists_trimWhile isBlank s
  refine ⟨lead, trail, ?_⟩
  rw [List.append_assoc]
  exact hs.symm

theorem trim_plainText (raw : List Char) : Text.trim (plainText raw) = plainText raw :=
  Text.trim_trim _

theorem singleBreaks_plainText (raw : List Char) : SingleBreaks (plainText raw) :=
  (singleBreaks_collapse _).of_isInfix (isInfix_trim _)

theorem plainText_eq_self {s : List Char} (htrim : Text.trim s = s) (hs : SingleBreaks s) :
    plainText s = s := by
  have hfront : s.dropWhile isBlank = s := by
    by_cases hne : s = []
    · rw [hne]
      rfl
    · rw [← htrim] at hne
      have hinked := Text.inked_trim hne
      rw [htrim] at hinked
      have hdrop := hinked.dropWhile_append []
      rwa [List.append_nil] at hdrop
  unfold plainText
  rw [hfront, hs.collapse, htrim]

/-! ## Carriage returns -/

/-- `t` is the text `s`, which has no carriage returns, with one put before some line feeds. -/
inductive Recoded : List Char → List Char → Prop where
  | nil : Recoded [] []
  | keep {c : Char} {s t : List Char} (hc : c ≠ '\r') (h : Recoded s t) :
      Recoded (c :: s) (c :: t)
  | feed {s t : List Char} (h : Recoded s t) : Recoded ('\n' :: s) ('\r' :: '\n' :: t)

namespace Recoded

variable {s t : List Char}

theorem dropBlanks (h : Recoded s t) : Recoded (s.dropWhile isBlank) (t.dropWhile isBlank) := by
  induction h with
  | nil => exact .nil
  | @keep c s t hc h ih =>
    by_cases hb : isBlank c = true
    · rwa [List.dropWhile_cons_of_pos hb, List.dropWhile_cons_of_pos hb]
    · rw [List.dropWhile_cons_of_neg hb, List.dropWhile_cons_of_neg hb]
      exact .keep hc h
  | feed h ih => exact ih

theorem getD {a b : Option (List Char)} (hab : Option.Rel Recoded a b) (h : Recoded s t) :
    Recoded (a.getD s) (b.getD t) := by
  cases hab with
  | some hr => exact hr
  | none => exact h

theorem exists_of_rel_some {r : List Char} {b : Option (List Char)}
    (h : Option.Rel Recoded (some r) b) : ∃ u, b = some u ∧ Recoded r u := by
  cases h with
  | some hr => exact ⟨_, rfl, hr⟩

theorem eq_none_of_rel_none {b : Option (List Char)} (h : Option.Rel Recoded none b) :
    b = none := by
  cases h
  rfl

theorem pastBlankBreaks? (h : Recoded s t) :
    Option.Rel Recoded (Page.pastBlankBreaks? s) (Page.pastBlankBreaks? t) := by
  induction h with
  | nil => exact .none
  | @keep c s t hc h ih =>
    by_cases hb : isBlank c = true
    · by_cases hbreak : isBreak c = true
      · rw [pastBlankBreaks?_break hbreak, pastBlankBreaks?_break hbreak]
        exact .some (getD ih h)
      · have hbreak := Bool.eq_false_of_not_eq_true hbreak
        rwa [pastBlankBreaks?_spacing hb hbreak, pastBlankBreaks?_spacing hb hbreak]
    · have hb := Bool.eq_false_of_not_eq_true hb
      rw [pastBlankBreaks?_ink hb, pastBlankBreaks?_ink hb]
      exact .none
  | @feed s t h ih =>
    have hfeed : isBreak '\n' = true := by decide
    have hpast := getD ih h
    rw [pastBlankBreaks?_break hfeed, pastBlankBreaks?_break (by decide),
      pastBlankBreaks?_break hfeed]
    exact .some hpast

/-- A carriage return before a line feed makes a blank line that is left out. -/
theorem collapse (h : Recoded s t) : collapseBlankLines t = collapseBlankLines s := by
  have hfeed : isBreak '\n' = true := by decide
  have hreturn : isBreak '\r' = true := by decide
  -- By the runs of the text without returns: a return ends a blank line of its own, which leaves the
  -- run to the line feed after it.
  induction s using collapse_induction generalizing t with
  | nil =>
    cases h
    rfl
  | found c rest r hc hr ih =>
    cases h with
    | keep _ h =>
      obtain ⟨u, hu, hru⟩ := exists_of_rel_some (hr ▸ h.pastBlankBreaks?)
      rw [collapseBlankLines_found hc hu, collapseBlankLines_found hc hr, ih hru]
    | @feed _ t h =>
      obtain ⟨u, hu, hru⟩ := exists_of_rel_some (hr ▸ h.pastBlankBreaks?)
      have hpast : Page.pastBlankBreaks? ('\n' :: t) = some u := by
        rw [pastBlankBreaks?_break hfeed, hu]
        rfl
      rw [collapseBlankLines_found hreturn hpast, collapseBlankLines_found hc hr, ih hru]
  | kept c rest hc ih =>
    cases h with
    | @keep _ _ t _ h =>
      have ht : isBreak c = true → Page.pastBlankBreaks? t = none := fun hb =>
        eq_none_of_rel_none (hc hb ▸ h.pastBlankBreaks?)
      rw [collapseBlankLines_kept hc, collapseBlankLines_kept ht, ih h]
    | @feed _ t h =>
      have ht := eq_none_of_rel_none (hc hfeed ▸ h.pastBlankBreaks?)
      have hpast : Page.pastBlankBreaks? ('\n' :: t) = some t := by
        rw [pastBlankBreaks?_break hfeed, ht]
        rfl
      rw [collapseBlankLines_found hreturn hpast, collapseBlankLines_kept hc, ih h]

theorem plainText (h : Recoded s t) : Page.plainText t = Page.plainText s := by
  unfold Page.plainText
  rw [h.dropBlanks.collapse]

end Recoded

end HelpMiner.Page
