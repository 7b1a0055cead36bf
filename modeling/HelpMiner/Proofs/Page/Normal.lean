import HelpMiner.Page.Section
import HelpMiner.Proofs.Text.Blank

/-! The normal form of a section's text does not depend on the blanks around it, and leaves lines
without blank lines among them as they are. -/
namespace HelpMiner.Page

open Text (isBlank dropBackWhile)

theorem isBlank_of_isBreak {c : Char} (h : isBreak c = true) : isBlank c = true := by
  simp only [isBreak, Bool.or_eq_true, beq_iff_eq] at h
  rcases h with rfl | rfl <;> decide

theorem isBreak_of_ink {c : Char} (hc : isBlank c = false) : isBreak c = false := by
  by_contra h
  rw [isBlank_of_isBreak (Bool.eq_true_of_not_eq_false h)] at hc
  cases hc

/-! ## Blank lines -/

/-- What follows blank lines stands after a break among blanks, and no break is among the blanks
at its front. -/
theorem exists_of_pastBlankBreaks? {s r : List Char} (h : pastBlankBreaks? s = some r) :
    ∃ gap d, s = gap ++ d :: r ∧ (∀ c ∈ gap, isBlank c = true) ∧ isBreak d = true ∧
      pastBlankBreaks? r = none := by
  induction s with
  | nil => cases h
  | cons c rest ih =>
    unfold pastBlankBreaks? at h
    split at h
    · rename_i hc
      split at h
      · rename_i t ht
        obtain rfl := Option.some.inj h
        obtain ⟨gap, d, rfl, hgap, hd, hr⟩ := ih ht
        exact ⟨c :: gap, d, rfl, List.forall_mem_cons.2 ⟨hc, hgap⟩, hd, hr⟩
      · rename_i hnone
        split at h
        · rename_i hd
          obtain rfl := Option.some.inj h
          exact ⟨[], c, rfl, List.forall_mem_nil _, hd, hnone⟩
        · cases h
    · cases h

/-- Blank lines are looked for up to the first ink, so what follows it does not matter. -/
theorem pastBlankBreaks?_append {s : List Char} (hs : ∃ c ∈ s, isBlank c = false)
    (t : List Char) : pastBlankBreaks? (s ++ t) = (pastBlankBreaks? s).map (· ++ t) := by
  induction s with
  | nil => simp at hs
  | cons d rest ih =>
    rw [List.cons_append]
    unfold pastBlankBreaks?
    cases hd : isBlank d with
    | false => rfl
    | true =>
      have hrest : ∃ c ∈ rest, isBlank c = false := by
        obtain ⟨c, hc, hb⟩ := hs
        rcases List.mem_cons.1 hc with rfl | hc
        · rw [hd] at hb
          cases hb
        · exact ⟨c, hc, hb⟩
      rw [ih hrest]
      cases pastBlankBreaks? rest with
      | some r => rfl
      | none => by_cases hk : isBreak d = true <;> simp [hk]

theorem pastBlankBreaks?_ink {c : Char} (h : isBlank c = false) (rest : List Char) :
    pastBlankBreaks? (c :: rest) = none := by
  unfold pastBlankBreaks?
  rw [h]
  rfl

/-- A break is past, with all breaks that only blanks set apart from it. -/
theorem pastBlankBreaks?_break {c : Char} (h : isBreak c = true) (rest : List Char) :
    pastBlankBreaks? (c :: rest) = some ((pastBlankBreaks? rest).getD rest) := by
  rw [pastBlankBreaks?, if_pos (isBlank_of_isBreak h)]
  cases pastBlankBreaks? rest with
  | some r => rfl
  | none => exact if_pos h

theorem pastBlankBreaks?_spacing {c : Char} (hb : isBlank c = true) (h : isBreak c = false)
    (rest : List Char) : pastBlankBreaks? (c :: rest) = pastBlankBreaks? rest := by
  rw [pastBlankBreaks?, if_pos hb]
  cases pastBlankBreaks? rest with
  | some r => rfl
  | none => exact if_neg (by simp [h])

theorem collapseBlankLines_nil : collapseBlankLines [] = [] := by
  rw [collapseBlankLines]

theorem collapseBlankLines_cons (c : Char) (rest : List Char) :
    collapseBlankLines (c :: rest) =
      match (if isBreak c then pastBlankBreaks? rest else none) with
      | some r => '\n' :: collapseBlankLines r
      | none => c :: collapseBlankLines rest := by
  rw [collapseBlankLines]
  split <;> simp_all

theorem collapseBlankLines_found {c : Char} {rest r : List Char} (hc : isBreak c = true)
    (hr : pastBlankBreaks? rest = some r) :
    collapseBlankLines (c :: rest) = '\n' :: collapseBlankLines r := by
  rw [collapseBlankLines_cons, if_pos hc, hr]

theorem collapseBlankLines_kept {c : Char} {rest : List Char}
    (h : isBreak c = true → pastBlankBreaks? rest = none) :
    collapseBlankLines (c :: rest) = c :: collapseBlankLines rest := by
  have hnone : (if isBreak c then pastBlankBreaks? rest else none) = none := by
    split
    · rename_i hc
      exact h hc
    · rfl
  rw [collapseBlankLines_cons, hnone]

/-- Induction along a text as it is read: a character stays, or blank lines are passed at once. -/
@[elab_as_elim]
theorem collapse_induction {P : List Char → Prop} (nil : P [])
    (found : ∀ c rest r, isBreak c = true → pastBlankBreaks? rest = some r → P r → P (c :: rest))
    (kept : ∀ c rest, (isBreak c = true → pastBlankBreaks? rest = none) → P rest → P (c :: rest))
    (s : List Char) : P s := by
  induction hl : s.length using Nat.strong_induction_on generalizing s with
  | _ n ih =>
    subst hl
    cases s with
    | nil => exact nil
    | cons c rest =>
      have hrest := ih rest.length (by simp) rest rfl
      cases hr : pastBlankBreaks? rest with
      | none => exact kept c rest (fun _ => hr) hrest
      | some r =>
        have hlen := pastBlankBreaks?_length_lt hr
        by_cases hc : isBreak c = true
        · exact found c rest r hc hr (ih r.length (by simp only [List.length_cons]; omega) r rfl)
        · exact kept c rest (fun h => absurd h hc) hrest

theorem collapseBlankLines_plain {u : List Char} (hu : ∀ c ∈ u, isBreak c = false)
    (t : List Char) : collapseBlankLines (u ++ t) = u ++ collapseBlankLines t := by
  induction u with
  | nil => rfl
  | cons c u ih =>
    have hc := hu c List.mem_cons_self
    rw [List.cons_append, collapseBlankLines_kept (by simp [hc]),
      ih fun d hd => hu d (List.mem_cons_of_mem c hd)]
    rfl

/-- A line break before ink stands. -/
theorem collapseBlankLines_break {c : Char} (hc : isBlank c = false) (rest : List Char) :
    collapseBlankLines ('\n' :: c :: rest) = '\n' :: collapseBlankLines (c :: rest) :=
  collapseBlankLines_kept fun _ => pastBlankBreaks?_ink hc rest

theorem collapseBlankLines_blanks {s : List Char} (hs : ∀ c ∈ s, isBlank c = true) :
    ∀ c ∈ collapseBlankLines s, isBlank c = true := by
  induction s using collapse_induction with
  | nil => rwa [collapseBlankLines_nil]
  | found c rest r hc hr ih =>
    obtain ⟨gap, d, rfl, -⟩ := exists_of_pastBlankBreaks? hr
    rw [collapseBlankLines_found hc hr]
    have hblank := ih fun e he =>
      hs e (List.mem_cons_of_mem c (List.mem_append_right gap (List.mem_cons_of_mem d he)))
    exact List.forall_mem_cons.2 ⟨by decide, hblank⟩
  | kept c rest hc ih =>
    rw [collapseBlankLines_kept hc]
    exact List.forall_mem_cons.2
      ⟨hs c List.mem_cons_self, ih fun d hd => hs d (List.mem_cons_of_mem c hd)⟩

/-! ## Blanks at the end -/

theorem dropBackWhile_blanks {s : List Char} (hs : ∀ c ∈ s, isBlank c = true) :
    dropBackWhile isBlank s = [] := by
  have h := Text.dropBackWhile_append hs []
  rwa [List.nil_append] at h

theorem dropBackWhile_cons_congr {s t : List Char}
    (h : dropBackWhile isBlank s = dropBackWhile isBlank t) (c : Char) :
    dropBackWhile isBlank (c :: s) = dropBackWhile isBlank (c :: t) := by
  rw [dropBackWhile, dropBackWhile, h]

/-- Blanks at the end of a text do not matter, even where they could prolong a blank line. -/
theorem dropBackWhile_collapse_append {trail : List Char} (ht : ∀ c ∈ trail, isBlank c = true)
    (s : List Char) :
    dropBackWhile isBlank (collapseBlankLines (s ++ trail)) =
      dropBackWhile isBlank (collapseBlankLines s) := by
  have hblanks : ∀ s : List Char, (∀ c ∈ s, isBlank c = true) →
      dropBackWhile isBlank (collapseBlankLines s) = [] :=
    fun s hs => dropBackWhile_blanks (collapseBlankLines_blanks hs)
  have hend : ∀ c rest, ¬ (∃ d ∈ rest, isBlank d = false) →
      dropBackWhile isBlank (collapseBlankLines (c :: (rest ++ trail))) =
        dropBackWhile isBlank (collapseBlankLines (c :: rest)) := by
    intro c rest hink
    have hrest : ∀ d ∈ rest, isBlank d = true := by
      intro d hd
      by_contra hn
      exact hink ⟨d, hd, Bool.eq_false_of_not_eq_true hn⟩
    have hall := List.forall_mem_append.2 ⟨hrest, ht⟩
    by_cases hc : isBlank c = true
    · rw [hblanks _ (List.forall_mem_cons.2 ⟨hc, hall⟩),
        hblanks _ (List.forall_mem_cons.2 ⟨hc, hrest⟩)]
    · rw [collapseBlankLines_kept fun h => absurd (isBlank_of_isBreak h) hc,
        collapseBlankLines_kept fun h => absurd (isBlank_of_isBreak h) hc]
      exact dropBackWhile_cons_congr (by rw [hblanks _ hall, hblanks _ hrest]) c
  -- The stretch of blanks after a character ends before the trail where ink follows it.
  induction s using collapse_induction with
  | nil => rw [List.nil_append, hblanks trail ht, hblanks [] (by simp)]
  | found c rest r hc hr ih =>
    by_cases hink : ∃ d ∈ rest, isBlank d = false
    · have hlonger : pastBlankBreaks? (rest ++ trail) = some (r ++ trail) := by
        rw [pastBlankBreaks?_append hink, hr]
        rfl
      rw [List.cons_append, collapseBlankLines_found hc hlonger, collapseBlankLines_found hc hr]
      exact dropBackWhile_cons_congr ih '\n'
    · exact hend c rest hink
  | kept c rest hc ih =>
    by_cases hink : ∃ d ∈ rest, isBlank d = false
    · have hlonger : isBreak c = true → pastBlankBreaks? (rest ++ trail) = none := by
        intro hb
        rw [pastBlankBreaks?_append hink, hc hb]
        rfl
      rw [List.cons_append, collapseBlankLines_kept hlonger, collapseBlankLines_kept hc]
      exact dropBackWhile_cons_congr ih c
    · exact hend c rest hink

/-! ## Stretches of text -/

theorem dropWhile_append_blanks {lead : List Char} (hl : ∀ c ∈ lead, isBlank c = true)
    (s t : List Char) :
    (lead ++ (s ++ t)).dropWhile isBlank =
      if (s.dropWhile isBlank).isEmpty then t.dropWhile isBlank else s.dropWhile isBlank ++ t := by
  rw [List.dropWhile_append_of_pos hl, List.dropWhile_append]

/-- The normal form depends on what stands between the blanks at the edges only. -/
theorem normalizeChars_edges (heading : String) {lead trail other : List Char}
    (hl : ∀ c ∈ lead, isBlank c = true) (ht : ∀ c ∈ trail, isBlank c = true)
    (ho : ∀ c ∈ other, isBlank c = true) (s : List Char) :
    normalizeChars heading (lead ++ (s ++ trail)) = normalizeChars heading (s ++ other) := by
  have hfront : ∀ u : List Char, (∀ c ∈ u, isBlank c = true) → ∀ l : List Char,
      (∀ c ∈ l, isBlank c = true) →
      dropBackWhile isBlank (collapseBlankLines ((l ++ (s ++ u)).dropWhile isBlank)) =
        dropBackWhile isBlank (collapseBlankLines (s.dropWhile isBlank)) := by
    intro u hu l hl
    rw [dropWhile_append_blanks hl]
    split
    · rename_i hs
      rw [List.isEmpty_iff] at hs
      rw [hs, List.dropWhile_eq_nil_iff.2 hu]
    · exact dropBackWhile_collapse_append hu _
  have hother := hfront other ho [] (by simp)
  rw [List.nil_append] at hother
  unfold normalizeChars
  rw [hfront trail ht lead hl, hother]

/-- Stripping blanks from a text and putting others around it keeps its normal form. -/
theorem normalizeChars_trimWhile (heading : String) {p : Char → Bool}
    (hp : ∀ c, p c = true → isBlank c = true) {other : List Char}
    (ho : ∀ c ∈ other, isBlank c = true) (s : List Char) :
    normalizeChars heading (Text.trimWhile p s ++ other) = normalizeChars heading s := by
  obtain ⟨lead, trail, hs, hl, ht⟩ := Text.exists_trimWhile p s
  have h := normalizeChars_edges heading (fun c hc => hp c (hl c hc))
    (fun c hc => hp c (ht c hc)) ho (Text.trimWhile p s)
  rw [← hs] at h
  exact h.symm

theorem trimWhile_inked {p : Char → Bool} (hp : ∀ c, p c = true → isBlank c = true)
    {s : List Char} (hs : Text.Inked s) : Text.trimWhile p s = s := by
  have hnot : ∀ {c}, isBlank c = false → ¬ p c = true := by
    intro c hc h
    rw [hp c h] at hc
    cases hc
  obtain ⟨c, rest, hc, hcb⟩ := hs.first
  obtain ⟨init, d, hd, hdb⟩ := hs.last
  have hfront : s.dropWhile p = s := by rw [hc, List.dropWhile_cons_of_neg (hnot hcb)]
  unfold Text.trimWhile
  rw [hfront, Text.dropBackWhile_eq_rdropWhile, hd, List.rdropWhile_concat_neg p init d (hnot hdb)]

/-! ## Ink -/

/-- The characters of a text other than blanks. -/
def ink (s : List Char) : List Char := s.filter fun c => !isBlank c

theorem ink_append (s t : List Char) : ink (s ++ t) = ink s ++ ink t := List.filter_append s t

theorem ink_cons (c : Char) (s : List Char) : ink (c :: s) = ink [c] ++ ink s := ink_append [c] s

theorem ink_blanks {s : List Char} (hs : ∀ c ∈ s, isBlank c = true) : ink s = [] := by
  apply List.filter_eq_nil_iff.2
  intro c hc
  simp [hs c hc]

theorem mem_ink {c : Char} (hc : isBlank c = false) (s : List Char) : c ∈ ink s ↔ c ∈ s := by
  rw [ink, List.mem_filter, hc]
  exact and_iff_left rfl

/-- The ink of blank lines is in what follows them. -/
theorem ink_pastBlankBreaks? {s r : List Char} (h : pastBlankBreaks? s = some r) :
    ink s = ink r := by
  obtain ⟨gap, d, rfl, hgap, hd, -⟩ := exists_of_pastBlankBreaks? h
  have hd := ink_blanks (s := [d]) (by simpa using isBlank_of_isBreak hd)
  rw [ink_append, ink_cons, ink_blanks hgap, hd]
  rfl

theorem ink_collapseBlankLines (s : List Char) : ink (collapseBlankLines s) = ink s := by
  induction s using collapse_induction with
  | nil => rw [collapseBlankLines_nil]
  | found c rest r hc hr ih =>
    have hbreak := ink_blanks (s := [c]) (by simpa using isBlank_of_isBreak hc)
    have hfeed : ink ['\n'] = [] := by decide
    rw [collapseBlankLines_found hc hr, ink_cons, ink_cons c, ih, hbreak, hfeed,
      ink_pastBlankBreaks? hr]
  | kept c rest hc ih => rw [collapseBlankLines_kept hc, ink_cons, ih, ← ink_cons]

theorem ink_trim (s : List Char) : ink (Text.trim s) = ink s := by
  obtain ⟨lead, trail, hs, hl, ht⟩ := Text.exists_trimWhile isBlank s
  conv_rhs => rw [hs, ink_append, ink_append, ink_blanks hl, ink_blanks ht]
  rw [List.nil_append, List.append_nil]
  rfl

/-! ## Text between the edges -/

/-- The text of a section without blank edges and blank lines. -/
def plainText (raw : List Char) : List Char :=
  Text.trim (collapseBlankLines (raw.dropWhile isBlank))

/-- The first ink stays where it is when blank lines are left out. -/
theorem normalizeChars_eq (heading : String) (raw : List Char) :
    normalizeChars heading raw =
      if isListHeading heading then joinLines (plainText raw) else plainText raw := by
  have hfront : (collapseBlankLines (raw.dropWhile isBlank)).dropWhile isBlank =
      collapseBlankLines (raw.dropWhile isBlank) := by
    cases hd : raw.dropWhile isBlank with
    | nil => rw [collapseBlankLines_nil]; rfl
    | cons c rest =>
      have hc := List.head_dropWhile_not isBlank (l := raw) (by simp [hd])
      have hc : isBlank c = false := by simpa [hd] using hc
      rw [collapseBlankLines_kept (by simp [isBreak_of_ink hc]),
        List.dropWhile_cons_of_neg (by simp [hc])]
  unfold normalizeChars plainText Text.trim Text.trimWhile
  rw [hfront]

theorem ink_plainText (raw : List Char) : ink (plainText raw) = ink raw := by
  have hfront : ink (raw.dropWhile isBlank) = ink raw := by
    conv_rhs => rw [← List.takeWhile_append_dropWhile (p := isBlank) (l := raw), ink_append,
      ink_blanks fun _ => List.mem_takeWhile_imp, List.nil_append]
  unfold plainText
  rw [ink_trim, ink_collapseBlankLines, hfront]

/-- No ink is lost in the normal form of a section that is no list. -/
theorem mem_normalizeChars {c : Char} (hc : isBlank c = false) {heading : String}
    (hh : isListHeading heading = false) (s : List Char) :
    c ∈ normalizeChars heading s ↔ c ∈ s := by
  rw [normalizeChars_eq, hh, if_neg Bool.false_ne_true, ← mem_ink hc, ink_plainText, mem_ink hc]

/-- The normal form has no blanks at its edges. -/
theorem trim_normalizeChars {heading : String} (hh : isListHeading heading = false)
    (s : List Char) : Text.trim (normalizeChars heading s) = normalizeChars heading s := by
  rw [normalizeChars_eq, hh, if_neg Bool.false_ne_true]
  exact Text.trim_trim _

/-! ## Lines -/

/-- Inked text without breaks is a text with one line, and so on: a break between inks stands. -/
theorem normalizeChars_inked {heading : String} (hh : isListHeading heading = false)
    {s trail : List Char} (hs : Text.Inked s) (hc : collapseBlankLines s = s)
    (ht : ∀ c ∈ trail, isBlank c = true) : normalizeChars heading (s ++ trail) = s := by
  have hback : dropBackWhile isBlank s = s := by
    obtain ⟨init, d, hd, hdb⟩ := hs.last
    rw [Text.dropBackWhile_eq_rdropWhile, hd,
      List.rdropWhile_concat_neg isBlank init d (by simp [hdb])]
  unfold normalizeChars
  rw [hh, hs.dropWhile_append, dropBackWhile_collapse_append ht, hc, hback]
  rfl

end HelpMiner.Page
