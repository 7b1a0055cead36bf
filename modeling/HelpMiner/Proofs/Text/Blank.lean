import Mathlib
import HelpMiner.Text.Word

/-! Trimming a text between blanks, cutting it into pieces and joining texts, and blanks as no part
of words. -/
namespace HelpMiner.Text

/-- The code points of all blanks. -/
def blankCodes : List Nat :=
  [0x09, 0x0A, 0x0B, 0x0C, 0x0D, 0x20, 0x85, 0xA0, 0x1680, 0x2000, 0x2001, 0x2002, 0x2003, 0x2004,
    0x2005, 0x2006, 0x2007, 0x2008, 0x2009, 0x200A, 0x2028, 0x2029, 0x202F, 0x205F, 0x3000]

theorem toNat_mem_blankCodes {c : Char} (h : isBlank c = true) : c.toNat ∈ blankCodes := by
  simp only [isBlank, Bool.or_eq_true, Bool.and_eq_true, decide_eq_true_eq, beq_iff_eq] at h
  simp only [blankCodes, List.mem_cons, List.not_mem_nil, or_false]
  omega

/-- What holds of the blank code points holds of every blank. -/
theorem forall_isBlank {p : Char → Prop} (h : ∀ n ∈ blankCodes, p (Char.ofNat n)) {c : Char}
    (hc : isBlank c = true) : p c := by
  have hp := h c.toNat (toNat_mem_blankCodes hc)
  rwa [Char.ofNat_toNat] at hp

/-- No blank is a character of a word. -/
theorem isWord_of_isBlank {c : Char} (h : isBlank c = true) : isWord c = false :=
  forall_isBlank (p := fun d => isWord d = false) (by decide +kernel) h

/-! ## Trimming -/

theorem dropBackWhile_eq_rdropWhile (p : Char → Bool) (s : List Char) :
    dropBackWhile p s = s.rdropWhile p := by
  have hcons : ∀ c rest, (c :: rest).rdropWhile p =
      if rest.rdropWhile p = [] then (if p c then [] else [c]) else c :: rest.rdropWhile p := by
    intro c rest
    unfold List.rdropWhile
    rw [List.reverse_cons, List.dropWhile_append]
    cases hd : rest.reverse.dropWhile p with
    | nil => by_cases hc : p c <;> simp [hc]
    | cons d ds => simp
  induction s with
  | nil => rfl
  | cons c rest ih =>
    rw [hcons, ← ih, dropBackWhile]
    cases dropBackWhile p rest with
    | nil => rfl
    | cons d ds => rfl

theorem dropBackWhile_append {p : Char → Bool} {trail : List Char} (ht : ∀ c ∈ trail, p c = true)
    (s : List Char) : dropBackWhile p (s ++ trail) = dropBackWhile p s := by
  rw [dropBackWhile_eq_rdropWhile, dropBackWhile_eq_rdropWhile]
  unfold List.rdropWhile
  rw [List.reverse_append, List.dropWhile_append_of_pos (by simpa using ht)]

/-- A text with ink at both ends. -/
structure Inked (s : List Char) : Prop where
  first : ∃ c rest, s = c :: rest ∧ isBlank c = false
  last : ∃ init c, s = init ++ [c] ∧ isBlank c = false

theorem Inked.append {s t : List Char} (hs : Inked s) (ht : Inked t) (m : List Char) :
    Inked (s ++ (m ++ t)) where
  first := by
    obtain ⟨c, rest, rfl, hc⟩ := hs.first
    exact ⟨c, rest ++ (m ++ t), rfl, hc⟩
  last := by
    obtain ⟨init, c, rfl, hc⟩ := ht.last
    exact ⟨s ++ (m ++ init), c, by simp, hc⟩

theorem Inked.dropWhile_append {s : List Char} (hs : Inked s) (t : List Char) :
    (s ++ t).dropWhile isBlank = s ++ t := by
  obtain ⟨c, rest, rfl, hc⟩ := hs.first
  exact List.dropWhile_cons_of_neg (by simp [hc])

/-- Trimming strips the blanks around a text, and no more. -/
theorem trim_append {lead s trail : List Char} (hl : ∀ c ∈ lead, isBlank c = true) (hs : Inked s)
    (ht : ∀ c ∈ trail, isBlank c = true) : trim (lead ++ (s ++ trail)) = s := by
  obtain ⟨init, d, hd, hdb⟩ := hs.last
  have hfront : (lead ++ (s ++ trail)).dropWhile isBlank = s ++ trail := by
    rw [List.dropWhile_append_of_pos hl, hs.dropWhile_append]
  unfold trim trimWhile
  rw [hfront, dropBackWhile_append ht, dropBackWhile_eq_rdropWhile, hd,
    List.rdropWhile_concat_neg isBlank init d (by simp [hdb])]

theorem trim_inked {s : List Char} (hs : Inked s) : trim s = s := by
  have hnone : ∀ c ∈ ([] : List Char), isBlank c = true := by simp
  have h := trim_append hnone hs hnone
  rwa [List.nil_append, List.append_nil] at h

theorem trim_blanks {s : List Char} (hs : ∀ c ∈ s, isBlank c = true) : trim s = [] := by
  unfold trim trimWhile
  rw [List.dropWhile_eq_nil_iff.2 hs]
  rfl

theorem trim_append_blanks {trail : List Char} (ht : ∀ c ∈ trail, isBlank c = true)
    (s : List Char) : trim (s ++ trail) = trim s := by
  unfold trim trimWhile
  rw [List.dropWhile_append]
  split
  · rename_i hs
    rw [List.isEmpty_iff.1 hs, List.dropWhile_eq_nil_iff.2 ht]
  · exact dropBackWhile_append ht _

/-- A text is what trimming leaves of it between two stretches that are stripped. -/
theorem exists_trimWhile (p : Char → Bool) (s : List Char) :
    ∃ lead trail, s = lead ++ (trimWhile p s ++ trail) ∧ (∀ c ∈ lead, p c = true) ∧
      ∀ c ∈ trail, p c = true := by
  refine ⟨s.takeWhile p, (s.dropWhile p).rtakeWhile p, ?_, fun c hc => ?_, fun c hc => ?_⟩
  · unfold trimWhile
    rw [dropBackWhile_eq_rdropWhile, List.rdropWhile_append_rtakeWhile,
      List.takeWhile_append_dropWhile]
  · exact List.mem_takeWhile_imp hc
  · exact List.mem_rtakeWhile_imp hc

theorem trim_subset (s : List Char) : trim s ⊆ s := by
  obtain ⟨lead, trail, hs, -, -⟩ := exists_trimWhile isBlank s
  intro c hc
  rw [hs]
  exact List.mem_append_right lead (List.mem_append_left trail hc)

/-- What trimming leaves has ink at both ends, unless nothing is left. -/
theorem inked_trim {s : List Char} (h : trim s ≠ []) : Inked (trim s) where
  first := by
    unfold trim trimWhile at h ⊢
    cases hd : s.dropWhile isBlank with
    | nil => simp [hd, dropBackWhile] at h
    | cons c rest =>
      have hc : isBlank c = false := by
        have hn := List.head_dropWhile_not isBlank (l := s) (by simp [hd])
        simpa [hd] using hn
      rw [dropBackWhile]
      cases dropBackWhile isBlank rest with
      | nil => exact ⟨c, [], by simp [hc], hc⟩
      | cons d kept => exact ⟨c, d :: kept, rfl, hc⟩
  last := by
    have hr : trim s = (s.dropWhile isBlank).rdropWhile isBlank := dropBackWhile_eq_rdropWhile _ _
    rw [hr] at h ⊢
    have hlast := List.rdropWhile_last_not isBlank (s.dropWhile isBlank) h
    exact ⟨_, _, (List.dropLast_append_getLast h).symm, by simpa using hlast⟩

theorem trim_trim (s : List Char) : trim (trim s) = trim s := by
  by_cases h : trim s = []
  · rw [h]
    rfl
  · exact trim_inked (inked_trim h)

/-- Trimming leaves a front that has ink at both ends. -/
theorem exists_trim_append {s : List Char} (hs : Inked s) (rest : List Char) :
    ∃ more, trim (s ++ rest) = s ++ more := by
  have hrest : rest = rest.rdropWhile isBlank ++ rest.rtakeWhile isBlank :=
    List.rdropWhile_append_rtakeWhile.symm
  have htrail : ∀ c ∈ rest.rtakeWhile isBlank, isBlank c = true :=
    fun c hc => List.mem_rtakeWhile_imp hc
  have hinked : Inked (s ++ rest.rdropWhile isBlank) := by
    by_cases h : rest.rdropWhile isBlank = []
    · rwa [h, List.append_nil]
    · obtain ⟨c, more, rfl, hc⟩ := hs.first
      have hlast := List.rdropWhile_last_not isBlank rest h
      exact {
        first := ⟨c, _, rfl, hc⟩
        last := ⟨_, _, (List.dropLast_append_getLast (by simp)).symm, by
          rw [List.getLast_append_of_ne_nil _ h]
          simpa using hlast⟩ }
  refine ⟨rest.rdropWhile isBlank, ?_⟩
  have htrim := trim_append (List.forall_mem_nil _) hinked htrail
  rwa [List.nil_append, List.append_assoc, ← hrest] at htrim

/-! ## Cutting -/

theorem cutWhere_ne_nil (p : Char → Bool) (s : List Char) : cutWhere p s ≠ [] := by
  cases s with
  | nil => simp [cutWhere]
  | cons c rest =>
    unfold cutWhere
    split
    · simp
    · split <;> simp

theorem cutWhere_cons_of_neg {p : Char → Bool} {c : Char} (h : p c = false) (rest : List Char) :
    cutWhere p (c :: rest) = (c :: (cutWhere p rest).headD []) :: (cutWhere p rest).tail := by
  rw [cutWhere]
  cases hr : cutWhere p rest with
  | nil => exact absurd hr (cutWhere_ne_nil p rest)
  | cons piece pieces => simp [h]

theorem cutWhere_cons_of_pos {p : Char → Bool} {c : Char} (h : p c = true) (rest : List Char) :
    cutWhere p (c :: rest) = [] :: cutWhere p rest := by
  rw [cutWhere]
  cases hr : cutWhere p rest with
  | nil => exact absurd hr (cutWhere_ne_nil p rest)
  | cons piece pieces => simp [h]

/-- The pieces before a cut and after it. -/
theorem cutWhere_append_cons {p : Char → Bool} {c : Char} (hc : p c = true)
    (before after : List Char) :
    cutWhere p (before ++ c :: after) = cutWhere p before ++ cutWhere p after := by
  induction before with
  | nil => exact cutWhere_cons_of_pos hc after
  | cons d before ih =>
    obtain ⟨piece, pieces, hp⟩ := List.exists_cons_of_ne_nil (cutWhere_ne_nil p before)
    by_cases hd : p d = true
    · rw [List.cons_append, cutWhere_cons_of_pos hd, cutWhere_cons_of_pos hd, ih]
      rfl
    · have hd : p d = false := Bool.eq_false_of_not_eq_true hd
      rw [List.cons_append, cutWhere_cons_of_neg hd, cutWhere_cons_of_neg hd, ih, hp]
      rfl

theorem cutWhere_piece {p : Char → Bool} {s : List Char} (hs : ∀ c ∈ s, p c = false) :
    cutWhere p s = [s] := by
  induction s with
  | nil => rfl
  | cons c s ih =>
    rw [cutWhere_cons_of_neg (hs c List.mem_cons_self),
      ih fun d hd => hs d (List.mem_cons_of_mem c hd)]
    rfl

/-- A character that is no cut goes on with the last piece. -/
theorem exists_cutWhere_concat {p : Char → Bool} {c : Char} (hc : p c = false) (s : List Char) :
    ∃ front last, cutWhere p s = front ++ [last] ∧
      cutWhere p (s ++ [c]) = front ++ [last ++ [c]] := by
  induction s with
  | nil => exact ⟨[], [], rfl, cutWhere_piece fun d hd => by rwa [List.mem_singleton.1 hd]⟩
  | cons d s ih =>
    obtain ⟨front, last, hs, hcut⟩ := ih
    rw [List.cons_append]
    by_cases hd : p d = true
    · refine ⟨[] :: front, last, ?_, ?_⟩
      · rw [cutWhere_cons_of_pos hd, hs, List.cons_append]
      · rw [cutWhere_cons_of_pos hd, hcut, List.cons_append]
    · have hd := Bool.eq_false_of_not_eq_true hd
      rw [cutWhere_cons_of_neg hd, cutWhere_cons_of_neg hd, hs, hcut]
      cases front with
      | nil => exact ⟨[], d :: last, rfl, rfl⟩
      | cons piece front => exact ⟨(d :: piece) :: front, last, rfl, rfl⟩

/-- Characters that cut nothing go to the last piece. -/
theorem cutWhere_append_piece {p : Char → Bool} {more : List Char} (hmore : ∀ c ∈ more, p c = false)
    {s last : List Char} {front : List (List Char)} (h : cutWhere p s = front ++ [last]) :
    cutWhere p (s ++ more) = front ++ [last ++ more] := by
  induction more generalizing s last with
  | nil => rwa [List.append_nil, List.append_nil]
  | cons c more ih =>
    obtain ⟨init, piece, hs, hcut⟩ := exists_cutWhere_concat (hmore c List.mem_cons_self) s
    obtain ⟨rfl, hpiece⟩ := List.append_inj' (h.symm.trans hs) rfl
    obtain rfl : last = piece := List.singleton_inj.1 hpiece
    have hrest := ih (fun d hd => hmore d (List.mem_cons_of_mem c hd)) hcut
    rwa [List.append_assoc, List.append_assoc] at hrest

/-- The pieces together are the text without its cuts. -/
theorem flatten_cutWhere (p : Char → Bool) (s : List Char) :
    (cutWhere p s).flatten = s.filter fun c => !p c := by
  induction s with
  | nil => rfl
  | cons d s ih =>
    obtain ⟨piece, pieces, hs⟩ := List.exists_cons_of_ne_nil (cutWhere_ne_nil p s)
    by_cases hd : p d = true
    · rw [cutWhere_cons_of_pos hd, List.flatten_cons, ih, List.filter_cons_of_neg (by simp [hd])]
      rfl
    · have hd := Bool.eq_false_of_not_eq_true hd
      rw [cutWhere_cons_of_neg hd, List.filter_cons_of_pos (by simp [hd]), ← ih, hs]
      rfl

/-- No piece has a character at which the text is cut. -/
theorem of_mem_cutWhere {p : Char → Bool} {s piece : List Char} (h : piece ∈ cutWhere p s) :
    ∀ c ∈ piece, p c = false := by
  induction s generalizing piece with
  | nil =>
    obtain rfl := List.mem_singleton.1 h
    simp
  | cons d rest ih =>
    by_cases hd : p d = true
    · rw [cutWhere_cons_of_pos hd, List.mem_cons] at h
      rcases h with rfl | h
      · simp
      · exact ih h
    · have hd : p d = false := Bool.eq_false_of_not_eq_true hd
      obtain ⟨first, more, hf⟩ := List.exists_cons_of_ne_nil (cutWhere_ne_nil p rest)
      rw [cutWhere_cons_of_neg hd, hf, List.headD_cons, List.tail_cons, List.mem_cons] at h
      rw [hf] at ih
      rcases h with rfl | h
      · intro c hc
        rcases List.mem_cons.1 hc with rfl | hc
        · exact hd
        · exact ih List.mem_cons_self c hc
      · exact ih (List.mem_cons_of_mem _ h)

/-- The first piece stands at the front of the text, and every other piece stands in it. -/
theorem exists_cutWhere_cons (p : Char → Bool) (s : List Char) : ∃ first more,
    cutWhere p s = first :: more ∧ first <+: s ∧ ∀ piece ∈ more, piece <:+: s := by
  induction s with
  | nil => exact ⟨[], [], rfl, List.nil_prefix, List.forall_mem_nil _⟩
  | cons c s ih =>
    obtain ⟨first, more, hs, hfirst, hmore⟩ := ih
    have hrest : ∀ piece ∈ more, piece <:+: c :: s :=
      fun piece hp => List.infix_cons (hmore piece hp)
    by_cases hc : p c = true
    · refine ⟨[], first :: more, ?_, List.nil_prefix, ?_⟩
      · rw [cutWhere_cons_of_pos hc, hs]
      · exact List.forall_mem_cons.2 ⟨List.infix_cons hfirst.isInfix, hrest⟩
    · refine ⟨c :: first, more, ?_, List.cons_prefix_cons.2 ⟨rfl, hfirst⟩, hrest⟩
      rw [cutWhere_cons_of_neg (Bool.eq_false_of_not_eq_true hc), hs]
      rfl

theorem isInfix_of_mem_cutWhere {p : Char → Bool} {s piece : List Char}
    (h : piece ∈ cutWhere p s) : piece <:+: s := by
  obtain ⟨first, more, hs, hfirst, hmore⟩ := exists_cutWhere_cons p s
  rw [hs] at h
  obtain rfl | h := List.mem_cons.1 h
  · exact hfirst.isInfix
  · exact hmore piece h

/-- Pieces that are joined by a cut are the pieces of the text. -/
theorem cutWhere_intercalate {p : Char → Bool} {c : Char} (hc : p c = true)
    {pieces : List (List Char)} (hne : pieces ≠ [])
    (h : ∀ piece ∈ pieces, ∀ d ∈ piece, p d = false) :
    cutWhere p ([c].intercalate pieces) = pieces := by
  induction pieces with
  | nil => contradiction
  | cons piece rest ih =>
    have hpiece := h piece List.mem_cons_self
    cases rest with
    | nil => rw [List.intercalate_singleton, cutWhere_piece hpiece]
    | cons next rest =>
      have hr := ih (List.cons_ne_nil _ _) fun l hl => h l (List.mem_cons_of_mem _ hl)
      rw [List.intercalate_cons_cons, List.append_assoc, List.singleton_append,
        cutWhere_append_cons hc, cutWhere_piece hpiece, hr]
      rfl

/-- Lines that are joined by line feeds are the lines of the text. -/
theorem cutLines_intercalate {lines : List (List Char)} (hne : lines ≠ [])
    (h : ∀ line ∈ lines, '\n' ∉ line) : cutLines (['\n'].intercalate lines) = lines := by
  apply cutWhere_intercalate (by decide) hne
  intro line hl c hc
  rw [beq_eq_false_iff_ne]
  rintro rfl
  exact h line hl hc

/-- The lines of a text, joined by line feeds, are the text. -/
theorem intercalate_cutLines (s : List Char) : ['\n'].intercalate (cutLines s) = s := by
  unfold cutLines
  induction s with
  | nil => rfl
  | cons c s ih =>
    obtain ⟨piece, pieces, hs⟩ := List.exists_cons_of_ne_nil (cutWhere_ne_nil (· == '\n') s)
    by_cases hc : c = '\n'
    · rw [cutWhere_cons_of_pos (by simp [hc]), hs, List.intercalate_cons_cons, ← hs, ih, hc]
      rfl
    · have hline : ['\n'].intercalate ((c :: piece) :: pieces) =
          c :: ['\n'].intercalate (piece :: pieces) := by
        cases pieces with
        | nil => simp
        | cons next pieces => simp [List.intercalate_cons_cons]
      rw [cutWhere_cons_of_neg (by simp [hc]), hs, List.headD_cons, List.tail_cons, hline, ← hs, ih]

/-- What holds of the characters of all texts and of the separator holds of the characters of the
texts joined. -/
theorem forall_mem_intercalate {p : Char → Prop} {sep : String} (hs : ∀ c ∈ sep.toList, p c)
    {texts : List String} (h : ∀ t ∈ texts, ∀ c ∈ t.toList, p c) :
    ∀ c ∈ (sep.intercalate texts).toList, p c := by
  rw [String.toList_intercalate]
  induction texts with
  | nil => simp
  | cons t rest ih =>
    have ht := h t List.mem_cons_self
    have hrest := ih fun u hu => h u (List.mem_cons_of_mem _ hu)
    cases rest with
    | nil => simpa using ht
    | cons u rest =>
      intro c hc
      rw [List.map_cons, List.map_cons, List.intercalate_cons_cons, ← List.map_cons,
        List.append_assoc, List.mem_append, List.mem_append] at hc
      obtain hc | hc | hc := hc
      · exact ht c hc
      · exact hs c hc
      · exact hrest c hc

theorem intercalate_ne_empty {sep t : String} {rest : List String} (ht : t ≠ "") :
    sep.intercalate (t :: rest) ≠ "" := by
  rw [← String.toList_inj.ne] at ht ⊢
  rw [String.toList_intercalate, List.map_cons]
  cases rest with
  | nil => simpa using ht
  | cons u rest =>
    rw [List.map_cons, List.intercalate_cons_cons, List.append_assoc]
    exact List.append_ne_nil_of_left_ne_nil ht _

end HelpMiner.Text
