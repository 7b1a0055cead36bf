import HelpMiner.Text.Basic
import Mathlib.Data.List.Basic

/-! Replacement in a text with marks. Where each mark is written as the text that is looked for, it
is replaced for any replacement just if that text stands nowhere but at the marks. -/
namespace HelpMiner.Text

/-- The text of characters and marks, with `word` for each mark. -/
def writeMarks (word : List Char) (es : List (Option Char)) : List Char :=
  es.flatMap fun e => e.elim word fun c => [c]

section Write

variable (word : List Char)

@[simp] theorem writeMarks_nil : writeMarks word [] = [] := rfl

@[simp] theorem writeMarks_plain (c : Char) (es : List (Option Char)) :
    writeMarks word (some c :: es) = c :: writeMarks word es := rfl

@[simp] theorem writeMarks_mark (es : List (Option Char)) :
    writeMarks word (none :: es) = word ++ writeMarks word es := rfl

theorem writeMarks_append (es more : List (Option Char)) :
    writeMarks word (es ++ more) = writeMarks word es ++ writeMarks word more :=
  List.flatMap_append

theorem writeMarks_map_some (s : List Char) : writeMarks word (s.map some) = s := by
  induction s with
  | nil => rfl
  | cons c s ih => rw [List.map_cons, writeMarks_plain, ih]

end Write

/-- Where the word stands in the text, there is a mark. -/
def OnlyAtMarks (word : List Char) (es : List (Option Char)) : Prop :=
  ∀ front back, writeMarks word es = front ++ word ++ back →
    ∃ before after, es = before ++ none :: after ∧ writeMarks word before = front

/-- Whatever is put for the word, it is put for the marks. -/
def ReplacesMarks (word : List Char) (es : List (Option Char)) : Prop :=
  ∀ new, replaceChars word new (writeMarks word es) = writeMarks new es

/-! ## Replacement -/

section Replace

variable {first : Char} {others : List Char}

theorem replaceChars_found (new rest : List Char) :
    replaceChars (first :: others) new (first :: others ++ rest) =
      new ++ replaceChars (first :: others) new rest := by
  have hfound : (first :: others).isPrefixOf (first :: (others ++ rest)) = true :=
    List.isPrefixOf_iff_prefix.2 (List.prefix_append (first :: others) rest)
  have hrest : (others ++ rest).drop ((first :: others).length - 1) = rest := List.drop_left
  rw [List.cons_append, replaceChars, if_pos hfound, hrest]

theorem replaceChars_kept {word : List Char} {c : Char} {rest : List Char}
    (h : ¬ word <+: c :: rest) (new : List Char) :
    replaceChars word new (c :: rest) = c :: replaceChars word new rest := by
  rw [replaceChars, if_neg (by rwa [List.isPrefixOf_iff_prefix])]

theorem replaceChars_plain_append {s : List Char} (hs : first ∉ s) (new rest : List Char) :
    replaceChars (first :: others) new (s ++ rest) =
      s ++ replaceChars (first :: others) new rest := by
  induction s with
  | nil => rfl
  | cons c s ih =>
    obtain ⟨hc, hs⟩ := List.ne_and_not_mem_of_not_mem_cons hs
    have hkept : ¬ first :: others <+: c :: (s ++ rest) := fun hp =>
      hc (List.cons_prefix_cons.1 hp).1
    rw [List.cons_append, replaceChars_kept hkept, ih hs, List.cons_append]

/-- A word whose first character does not come again stands nowhere across its own end. -/
theorem exists_of_append_eq (hfirst : first ∉ others) {front back rest : List Char}
    (hne : front ≠ []) (h : first :: others ++ rest = front ++ (first :: others) ++ back) :
    ∃ more, front = first :: others ++ more ∧ rest = more ++ (first :: others) ++ back := by
  rw [List.append_assoc, List.append_eq_append_iff] at h
  obtain ⟨more, hfront, hrest⟩ | ⟨tail, hword, htail⟩ := h
  · exact ⟨more, hfront, by rw [hrest, List.append_assoc]⟩
  · obtain ⟨c, front, rfl⟩ := List.exists_cons_of_ne_nil hne
    rw [List.cons_append, List.cons.injEq] at hword
    cases tail with
    | nil =>
      rw [List.nil_append] at htail
      refine ⟨[], ?_, ?_⟩
      · rw [List.append_nil, hword.1, hword.2, List.append_nil]
      · rw [List.nil_append, htail]
    | cons d tail =>
      obtain ⟨rfl, -⟩ := List.cons.inj htail
      exact absurd (hword.2 ▸ List.mem_append_right front List.mem_cons_self) hfirst

/-! ## Marks -/

theorem onlyAtMarks_nil : OnlyAtMarks (first :: others) [] := by
  intro front back h
  simp at h

theorem onlyAtMarks_plain {c : Char} {es : List (Option Char)} :
    OnlyAtMarks (first :: others) (some c :: es) ↔
      ¬ first :: others <+: c :: writeMarks (first :: others) es ∧
        OnlyAtMarks (first :: others) es := by
  constructor
  · intro h
    constructor
    · rintro ⟨back, hback⟩
      obtain ⟨before, after, hes, hempty⟩ := h [] back hback.symm
      cases before with
      | nil => cases hes
      | cons e before =>
        obtain ⟨rfl, -⟩ := List.cons.inj hes
        cases hempty
    · intro front back hes
      obtain ⟨before, after, hsplit, hbefore⟩ := h (c :: front) back (by
        rw [writeMarks_plain, hes]
        rfl)
      cases before with
      | nil => cases hsplit
      | cons e before =>
        obtain ⟨rfl, htail⟩ := List.cons.inj hsplit
        exact ⟨before, after, htail, (List.cons.inj hbefore).2⟩
  · rintro ⟨hc, h⟩ front back hes
    cases front with
    | nil => exact absurd ⟨back, hes.symm⟩ hc
    | cons d front =>
      obtain ⟨rfl, htail⟩ := List.cons.inj hes
      obtain ⟨before, after, rfl, rfl⟩ := h front back htail
      exact ⟨some c :: before, after, rfl, rfl⟩

theorem onlyAtMarks_mark (hfirst : first ∉ others) {es : List (Option Char)} :
    OnlyAtMarks (first :: others) (none :: es) ↔ OnlyAtMarks (first :: others) es := by
  constructor
  · intro h front back hes
    obtain ⟨before, after, hsplit, hbefore⟩ := h (first :: others ++ front) back (by
      rw [writeMarks_mark, hes]
      simp)
    cases before with
    | nil => cases hbefore
    | cons e before =>
      obtain ⟨rfl, htail⟩ := List.cons.inj hsplit
      exact ⟨before, after, htail, List.append_cancel_left hbefore⟩
  · intro h front back hes
    by_cases hne : front = []
    · exact ⟨[], es, rfl, hne.symm⟩
    · obtain ⟨more, rfl, hrest⟩ := exists_of_append_eq hfirst hne hes
      obtain ⟨before, after, rfl, rfl⟩ := h more back hrest
      exact ⟨none :: before, after, rfl, rfl⟩

theorem replacesMarks_plain {c : Char} {es : List (Option Char)} :
    ReplacesMarks (first :: others) (some c :: es) ↔
      ¬ first :: others <+: c :: writeMarks (first :: others) es ∧
        ReplacesMarks (first :: others) es := by
  constructor
  · intro h
    have hc : ¬ first :: others <+: c :: writeMarks (first :: others) es := by
      -- A replacement that begins with another character would be put at the front.
      rintro ⟨rest, hrest⟩
      have hnew := h [if c = 'a' then 'b' else 'a']
      rw [writeMarks_plain, ← hrest, replaceChars_found, writeMarks_plain] at hnew
      have hhead := (List.cons.inj hnew).1
      by_cases ha : c = 'a'
      · rw [if_pos ha, ha] at hhead
        exact absurd hhead (by decide)
      · rw [if_neg ha] at hhead
        exact ha hhead.symm
    refine ⟨hc, fun new => ?_⟩
    have hnew := h new
    rw [writeMarks_plain, replaceChars_kept hc, writeMarks_plain] at hnew
    exact (List.cons.inj hnew).2
  · rintro ⟨hc, h⟩ new
    rw [writeMarks_plain, replaceChars_kept hc, h new, writeMarks_plain]

theorem replacesMarks_mark {es : List (Option Char)} :
    ReplacesMarks (first :: others) (none :: es) ↔ ReplacesMarks (first :: others) es := by
  refine forall_congr' fun new => ?_
  rw [writeMarks_mark, replaceChars_found, writeMarks_mark, List.append_cancel_left_eq]

/-- A word whose first character does not come again is replaced at the marks alone just if it
stands at the marks alone. -/
theorem replacesMarks_iff (hfirst : first ∉ others) {es : List (Option Char)} :
    ReplacesMarks (first :: others) es ↔ OnlyAtMarks (first :: others) es := by
  induction es with
  | nil => exact iff_of_true (fun new => by simp [replaceChars]) onlyAtMarks_nil
  | cons e es ih =>
    cases e with
    | none => rw [replacesMarks_mark, onlyAtMarks_mark hfirst, ih]
    | some c => rw [replacesMarks_plain, onlyAtMarks_plain, ih]

/-- Text without the first character of the word adds no place where the word stands. -/
theorem onlyAtMarks_plain_append {s : List Char} (hs : first ∉ s) {es : List (Option Char)} :
    OnlyAtMarks (first :: others) (s.map some ++ es) ↔ OnlyAtMarks (first :: others) es := by
  induction s with
  | nil => rfl
  | cons c s ih =>
    obtain ⟨hc, hs⟩ := List.ne_and_not_mem_of_not_mem_cons hs
    rw [List.map_cons, List.cons_append, onlyAtMarks_plain, ih hs, and_iff_right]
    intro hp
    exact hc (List.cons_prefix_cons.1 hp).1

end Replace

end HelpMiner.Text
