import Mathlib
import HelpMiner.Text.Basic

/-! Lower case changes letters only, and a text matched without regard to case is known up to
case. -/
namespace HelpMiner.Text

/-- A class of characters that has all letters does not see letter case. -/
theorem toLower_stable {p : Char → Bool} (hp : ∀ c, c.isAlpha = true → p c = true) (c : Char) :
    p c.toLower = p c := by
  by_cases hu : c.isUpper = true
  · have ha : c.isAlpha = true := by simp [Char.isAlpha, hu]
    have hl : c.toLower.isAlpha = true := by rw [Char.isAlpha_toLower_eq_isAlpha, ha]
    rw [hp c ha, hp _ hl]
  · rw [Char.toLower_eq_of_not_isUpper hu]

/-- Only a letter has another character in its place in lower case. -/
theorem eq_of_toLower_eq {c d : Char} (hd : d.isAlpha = false) (h : c.toLower = d.toLower) :
    c = d := by
  have hdu : ¬ d.isUpper = true := by
    intro hu
    simp [Char.isAlpha, hu] at hd
  rw [Char.toLower_eq_of_not_isUpper hdu] at h
  by_cases hu : c.isUpper = true
  · have ha : c.isAlpha = true := by simp [Char.isAlpha, hu]
    rw [← Char.isAlpha_toLower_eq_isAlpha, h, hd] at ha
    cases ha
  · rwa [Char.toLower_eq_of_not_isUpper hu] at h

theorem lower_lower (s : List Char) : lower (lower s) = lower s := by
  unfold lower
  rw [List.map_map]
  apply List.map_congr_left
  intro c _
  exact Char.toLower_toLower_eq_toLower c

theorem lower_append (s t : List Char) : lower (s ++ t) = lower s ++ lower t := List.map_append

theorem all_lower {p : Char → Bool} (hp : ∀ c, c.isAlpha = true → p c = true) {s : List Char}
    (h : ∀ c ∈ s, p c = true) : ∀ c ∈ lower s, p c = true := by
  intro c hc
  obtain ⟨d, hd, rfl⟩ := List.mem_map.1 hc
  rw [toLower_stable hp]
  exact h d hd

theorem all_of_lower {p : Char → Bool} (hp : ∀ c, c.isAlpha = true → p c = true) {s : List Char}
    (h : ∀ c ∈ lower s, p c = true) : ∀ c ∈ s, p c = true := by
  intro c hc
  rw [← toLower_stable hp]
  exact h _ (List.mem_map_of_mem hc)

theorem afterLetters?_append {lead front : List Char} (h : lower front = lower lead)
    (rest : List Char) : afterLetters? lead (front ++ rest) = some rest := by
  induction lead generalizing front with
  | nil =>
    have hf : front = [] := List.map_eq_nil_iff.1 h
    rw [hf]
    rfl
  | cons l lead ih =>
    cases front with
    | nil => cases h
    | cons c front =>
      obtain ⟨hc, hr⟩ := List.cons.inj h
      rw [List.cons_append, afterLetters?, hc, beq_self_eq_true, if_pos rfl]
      exact ih hr

theorem exists_of_afterLetters? {lead s rest : List Char} (h : afterLetters? lead s = some rest) :
    ∃ front, s = front ++ rest ∧ lower front = lower lead := by
  induction lead generalizing s with
  | nil =>
    cases h
    exact ⟨[], rfl, rfl⟩
  | cons l lead ih =>
    cases s with
    | nil => cases h
    | cons c s =>
      unfold afterLetters? at h
      split at h
      · rename_i hc
        obtain ⟨front, hs, hf⟩ := ih h
        refine ⟨c :: front, by rw [hs]; rfl, ?_⟩
        exact congrArg₂ List.cons (beq_iff_eq.1 hc).symm hf
      · cases h

/-- A match does not run past a character that `lead` has in no letter case. -/
theorem afterLetters?_append_cons {lead : List Char} {d : Char}
    (h : ∀ c ∈ lead, c.toLower ≠ d.toLower) (s more : List Char) :
    afterLetters? lead (s ++ d :: more) = (afterLetters? lead s).map (· ++ d :: more) := by
  induction lead generalizing s with
  | nil => rfl
  | cons l lead ih =>
    have hl : (l.toLower == d.toLower) = false := beq_eq_false_iff_ne.2 (h l List.mem_cons_self)
    cases s with
    | nil =>
      rw [List.nil_append]
      simp [afterLetters?, hl]
    | cons c s =>
      rw [List.cons_append, afterLetters?, afterLetters?]
      split
      · exact ih (fun e he => h e (List.mem_cons_of_mem _ he)) s
      · rfl

theorem startsWithLetters_iff (lead s : List Char) :
    startsWithLetters lead s = true ↔ ∃ front rest, s = front ++ rest ∧ lower front = lower lead := by
  unfold startsWithLetters
  constructor
  · intro h
    obtain ⟨rest, hr⟩ := Option.isSome_iff_exists.1 h
    obtain ⟨front, hs, hf⟩ := exists_of_afterLetters? hr
    exact ⟨front, rest, hs, hf⟩
  · rintro ⟨front, rest, rfl, hf⟩
    rw [afterLetters?_append hf]
    rfl

end HelpMiner.Text
