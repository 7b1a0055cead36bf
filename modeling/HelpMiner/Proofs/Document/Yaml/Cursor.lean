import HelpMiner.Document.Yaml.Style

/-! Places in a YAML text, told by what lies before them. -/
namespace HelpMiner.Document.Yaml

/-- What is said of every character of a text is decided by reading the text. Without the
priority, an instance that goes through all characters there are may be taken instead. -/
instance (priority := 1100) decidableForallMem (p : Char → Prop) [DecidablePred p]
    (s : List Char) : Decidable (∀ x ∈ s, p x) :=
  List.decidableBAll p s

theorem isBreak_of_isBlank {c : Char} (h : isBlank c = true) : isBreak c = false := by
  simp only [isBlank, Bool.or_eq_true, beq_iff_eq] at h
  rcases h with rfl | rfl <;> rfl

namespace Cursor

/-- Move past one character, which is not the first of two that end a line together. -/
def step (c : Cursor) (x : Char) : Cursor :=
  if isBreak x then ⟨c.rest.tail, c.index + 1, c.line + 1, 0⟩ else c.skip 1

/-- Move past a text. -/
def past (c : Cursor) (s : List Char) : Cursor := s.foldl step c

@[simp] theorem past_nil (c : Cursor) : c.past [] = c := rfl

theorem past_append (c : Cursor) (s t : List Char) : c.past (s ++ t) = (c.past s).past t :=
  List.foldl_append

theorem past_singleton_break (c : Cursor) {b : Char} (hb : isBreak b = true) :
    c.past [b] = ⟨c.rest.tail, c.index + 1, c.line + 1, 0⟩ := by
  simp [past, step, hb]

theorem skip_one_eq_past (c : Cursor) {x : Char} (hx : isBreak x = false) :
    c.skip 1 = c.past [x] := by
  simp [past, step, hx]

theorem past_cons (c : Cursor) (x : Char) (s : List Char) :
    c.past (x :: s) = (c.past [x]).past s := past_append c [x] s

@[simp] theorem rest_past (c : Cursor) (s : List Char) :
    (c.past s).rest = c.rest.drop s.length := by
  induction s generalizing c with
  | nil => rfl
  | cons x s ih =>
    have hstep : (c.past [x]).rest = c.rest.drop 1 := by
      by_cases hx : isBreak x <;> simp [past, step, skip, hx]
    rw [past_cons, ih, hstep, List.drop_drop, List.length_cons, Nat.add_comm]

theorem rest_past_of_eq {c : Cursor} {s t : List Char} (h : c.rest = s ++ t) :
    (c.past s).rest = t := by
  rw [rest_past, h, List.drop_left]

@[simp] theorem index_past (c : Cursor) (s : List Char) :
    (c.past s).index = c.index + s.length := by
  induction s generalizing c with
  | nil => rfl
  | cons x s ih =>
    have hstep : (c.past [x]).index = c.index + 1 := by
      by_cases hx : isBreak x <;> simp [past, step, skip, hx]
    rw [past_cons, ih, hstep, List.length_cons]
    omega

theorem length_rest_past {c : Cursor} {s t : List Char} (h : c.rest = s ++ t) :
    c.rest.length = s.length + (c.past s).rest.length := by
  rw [rest_past_of_eq h, h, List.length_append]

theorem length_rest_past_le {c : Cursor} {x : Char} {rest : List Char} (hrest : c.rest = x :: rest)
    {s : List Char} (hne : s ≠ []) : (c.past s).rest.length ≤ rest.length := by
  have hlength := List.length_pos_iff.2 hne
  rw [rest_past, hrest, List.length_drop, List.length_cons]
  omega

theorem line_le_past (c : Cursor) (s : List Char) : c.line ≤ (c.past s).line := by
  induction s generalizing c with
  | nil => exact Nat.le_refl _
  | cons x s ih =>
    have hstep : c.line ≤ (c.past [x]).line := by
      by_cases hx : isBreak x <;> simp [past, step, skip, hx]
    rw [past_cons]
    exact Nat.le_trans hstep (ih _)

/-- On one line, only the column changes. -/
theorem past_eq_skip (c : Cursor) {s : List Char} (h : ∀ x ∈ s, isBreak x = false) :
    c.past s = c.skip s.length := by
  induction s generalizing c with
  | nil => simp [skip]
  | cons x s ih =>
    rw [List.forall_mem_cons] at h
    rw [past_cons, ← skip_one_eq_past c h.1, ih _ h.2]
    simp only [skip, List.drop_drop, List.length_cons, Cursor.mk.injEq]
    refine ⟨?_, by omega, trivial, by omega⟩
    rw [Nat.add_comm]

theorem line_past (c : Cursor) {s : List Char} (h : ∀ x ∈ s, isBreak x = false) :
    (c.past s).line = c.line := by
  rw [past_eq_skip c h, skip]

theorem column_past (c : Cursor) {s : List Char} (h : ∀ x ∈ s, isBreak x = false) :
    (c.past s).column = c.column + s.length := by
  rw [past_eq_skip c h, skip]

theorem skipLine_eq_past {c : Cursor} {b : Char} {rest : List Char} (hrest : c.rest = b :: rest)
    (hb : isBreak b = true) (hr : b ≠ '\r') : c.skipLine = c.past [b] := by
  rw [past_singleton_break c hb, skipLine, hrest]
  split
  · rename_i heq
    exact absurd (List.cons.inj heq).1 hr
  · rename_i heq
    obtain ⟨rfl, rfl⟩ := List.cons.inj heq
    rw [if_pos hb]
    rfl
  · contradiction

theorem column_past_ne_zero (c : Cursor) {s : List Char} (h : ∀ x ∈ s, isBreak x = false)
    (hne : s ≠ []) : (c.past s).column ≠ 0 := by
  have hlength := List.length_pos_iff.2 hne
  rw [column_past c h]
  omega

theorem column_past_break (c : Cursor) {b : Char} (hb : isBreak b = true) :
    (c.past [b]).column = 0 := by
  rw [past_singleton_break c hb]

theorem line_past_break (c : Cursor) {b : Char} (hb : isBreak b = true) :
    (c.past [b]).line = c.line + 1 := by
  rw [past_singleton_break c hb]

theorem skipWhile_eq_past {c : Cursor} {p : Char → Bool} {s rest : List Char}
    (hrest : c.rest = s ++ rest) (hs : ∀ x ∈ s, p x = true) (hstop : rest.head?.any p = false)
    (hbreak : ∀ x ∈ s, isBreak x = false) : c.skipWhile p = c.past s := by
  have htake : (s ++ rest).takeWhile p = s := by
    rw [List.takeWhile_append_of_pos hs]
    cases rest with
    | nil => simp
    | cons x rest => simp_all
  rw [skipWhile, hrest, htake, past_eq_skip c hbreak]

theorem sees_eq {c : Cursor} {s : List Char} (hrest : c.rest = s) (p : Char → Bool) :
    c.sees p = s.head?.any p := by
  rw [sees, hrest]

theorem sees_iff {c : Cursor} {x : Char} {rest : List Char} (hrest : c.rest = x :: rest)
    (p : Char → Bool) : c.sees p = p x := by
  simp [sees, hrest]

/-- Only at the front of a line can documents be separated. -/
theorem atMarker_eq_false {c : Cursor} (h : c.column ≠ 0) : c.atMarker = false := by
  simp [atMarker, h]

end Cursor

/-! ## Spaces -/

theorem isBreak_of_mem_spaces {n : Nat} : ∀ x ∈ spaces n, isBreak x = false :=
  fun _ hx => (List.eq_of_mem_replicate hx).symm ▸ rfl

@[simp] theorem length_spaces (n : Nat) : (spaces n).length = n := List.length_replicate

namespace Cursor

/-- After line breaks, the column is how many spaces there are. -/
theorem column_past_lines (c : Cursor) {b : Char} (hb : isBreak b = true) {bs : List Char}
    (hbs : ∀ x ∈ bs, isBreak x = true) (n : Nat) : (c.past (b :: (bs ++ spaces n))).column = n := by
  induction bs generalizing c b with
  | nil =>
    rw [List.nil_append, past_cons, column_past _ isBreak_of_mem_spaces, column_past_break c hb,
      length_spaces, Nat.zero_add]
  | cons x bs ih =>
    rw [List.forall_mem_cons] at hbs
    rw [past_cons, List.cons_append]
    exact ih _ hbs.1 hbs.2

theorem column_past_spaces {c : Cursor} (hcolumn : c.column = 0) {bs : List Char}
    (hbs : ∀ x ∈ bs, isBreak x = true) (n : Nat) : (c.past (bs ++ spaces n)).column = n := by
  cases bs with
  | nil => rw [List.nil_append, column_past _ isBreak_of_mem_spaces, hcolumn, length_spaces,
      Nat.zero_add]
  | cons b bs =>
    rw [List.forall_mem_cons] at hbs
    exact column_past_lines c hbs.1 hbs.2 n

theorem column_past_line (c : Cursor) {b : Char} (hb : isBreak b = true) (n : Nat) :
    (c.past (b :: spaces n)).column = n :=
  column_past_lines c hb (List.forall_mem_nil _) n

end Cursor

end HelpMiner.Document.Yaml
