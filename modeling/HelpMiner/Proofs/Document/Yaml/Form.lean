import HelpMiner.Document.Yaml.Writer
import HelpMiner.Proofs.Document.Yaml.Block
import HelpMiner.Proofs.Document.Yaml.Scan

/-! Texts as scalars: in the style that is chosen for a text, what stands on its lines. -/
namespace HelpMiner.Document.Yaml

/-! ## Ends of lines -/

theorem ended_append (s : List Char) {t : List Char} (ht : t ≠ []) :
    ended (s ++ t) = s ++ ended t := by
  rw [ended, List.getLast?_append_of_ne_nil _ ht, ended]
  split
  · rfl
  · exact List.append_assoc _ _ _

theorem ended_cons (x : Char) {t : List Char} (ht : t ≠ []) : ended (x :: t) = x :: ended t :=
  ended_append [x] ht

theorem ended_of_ink {s : List Char} (h : s.getLast?.any isBreak = false) :
    ended s = s ++ ['\n'] := by
  rw [ended, h]
  rfl

theorem ended_eq_append_lineEnd (s : List Char) : ended s = s ++ lineEnd s := by
  rw [ended, lineEnd]
  split <;> simp

/-! ## Styles -/

namespace Form

/-- A text in a style. Its further lines are indented by `n`. -/
def write (n : Nat) (s : List Char) : Form → List Char
  | plain => s
  | single => '\'' :: singleRest n false s
  | double => '"' :: doubleRest s
  | block => '|' :: indentSign s ++ chompSign s ++ '\n' :: blockText n true s

/-- How the tokens tell a style. -/
def style : Form → Style
  | plain => .plain
  | block => .literal
  | _ => .other

/-- The texts that a style can hold. -/
inductive Fits : Form → List Char → Prop
  | plain {s : List Char} (hne : s ≠ []) (h : plainAllowed s = true) : Fits plain s
  | single {s : List Char} (h : SingleQuotable s) : Fits single s
  | double {s : List Char} : Fits double s
  | block {s : List Char} (hne : s ≠ []) (h : ∀ x ∈ s, isPrintable x = true) : Fits block s

theorem fits_of (s : List Char) : (of s).Fits s := by
  unfold of
  split_ifs with hnewLine hblock hplain hsingle
  · simp only [blockAllowed, Bool.and_eq_true, Bool.not_eq_true'] at hblock
    refine .block ?_ (all_isPrintable_of_needsDouble hblock.1)
    rintro rfl
    cases hnewLine
  · exact .double
  · simp only [Bool.and_eq_true, Bool.not_eq_true'] at hplain
    refine .plain ?_ hplain.2
    rintro rfl
    cases hplain.1
  · simp only [singleAllowed, Bool.and_eq_true, Bool.not_eq_true'] at hsingle
    have hdouble := hsingle.1
    simp only [needsDouble, Bool.or_eq_false_iff] at hdouble
    exact .single ⟨all_isPrintable_of_needsDouble hsingle.1, by simpa using hnewLine, hdouble.2,
      hsingle.2⟩
  · exact .double

theorem scalar_eq (n : Nat) (s : List Char) : scalar n s = (of s).write n s := by
  unfold scalar
  cases of s <;> rfl

/-- A text on one line is not written as a block. -/
theorem of_ne_block {s : List Char} (h : s.any isBreak = false) : of s ≠ block := by
  have hnewLine : ¬ s.contains '\n' = true := by
    intro hmem
    have hbreak := List.any_eq_false.1 h '\n' (List.elem_iff.1 hmem)
    exact hbreak rfl
  unfold of
  split_ifs <;> simp

end Form

/-! ## Ends of scalars -/

theorem exists_singleRest (n : Nat) (newLine : Bool) (s : List Char) :
    ∃ front, singleRest n newLine s = front ++ ['\''] := by
  induction s generalizing newLine with
  | nil => exact ⟨_, rfl⟩
  | cons x s ih =>
    rw [singleRest]
    split
    · obtain ⟨front, hfront⟩ := ih true
      exact ⟨x :: front, by rw [hfront, List.cons_append]⟩
    · obtain ⟨front, hfront⟩ := ih false
      exact ⟨_ ++ front, by rw [hfront, ← List.append_assoc]⟩

theorem blockText_ne_nil {n : Nat} {newLine : Bool} {s : List Char} (hne : s ≠ []) :
    blockText n newLine s ≠ [] := by
  cases s with
  | nil => contradiction
  | cons x s =>
    rw [blockText]
    split <;> simp

theorem getLast?_blockText (n : Nat) (newLine : Bool) (s : List Char) :
    (blockText n newLine s).getLast? = s.getLast? := by
  induction s generalizing newLine with
  | nil => rfl
  | cons x s ih =>
    have hcons : ∀ b : Bool, (x :: blockText n b s).getLast? = (x :: s).getLast? := by
      intro b
      rw [List.getLast?_cons, List.getLast?_cons, ih]
    rw [blockText]
    split
    · exact hcons true
    · rw [List.getLast?_append_of_ne_nil _ (List.cons_ne_nil _ _)]
      exact hcons false

namespace Form

variable {form : Form} {n : Nat} {s : List Char}

theorem write_ne_nil (h : form.Fits s) : form.write n s ≠ [] := by
  cases h with
  | plain hne => exact hne
  | single | double | block => exact List.cons_ne_nil _ _

/-- Something stands at the front of a text that begins with a scalar. -/
theorem exists_cons_of_write (h : form.Fits s) {rest more : List Char}
    (hrest : rest = form.write n s ++ more) : ∃ x tail, rest = x :: tail := by
  refine List.exists_cons_of_ne_nil ?_
  rw [hrest]
  exact List.append_ne_nil_of_left_ne_nil (write_ne_nil h) more

/-- A scalar with the end of its last line. -/
def line (n : Nat) (s : List Char) : Form → List Char
  | block => '|' :: blockRest n s
  | form => form.write n s ++ ['\n']

theorem line_of_ne_block (h : form ≠ .block) : form.line n s = form.write n s ++ ['\n'] := by
  cases form with
  | plain | single | double => rfl
  | block => contradiction

theorem ended_write (h : form.Fits s) : ended (form.write n s) = form.line n s := by
  cases h with
  | @plain s hne h =>
    refine ended_of_ink ?_
    rw [write, List.getLast?_eq_some_getLast hne]
    exact (stretches_of_plainAllowed h).1.breaks _ (List.getLast_mem hne)
  | @single s h =>
    obtain ⟨front, hfront⟩ := exists_singleRest n false s
    refine ended_of_ink ?_
    rw [write, hfront, ← List.cons_append, List.getLast?_concat]
    rfl
  | @double s =>
    refine ended_of_ink ?_
    rw [write, doubleRest, ← List.cons_append, List.getLast?_concat]
    rfl
  | @block s hne h =>
    have hlast : (write n s block).getLast? = s.getLast? := by
      rw [write, List.getLast?_append_of_ne_nil _ (List.cons_ne_nil _ _),
        ← List.singleton_append, List.getLast?_append_of_ne_nil _ (blockText_ne_nil hne),
        getLast?_blockText]
    rw [ended_eq_append_lineEnd, lineEnd, hlast, write, line, blockRest, lineEnd]
    simp

/-! ## Fronts of scalars -/

theorem begins_write (h : form.Fits s) (t : List Char) : Begins (form.write n s ++ t) := by
  cases h with
  | @plain s hne h =>
    obtain ⟨hstretches, hblank, -, hcomment⟩ := stretches_of_plainAllowed h
    have hprint : ∀ x ∈ s, isPrintable x = true := by
      simp only [plainAllowed, Bool.and_eq_true, Bool.not_eq_true'] at h
      exact all_isPrintable_of_needsDouble h.1.1.1.1
    obtain ⟨x, s, rfl⟩ := List.exists_cons_of_ne_nil hne
    refine begins_cons (by simpa using hblank) (hstretches.breaks x List.mem_cons_self)
      (by simpa using hcomment) ?_ _
    rintro rfl
    cases hprint _ List.mem_cons_self
  | single => exact begins_cons rfl rfl (by decide) (by decide) _
  | double => exact begins_cons rfl rfl (by decide) (by decide) _
  | block => exact begins_cons rfl rfl (by decide) (by decide) _

/-- Three equal characters that something else follows are all in the text before that. -/
theorem isPrefixOf_of_append {x : Char} {t rest : List Char} (hne : s ≠ [])
    (ht : t.head? ≠ some x) (h : s ++ t = x :: x :: x :: rest) :
    [x, x, x].isPrefixOf s = true := by
  match s with
  | [] => contradiction
  | [_] =>
    obtain ⟨rfl, rfl⟩ := List.cons.inj h
    exact absurd rfl ht
  | [_, _] =>
    simp only [List.cons_append, List.nil_append, List.cons.injEq] at h
    obtain ⟨rfl, -, rfl⟩ := h
    exact absurd rfl ht
  | _ :: _ :: _ :: _ =>
    simp only [List.cons_append, List.cons.injEq] at h
    obtain ⟨rfl, rfl, rfl, -⟩ := h
    simp [List.isPrefixOf]

theorem atMarker_eq_false (h : form.Fits s) {t : List Char} (hdash : t.head? ≠ some '-')
    (hdot : t.head? ≠ some '.') {c : Cursor} (hrest : c.rest = form.write n s ++ t) :
    c.atMarker = false := by
  rw [Cursor.atMarker, hrest, Bool.and_eq_false_iff]
  right
  cases h with
  | @plain s hne h =>
    have hlead : badLead s = false := by
      simp only [plainAllowed, Bool.and_eq_true, Bool.not_eq_true'] at h
      exact h.1.2
    obtain ⟨x, s, rfl⟩ := List.exists_cons_of_ne_nil hne
    simp only [badLead, Bool.or_eq_false_iff] at hlead
    rw [write]
    split
    · rename_i heq
      exact absurd (hlead.1.2.symm.trans (isPrefixOf_of_append hne hdash heq)) Bool.false_ne_true
    · rename_i heq
      exact absurd (hlead.2.symm.trans (isPrefixOf_of_append hne hdot heq)) Bool.false_ne_true
    · rfl
  | single => rfl
  | double => rfl
  | block => rfl

/-! ## Scalars on one line -/

theorem singleRest_of_ink (n : Nat) (hs : ∀ x ∈ s, isBreak x = false) :
    singleRest n false s = s.flatMap singleChar ++ ['\''] := by
  induction s with
  | nil => rfl
  | cons x s ih =>
    rw [List.forall_mem_cons] at hs
    rw [singleRest, hs.1, ih hs.2, List.flatMap_cons, singleChar]
    simp

theorem isBreak_of_mem_write (hform : form ≠ .block) (hs : ∀ x ∈ s, isBreak x = false) :
    ∀ x ∈ form.write n s, isBreak x = false := by
  cases form with
  | plain => exact hs
  | single =>
    rw [write, singleRest_of_ink n hs, List.forall_mem_cons, List.forall_mem_append]
    refine ⟨rfl, fun y hy => ?_, by decide⟩
    obtain ⟨x, hx, hy⟩ := List.mem_flatMap.1 hy
    exact forall_mem_singleChar (hs x hx) y hy
  | double => exact List.forall_mem_cons.2 ⟨rfl, isBreak_of_mem_doubleRest⟩
  | block => contradiction

theorem length_flatMap_le {f : Char → List Char} {k : Nat} (hf : ∀ x, (f x).length ≤ k) :
    (s.flatMap f).length ≤ k * s.length := by
  induction s with
  | nil => simp
  | cons x s ih =>
    have hx := hf x
    rw [List.flatMap_cons, List.length_append, List.length_cons, Nat.mul_succ]
    omega

theorem length_escape_le (x : Char) : (escape x).length ≤ 6 := by
  unfold escape
  split
  case h_15 =>
    split_ifs with hprint hsmall hmiddle
    · exact Nat.le_add_left 1 5
    · simp [length_hexDigits]
    · simp [length_hexDigits]
    · have hlarge : isPrintable x = true := by
        simp [isPrintable]
        omega
      contradiction
  all_goals exact Nat.le_add_left 2 4

theorem length_write_le (hform : form ≠ .block) (hs : ∀ x ∈ s, isBreak x = false) :
    (form.write n s).length ≤ 6 * s.length + 2 := by
  cases form with
  | plain =>
    rw [write]
    omega
  | single =>
    have hlength : (s.flatMap singleChar).length ≤ 2 * s.length := length_flatMap_le fun x => by
      rcases singleChar_cases x with ⟨-, hx⟩ | ⟨-, hx⟩ <;> simp [hx]
    rw [write, singleRest_of_ink n hs, List.length_cons, List.length_append, List.length_singleton]
    omega
  | double =>
    have hlength : (s.flatMap escape).length ≤ 6 * s.length := length_flatMap_le length_escape_le
    rw [write, doubleRest, List.length_cons, List.length_append, List.length_singleton]
    omega
  | block => contradiction

end Form

/-! ## Simple keys -/

theorem length_toList_le_utf8ByteSize (s : String) : s.toList.length ≤ s.utf8ByteSize := by
  have hlist : ∀ l : List Char, l.length ≤ (String.ofList l).utf8ByteSize := by
    intro l
    induction l with
    | nil => exact Nat.le_refl _
    | cons x l ih =>
      have hx := Char.utf8Size_pos x
      rw [← List.singleton_append, String.ofList_append, String.utf8ByteSize_append,
        List.length_append, List.length_singleton]
      have hsingleton : (String.ofList [x]).utf8ByteSize = x.utf8Size := by simp
      omega
  simpa only [String.ofList_toList] using hlist s.toList

theorem ink_of_isSimpleKey {k : String} (h : isSimpleKey k = true) :
    ∀ x ∈ k.toList, isBreak x = false := by
  simp only [isSimpleKey, Bool.and_eq_true, Bool.not_eq_true'] at h
  simpa using h.2

theorem form_of_isSimpleKey {k : String} (h : isSimpleKey k = true) :
    Form.of k.toList ≠ .block := by
  simp only [isSimpleKey, Bool.and_eq_true, Bool.not_eq_true'] at h
  exact Form.of_ne_block h.2

/-- A simple key is so short that its colon comes in time. -/
theorem length_write_of_isSimpleKey {k : String} (h : isSimpleKey k = true) (n : Nat) :
    ((Form.of k.toList).write n k.toList).length ≤ 1024 := by
  have hwrite := @Form.length_write_le _ n _ (form_of_isSimpleKey h) (ink_of_isSimpleKey h)
  have hlength := length_toList_le_utf8ByteSize k
  simp only [isSimpleKey, Bool.and_eq_true, decide_eq_true_eq] at h
  omega

end HelpMiner.Document.Yaml
