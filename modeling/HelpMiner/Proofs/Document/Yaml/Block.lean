import HelpMiner.Proofs.Document.Yaml.Quoted

/-! Block scalars are read as their texts: the sign of the indentation and that of the chomping are
those that the text needs. -/
namespace HelpMiner.Document.Yaml

/-! ## Lines of a block -/

/-- The line feed that is written after a text that does not end its line. -/
def lineEnd (s : List Char) : List Char := if s.getLast?.any isBreak then [] else ['\n']

theorem lineEnd_append (s : List Char) {t : List Char} (ht : t ≠ []) :
    lineEnd (s ++ t) = lineEnd t := by
  rw [lineEnd, List.getLast?_append_of_ne_nil _ ht, lineEnd]

theorem lineEnd_of_breaks {bs : List Char} (hne : bs ≠ []) (h : ∀ x ∈ bs, isBreak x = true) :
    lineEnd bs = [] := by
  rw [lineEnd, List.getLast?_eq_some_getLast hne, Option.any_some, h _ (List.getLast_mem hne),
    if_pos rfl]

theorem blockText_append_of_ink (n : Nat) {line : List Char}
    (h : ∀ x ∈ line, isBreak x = false) (s : List Char) :
    blockText n false (line ++ s) = line ++ blockText n false s := by
  induction line with
  | nil => rfl
  | cons x line ih =>
    rw [List.forall_mem_cons] at h
    simp [blockText, h.1, ih h.2]

theorem blockText_append_of_breaks (n : Nat) {bs : List Char} (h : ∀ x ∈ bs, isBreak x = true)
    (s : List Char) : blockText n true (bs ++ s) = bs ++ blockText n true s := by
  induction bs with
  | nil => rfl
  | cons x bs ih =>
    rw [List.forall_mem_cons] at h
    simp [blockText, h.1, ih h.2]

theorem blockText_break (n : Nat) {b : Char} (hb : isBreak b = true) (newLine : Bool)
    (s : List Char) : blockText n newLine (b :: s) = b :: blockText n true s := by
  simp [blockText, hb]

theorem blockText_true (n : Nat) {s : List Char} (hne : s ≠ []) (h : s.head?.any isBreak = false) :
    blockText n true s = spaces n ++ blockText n false s := by
  cases s with
  | nil => contradiction
  | cons x s =>
    have hx : isBreak x = false := by simpa using h
    simp [blockText, hx]

/-! ## Empty lines -/

/-- The spaces of a line are those up to its first other character, or those of the block. -/
theorem skipIndent_eq_past {indent k : Nat} {c : Cursor} {u : List Char}
    (hrest : c.rest = spaces k ++ u) (hcolumn : c.column = 0) (hk : indent = 0 ∨ k ≤ indent)
    (hu : k = indent ∧ 0 < indent ∨ u.head? ≠ some ' ') :
    skipIndent indent c = c.past (spaces k) := by
  have htake : ((spaces k ++ u).takeWhile (· == ' ')).length =
      k + (u.takeWhile (· == ' ')).length := by
    rw [List.takeWhile_append_of_pos fun x hx => by simp [List.eq_of_mem_replicate hx],
      List.length_append, length_spaces]
  have hmore : u.head? ≠ some ' ' → (u.takeWhile (· == ' ')).length = 0 := by
    intro h
    cases u with
    | nil => rfl
    | cons x u =>
      have hx : x ≠ ' ' := by simpa using h
      simp [hx]
  rw [Cursor.past_eq_skip c isBreak_of_mem_spaces, length_spaces, skipIndent, hrest, htake, hcolumn]
  congr 1
  rcases hu with ⟨rfl, hpos⟩ | hu
  · rw [if_neg (by simpa using Nat.ne_of_gt hpos)]
    omega
  · rw [hmore hu]
    split <;> simp_all

/-- The line breaks at a place, and the spaces of the line after them. -/
theorem emptyLines_eq {indent k : Nat} {u : List Char} (hk : indent = 0 ∨ k ≤ indent)
    (hspace : k = indent ∧ 0 < indent ∨ u.head? ≠ some ' ') (htab : u.head? ≠ some '\t')
    (hbreak : u.head?.any isBreak = false) {bs : List Char} (hbs : ∀ x ∈ bs, IsPlainBreak x)
    {fuel : Nat} (hfuel : bs.length < fuel) (acc : List Char) (widest : Nat) {c : Cursor}
    (hrest : c.rest = bs ++ (spaces k ++ u)) (hcolumn : c.column = 0) :
    emptyLines indent fuel acc widest c =
      some (acc ++ bs, max widest k, c.past (bs ++ spaces k)) := by
  induction bs generalizing fuel acc widest c with
  | nil =>
    -- No break is left: the spaces are those of the next line, and the reading stops behind them.
    obtain ⟨fuel, rfl⟩ : ∃ m, fuel = m + 1 := ⟨fuel - 1, by omega⟩
    rw [List.nil_append] at hrest
    have hnext : (c.past (spaces k)).rest = u := Cursor.rest_past_of_eq hrest
    have hcol : (c.past (spaces k)).column = k := by
      rw [Cursor.column_past c isBreak_of_mem_spaces, hcolumn, length_spaces, Nat.zero_add]
    have hsees : ∀ p : Char → Bool, (c.past (spaces k)).sees p = u.head?.any p := by
      intro p
      rw [Cursor.sees, hnext]
    have hnotab : u.head?.any (· == '\t') = false := by
      cases u with
      | nil => rfl
      | cons x u => simpa using htab
    rw [emptyLines]
    simp only [skipIndent_eq_past hrest hcolumn hk hspace, hsees, hnotab, hbreak, hcol,
      Bool.and_false, Bool.false_eq_true, if_false, List.append_nil, List.nil_append]
  | cons b bs ih =>
    -- An empty line has no spaces of its own, so nothing is added to the widest indent.
    obtain ⟨fuel, rfl⟩ : ∃ m, fuel = m + 1 := ⟨fuel - 1, by omega⟩
    rw [List.forall_mem_cons] at hbs
    rw [List.length_cons] at hfuel
    have hspaces : skipIndent indent c = c := by
      have hb : b ≠ ' ' := by rcases hbs.1 with rfl | rfl | rfl <;> decide
      exact skipIndent_eq_past (k := 0) hrest hcolumn (Or.inr (Nat.zero_le _))
        (Or.inr (by simpa using hb))
    have hnotab : c.sees (· == '\t') = false := by
      rw [Cursor.sees_iff hrest]
      rcases hbs.1 with rfl | rfl | rfl <;> rfl
    have hsees : c.sees isBreak = true := by
      rw [Cursor.sees_iff hrest]
      exact hbs.1.isBreak
    have hnext : (c.past [b]).rest = bs ++ (spaces k ++ u) := Cursor.rest_past_of_eq hrest
    rw [emptyLines]
    simp only [hspaces, hnotab, hsees, hcolumn, Bool.and_false, Bool.false_eq_true, if_false,
      if_true, lineBreak_eq hrest hbs.1,
      Cursor.skipLine_eq_past hrest hbs.1.isBreak hbs.1.ne_return]
    rw [ih hbs.2 (by omega) _ _ hnext (Cursor.column_past_break c hbs.1.isBreak),
      List.append_assoc, List.cons_append, Cursor.past_cons c b, Nat.max_zero]
    rfl

/-! ## Text lines -/

/-- A text by the lines that it ends with: what comes before its last line break, that break, and
    the breaks after it. A text that does not end its line is given a line feed. -/
inductive Closing : List Char → List Char → List Char → List Char → Prop
  | unfinished {s : List Char} (hne : s ≠ []) (h : s.getLast?.any isBreak = false) :
      Closing s s ['\n'] []
  | finished {body bs : List Char} {b : Char} (hne : body ≠ [])
      (h : body.getLast?.any isBreak = false) (hb : isBreak b = true)
      (hbs : ∀ x ∈ bs, isBreak x = true) : Closing (body ++ b :: bs) body [b] bs

theorem Closing.append {s body lead trail : List Char} (h : Closing s body lead trail)
    (front : List Char) : Closing (front ++ s) (front ++ body) lead trail := by
  cases h with
  | unfinished hne h =>
    refine .unfinished (by simp [hne]) ?_
    rwa [List.getLast?_append_of_ne_nil _ hne]
  | finished hne h hb hbs =>
    rw [← List.append_assoc]
    refine .finished (by simp [hne]) ?_ hb hbs
    rwa [List.getLast?_append_of_ne_nil _ hne]

theorem head?_dropWhile (p : Char → Bool) (s : List Char) :
    (s.dropWhile p).head?.any p = false := by
  have h := List.head?_dropWhile_not p s
  cases hd : (s.dropWhile p).head? with
  | none => rfl
  | some x =>
    rw [hd] at h
    simpa using h

/-- The first line of a text, the breaks after it, and the rest, which begins with a line. -/
theorem exists_line {s : List Char} (hne : s ≠ []) (hhead : s.head?.any isBreak = false) :
    ∃ line bs more, s = line ++ (bs ++ more) ∧ line ≠ [] ∧ (∀ x ∈ line, isBreak x = false) ∧
      (∀ x ∈ bs, isBreak x = true) ∧ more.head?.any isBreak = false ∧ (bs = [] → more = []) := by
  refine ⟨s.takeWhile (!isBreak ·), (s.dropWhile (!isBreak ·)).takeWhile isBreak,
    (s.dropWhile (!isBreak ·)).dropWhile isBreak, ?_, ?_, ?_, fun x hx => List.mem_takeWhile_imp hx,
    head?_dropWhile isBreak _, ?_⟩
  · rw [List.takeWhile_append_dropWhile, List.takeWhile_append_dropWhile]
  · cases s with
    | nil => contradiction
    | cons x s => simp_all
  · intro x hx
    simpa using List.mem_takeWhile_imp hx
  · intro hbs
    have hrest := head?_dropWhile (!isBreak ·) s
    generalize s.dropWhile (!isBreak ·) = rest at *
    cases rest with
    | nil => rfl
    | cons x rest => simp_all

theorem blockLines_end {n : Nat} {c : Cursor} (hcolumn : c.column ≠ n) {fuel : Nat}
    (hfuel : 0 < fuel) (leading trailing : List Char) (blank : Bool) :
    blockLines true n fuel leading trailing blank c = some ([], leading, trailing, c) := by
  obtain ⟨fuel, rfl⟩ : ∃ m, fuel = m + 1 := ⟨fuel - 1, by omega⟩
  have hcol : (c.column == n) = false := by simpa using hcolumn
  rw [blockLines, hcol]
  simp

/-- One line of a block, the breaks after it, and the spaces of the next line. -/
theorem blockLines_line {n k : Nat} {line bs u : List Char} {b : Char} (hne : line ≠ [])
    (hline : ∀ x ∈ line, isBreak x = false) (hb : IsPlainBreak b) (hbs : ∀ x ∈ bs, IsPlainBreak x)
    (hk : k ≤ n) (hspace : k = n ∧ 0 < n ∨ u.head? ≠ some ' ') (htab : u.head? ≠ some '\t')
    (hbreak : u.head?.any isBreak = false) {fuel : Nat} {c : Cursor}
    (hrest : c.rest = line ++ b :: (bs ++ (spaces k ++ u))) (hcolumn : c.column = n)
    (hfuel : c.rest.length < fuel + 1) (leading trailing : List Char) (blank : Bool) :
    blockLines true n (fuel + 1) leading trailing blank c =
      (blockLines true n fuel [b] bs (c.sees isBlank) (c.past (line ++ b :: (bs ++ spaces k)))).map
        fun r => (leading ++ trailing ++ line ++ r.1, r.2) := by
  have hnonempty : c.rest.isEmpty = false := by
    rw [hrest]
    cases line with
    | nil => contradiction
    | cons x line => rfl
  have htake : c.rest.takeWhile (fun x => !isBreak x) = line := by
    rw [hrest, List.takeWhile_append_of_pos fun x hx => by simp [hline x hx],
      List.takeWhile_cons_of_neg (by simp [hb.isBreak]), List.append_nil]
  have hstop : (c.past line).rest = b :: (bs ++ (spaces k ++ u)) := Cursor.rest_past_of_eq hrest
  have hnext : ((c.past line).past [b]).rest = bs ++ (spaces k ++ u) := Cursor.rest_past_of_eq hstop
  have hlength : bs.length < fuel + 1 := by
    rw [hrest] at hfuel
    simp only [List.length_append, List.length_cons] at hfuel
    omega
  have hempty := emptyLines_eq (Or.inr hk) hspace htab hbreak hbs hlength [] 0 hnext
    (Cursor.column_past_break _ hb.isBreak)
  have hpast : c.past (line ++ b :: (bs ++ spaces k)) =
      ((c.past line).past [b]).past (bs ++ spaces k) := by
    rw [Cursor.past_append, Cursor.past_cons (c.past line) b (bs ++ spaces k)]
  rw [blockLines]
  simp only [hcolumn, beq_self_eq_true, hnonempty, Bool.not_false, Bool.and_self, if_true, htake,
    ← Cursor.past_eq_skip c hline, lineBreak_eq hstop hb,
    Cursor.skipLine_eq_past hstop hb.isBreak hb.ne_return, hempty, bind, Option.bind,
    List.nil_append]
  rw [hpast]
  cases blockLines true n fuel [b] bs (c.sees isBlank)
    (((c.past line).past [b]).past (bs ++ spaces k)) <;> rfl

theorem AtInk.head? {t : List Char} (h : AtInk t) :
    t.head? ≠ some ' ' ∧ t.head? ≠ some '\t' ∧ t.head?.any isBreak = false := by
  cases t with
  | nil => exact ⟨nofun, nofun, rfl⟩
  | cons x t =>
    obtain ⟨hblank, hbreak⟩ := h x t rfl
    refine ⟨?_, ?_, by simpa using hbreak⟩ <;>
    · intro heq
      obtain rfl := Option.some.inj heq
      cases hblank

/-- The last line of a block, and the breaks after it. The next line is indented less. -/
theorem blockLines_last {n j : Nat} (hj : j < n) {t : List Char} (ht : AtInk t)
    {line bs : List Char} {b : Char} (hne : line ≠ []) (hline : ∀ x ∈ line, isBreak x = false)
    (hb : IsPlainBreak b) (hbs : ∀ x ∈ bs, IsPlainBreak x) {fuel : Nat} {c : Cursor}
    (hrest : c.rest = line ++ b :: (bs ++ (spaces j ++ t))) (hcolumn : c.column = n)
    (hfuel : c.rest.length < fuel) (leading trailing : List Char) (blank : Bool) :
    blockLines true n fuel leading trailing blank c =
      some (leading ++ trailing ++ line, [b], bs, c.past (line ++ b :: (bs ++ spaces j))) := by
  obtain ⟨fuel, rfl⟩ : ∃ m, fuel = m + 1 := ⟨fuel - 1, by omega⟩
  obtain ⟨hspace, htab, hbreak⟩ := ht.head?
  have hpos : 0 < fuel := by
    rw [hrest] at hfuel
    simp only [List.length_append, List.length_cons] at hfuel
    omega
  have hcol : (c.past (line ++ b :: (bs ++ spaces j))).column ≠ n := by
    rw [Cursor.past_append, Cursor.column_past_lines _ hb.isBreak fun x hx => (hbs x hx).isBreak]
    omega
  rw [blockLines_line hne hline hb hbs (Nat.le_of_lt hj) (Or.inr hspace) htab hbreak hrest hcolumn
    hfuel, blockLines_end hcol hpos]
  simp

theorem head?_blockText {n : Nat} {s : List Char} (hne : s ≠ []) (h : s.head?.any isBreak = false)
    (u : List Char) : (blockText n false s ++ u).head? = s.head? := by
  cases s with
  | nil => contradiction
  | cons x s =>
    have hx : isBreak x = false := by simpa using h
    simp [blockText, hx]

/-- The lines of a text are read from its first character on, as its text and the breaks that end
    it, and with them the spaces of the line after the block. -/
def LinesRead (n j : Nat) (t s body lead trail : List Char) : Prop :=
  ∀ fuel leading trailing blank c,
    c.rest = blockText n false s ++ (lineEnd s ++ (spaces j ++ t)) → c.column = n →
    c.rest.length < fuel →
    blockLines true n fuel leading trailing blank c =
      some (leading ++ trailing ++ body, lead, trail,
        c.past (blockText n false s ++ (lineEnd s ++ spaces j)))

section

variable {n j : Nat} {t : List Char} {line bs : List Char} {b : Char}

theorem linesRead_unfinished (hj : j < n) (ht : AtInk t) (hne : line ≠ [])
    (hline : ∀ x ∈ line, isBreak x = false) : LinesRead n j t line line ['\n'] [] := by
  intro fuel leading trailing blank c hrest hcolumn hfuel
  have htext : blockText n false line = line := by
    simpa [blockText] using blockText_append_of_ink n hline []
  have hend : lineEnd line = ['\n'] := by
    rw [lineEnd, List.getLast?_eq_some_getLast hne, Option.any_some,
      hline _ (List.getLast_mem hne)]
    rfl
  rw [htext, hend] at hrest ⊢
  exact blockLines_last hj ht hne hline (Or.inl rfl) (List.forall_mem_nil _) hrest hcolumn hfuel
    leading trailing blank

theorem blockText_line (n : Nat) (hline : ∀ x ∈ line, isBreak x = false) (hb : IsPlainBreak b)
    (hbs : ∀ x ∈ bs, IsPlainBreak x) (s : List Char) :
    blockText n false (line ++ (b :: bs ++ s)) = line ++ b :: (bs ++ blockText n true s) := by
  rw [blockText_append_of_ink n hline, List.cons_append, blockText_break n hb.isBreak,
    blockText_append_of_breaks n fun x hx => (hbs x hx).isBreak]

theorem linesRead_finished (hj : j < n) (ht : AtInk t) (hne : line ≠ [])
    (hline : ∀ x ∈ line, isBreak x = false) (hb : IsPlainBreak b)
    (hbs : ∀ x ∈ bs, IsPlainBreak x) : LinesRead n j t (line ++ b :: bs) line [b] bs := by
  intro fuel leading trailing blank c hrest hcolumn hfuel
  have htext : blockText n false (line ++ b :: bs) = line ++ b :: bs := by
    have h := blockText_line n hline hb hbs []
    simpa [blockText] using h
  have hend : lineEnd (line ++ b :: bs) = [] := by
    rw [lineEnd_append line (List.cons_ne_nil b bs)]
    exact lineEnd_of_breaks (List.cons_ne_nil b bs)
      (List.forall_mem_cons.2 ⟨hb.isBreak, fun x hx => (hbs x hx).isBreak⟩)
  rw [htext, hend] at hrest ⊢
  simp only [List.append_assoc, List.cons_append, List.nil_append] at hrest ⊢
  rw [← List.append_assoc]
  exact blockLines_last hj ht hne hline hb hbs hrest hcolumn hfuel leading trailing blank

/-- A line comes before the lines of a text, which begin with ink. -/
theorem LinesRead.after_line {s body lead trail : List Char} (h : LinesRead n j t s body lead trail)
    (hn : 0 < n) (hs : s ≠ []) (hhead : s.head?.any isBreak = false) (htab : s.head? ≠ some '\t')
    (hne : line ≠ []) (hline : ∀ x ∈ line, isBreak x = false) (hb : IsPlainBreak b)
    (hbs : ∀ x ∈ bs, IsPlainBreak x) :
    LinesRead n j t (line ++ (b :: bs ++ s)) (line ++ (b :: bs ++ body)) lead trail := by
  intro fuel leading trailing blank c hrest hcolumn hfuel
  obtain ⟨fuel, rfl⟩ : ∃ n, fuel = n + 1 := ⟨fuel - 1, by omega⟩
  have hend : lineEnd (line ++ (b :: bs ++ s)) = lineEnd s := by
    rw [lineEnd_append line (List.append_ne_nil_of_right_ne_nil _ hs), lineEnd_append _ hs]
  rw [blockText_line n hline hb hbs, blockText_true n hs hhead, hend] at hrest ⊢
  simp only [List.append_assoc, List.cons_append] at hrest
  have hu := head?_blockText (n := n) hs hhead (lineEnd s ++ (spaces j ++ t))
  have hsplit : c.rest = (line ++ b :: (bs ++ spaces n)) ++
      (blockText n false s ++ (lineEnd s ++ (spaces j ++ t))) := by
    rw [hrest]
    simp only [List.append_assoc, List.cons_append]
  have hnext := Cursor.rest_past_of_eq hsplit
  have hlength := Cursor.length_rest_past hsplit
  rw [List.length_append, List.length_cons] at hlength
  have hcol : (c.past (line ++ b :: (bs ++ spaces n))).column = n := by
    rw [Cursor.past_append, Cursor.column_past_lines _ hb.isBreak fun x hx => (hbs x hx).isBreak]
  rw [blockLines_line hne hline hb hbs (Nat.le_refl n) (Or.inl ⟨rfl, hn⟩) (hu ▸ htab)
    (hu ▸ hhead) hrest hcolumn hfuel, h fuel [b] bs _ _ hnext hcol (by omega)]
  simp [← Cursor.past_append]

end

/-- The lines of a text are read if the next line after the block is indented less. -/
theorem exists_linesRead {n j : Nat} (hj : j < n) {t : List Char} (ht : AtInk t) {s : List Char}
    (hne : s ≠ []) (hhead : s.head?.any isBreak = false) (hprint : ∀ x ∈ s, isPrintable x = true) :
    ∃ body lead trail, Closing s body lead trail ∧ LinesRead n j t s body lead trail := by
  -- After a line and its breaks the text begins with a line again, unless it ends.
  induction hlen : s.length using Nat.strong_induction_on generalizing s with
  | _ len ih =>
  obtain ⟨line, bs, more, rfl, hline0, hline, hbs, hmore, hbs0⟩ := exists_line hne hhead
  have hlast : line.getLast?.any isBreak = false := by
    rw [List.getLast?_eq_some_getLast hline0]
    exact hline _ (List.getLast_mem hline0)
  rw [List.forall_mem_append, List.forall_mem_append] at hprint
  have hplain : ∀ x ∈ bs, IsPlainBreak x := fun x hx =>
    isPlainBreak_of_isPrintable (hprint.2.1 x hx) (hbs x hx)
  cases bs with
  | nil =>
    obtain rfl := hbs0 rfl
    simp only [List.append_nil]
    exact ⟨line, ['\n'], [], .unfinished hline0 hlast, linesRead_unfinished hj ht hline0 hline⟩
  | cons b bs =>
    rw [List.forall_mem_cons] at hplain hbs
    by_cases hmore0 : more = []
    · subst hmore0
      simp only [List.append_nil]
      exact ⟨line, [b], bs, .finished hline0 hlast hbs.1 hbs.2,
        linesRead_finished hj ht hline0 hline hplain.1 hplain.2⟩
    · have hshorter : more.length < len := by
        rw [← hlen, List.length_append, List.length_append, List.length_cons]
        omega
      have htab : more.head? ≠ some '\t' := fun h =>
        absurd (hprint.2.2 _ (List.mem_of_head? h)) (by decide)
      obtain ⟨body, lead, trail, hclosing, hread⟩ := ih _ hshorter hmore0 hmore hprint.2.2 rfl
      exact ⟨_, lead, trail, (hclosing.append (b :: bs)).append line,
        hread.after_line (Nat.zero_lt_of_lt hj) hmore0 hmore htab hline0 hline hplain.1 hplain.2⟩

/-! ## Signs -/

/-- The number of an indentation sign. -/
def increment (s : List Char) : Nat := if (indentSign s).isEmpty then 0 else 2

/-- How a chomping sign makes a text of the lines read. -/
def Chomping.tail (chomp : Chomping) (lead trail : List Char) : List Char :=
  match chomp with
  | .strip => []
  | .clip => lead
  | .keep => lead ++ trail

/-- The chomping that a sign stands for. -/
def chompOf (sign : List Char) : Chomping :=
  match sign with
  | '-' :: _ => .strip
  | '+' :: _ => .keep
  | _ => .clip

theorem indentSign_cases (s : List Char) : indentSign s = [] ∨ indentSign s = ['2'] := by
  unfold indentSign
  split
  · exact Or.inr rfl
  · exact Or.inl rfl

theorem chompSign_cases (s : List Char) :
    chompSign s = ['-'] ∨ chompSign s = ['+'] ∨ chompSign s = [] := by
  unfold chompSign
  split
  · exact Or.inl rfl
  · split
    · exact Or.inr (Or.inl rfl)
    · exact Or.inl rfl
  · split
    · exact Or.inl rfl
    · split
      · exact Or.inr (Or.inl rfl)
      · exact Or.inr (Or.inr rfl)

/-- The signs of a block before the end of their line. -/
theorem blockSigns_signs (s : List Char) {c : Cursor} {rest : List Char}
    (hrest : c.rest = indentSign s ++ chompSign s ++ '\n' :: rest) :
    blockSigns c =
      some (chompOf (chompSign s), increment s, c.past (indentSign s ++ chompSign s)) := by
  unfold increment
  rcases indentSign_cases s with hi | hi <;> rcases chompSign_cases s with hc | hc | hc <;>
    rw [hi, hc] at hrest ⊢ <;> rw [Cursor.past_eq_skip c (by decide), blockSigns, hrest] <;> rfl

theorem chompSign_of_ink {s : List Char} {x : Char} (hx : isBreak x = false) :
    chompSign (s ++ [x]) = ['-'] := by
  unfold chompSign
  rw [List.reverse_append, List.reverse_singleton, List.singleton_append]
  cases s.reverse <;> simp [hx]

theorem chompSign_of_break (s : List Char) (y : Char) {x : Char} (hx : isBreak x = true) :
    chompSign (s ++ [y, x]) = if isBreak y then ['+'] else [] := by
  simp [chompSign, hx]

theorem chompSign_of_breaks {s : List Char} (hne : s ≠ []) (h : ∀ x ∈ s, isBreak x = true) :
    chompSign s = ['+'] := by
  rcases List.eq_nil_or_concat s with rfl | ⟨s, x, rfl⟩
  · contradiction
  · rw [List.concat_eq_append, List.forall_mem_append] at h
    rw [List.concat_eq_append]
    have hx : isBreak x = true := h.2 x List.mem_cons_self
    rcases List.eq_nil_or_concat s with rfl | ⟨s, y, rfl⟩
    · simp [chompSign, hx]
    · rw [List.concat_eq_append, List.forall_mem_append] at h
      rw [List.concat_eq_append, List.append_assoc, List.singleton_append,
        chompSign_of_break s y hx, if_pos (h.1.2 y List.mem_cons_self)]

/-- The chomping sign of a text keeps its breaks. -/
theorem Closing.tail_chompSign {s body lead trail : List Char} (h : Closing s body lead trail) :
    body ++ (chompOf (chompSign s)).tail lead trail = s := by
  cases h with
  | unfinished hne h =>
    obtain ⟨init, x, rfl⟩ := (List.eq_nil_or_concat s).resolve_left hne
    have hx : isBreak x = false := by simpa using h
    rw [List.concat_eq_append, chompSign_of_ink hx]
    simp [chompOf, Chomping.tail]
  | @finished _ _ b hne h hb hbs =>
    obtain ⟨init, y, rfl⟩ := (List.eq_nil_or_concat body).resolve_left hne
    have hy : isBreak y = false := by simpa using h
    -- One break at the end is kept without a sign; of several, the last two tell the sign.
    rcases List.eq_nil_or_concat trail with rfl | ⟨bs, z, rfl⟩
    · have hsign : chompSign (init.concat y ++ [b]) = [] := by
        rw [List.concat_eq_append, List.append_assoc, List.singleton_append,
          chompSign_of_break init y hb, hy]
        rfl
      rw [hsign]
      rfl
    · rw [List.concat_eq_append, List.forall_mem_append] at hbs
      have hz : isBreak z = true := hbs.2 z List.mem_cons_self
      obtain ⟨front, w, hfront, hw⟩ : ∃ front w, init.concat y ++ b :: bs = front ++ [w] ∧
          isBreak w = true := by
        rcases List.eq_nil_or_concat bs with rfl | ⟨bs', w, rfl⟩
        · exact ⟨_, b, rfl, hb⟩
        · rw [List.concat_eq_append, List.forall_mem_append] at hbs
          exact ⟨init.concat y ++ b :: bs', w, by simp, hbs.1.2 w List.mem_cons_self⟩
      have hsign : chompSign (init.concat y ++ b :: bs.concat z) = ['+'] := by
        have hsplit : init.concat y ++ b :: bs.concat z = front ++ [w, z] := by
          have hlast : bs.concat z = bs ++ [z] := List.concat_eq_append
          rw [hlast, ← List.cons_append, ← List.append_assoc, hfront, List.append_assoc]
          rfl
        rw [hsplit, chompSign_of_break front w hz, if_pos hw]
      rw [hsign]
      rfl

/-! ## Whole blocks -/

/-- The signs, the lines and the end of a block after its indicator. -/
def blockRest (n : Nat) (s : List Char) : List Char :=
  indentSign s ++ chompSign s ++ '\n' :: (blockText n true s ++ lineEnd s)

/-- The indent of a block that a sign fixes, or zero. -/
def fixedIndent (parent : Nat) (s : List Char) : Nat :=
  if increment s == 0 then 0 else parent + increment s

/-- The lines of a block, from the line after its signs on. -/
def blockBody (parent : Nat) (s : List Char) (fuel : Nat) (c : Cursor) :
    Option (List Char × Cursor) :=
  (emptyLines (fixedIndent parent s) fuel [] 0 c).bind fun e =>
    (blockLines true (if fixedIndent parent s == 0 then max (max e.2.1 (parent + 1)) 1
      else fixedIndent parent s) fuel [] e.1 false e.2.2).map fun r =>
        (r.1 ++ (chompOf (chompSign s)).tail r.2.1 r.2.2.1, r.2.2.2)

/-- The signs of a block come first, and then its lines. -/
theorem blockScalar_signs (parent : Nat) (s : List Char) {c : Cursor} {rest : List Char}
    (hrest : c.rest = indentSign s ++ chompSign s ++ '\n' :: rest) :
    blockScalar true parent c =
      blockBody parent s (rest.length + 2) (c.past (indentSign s ++ chompSign s ++ ['\n'])) := by
  have hline : (c.past (indentSign s ++ chompSign s)).rest = '\n' :: rest :=
    Cursor.rest_past_of_eq hrest
  have hnext : ((c.past (indentSign s ++ chompSign s)).past ['\n']).rest = rest :=
    Cursor.rest_past_of_eq hline
  have hblank : (c.past (indentSign s ++ chompSign s)).skipWhile isBlank =
      c.past (indentSign s ++ chompSign s) :=
    Cursor.skipWhile_eq_past (s := []) hline (List.forall_mem_nil _) rfl (List.forall_mem_nil _)
  have hfixed : (if increment s == 0 then 0
      else if 0 ≤ (parent : Int) then (parent : Int).toNat + increment s else increment s) =
      fixedIndent parent s := by
    simp [fixedIndent]
  have hcomment : (c.past (indentSign s ++ chompSign s)).sees (· == '#') = false := by
    rw [Cursor.sees_iff hline]
    rfl
  have hend : atLineEnd (c.past (indentSign s ++ chompSign s)).rest = true := by
    rw [hline]
    rfl
  have hskip := Cursor.skipLine_eq_past hline rfl (by decide)
  rw [blockScalar, blockSigns_signs s hrest, blockBody,
    Cursor.past_append c (indentSign s ++ chompSign s) ['\n']]
  simp only [bind, Option.bind, hblank, hcomment, hend, hskip, hnext, hfixed, Bool.not_true,
    Bool.false_eq_true, if_false]
  cases emptyLines (fixedIndent parent s) (rest.length + 2) [] 0
    ((c.past (indentSign s ++ chompSign s)).past ['\n']) with
  | none => rfl
  | some e =>
    have hwide : ((parent : Int) + 1).toNat = parent + 1 := rfl
    simp only [hwide]
    cases blockLines true (if fixedIndent parent s == 0 then max (max e.2.1 (parent + 1)) 1
      else fixedIndent parent s) (rest.length + 2) [] e.1 false e.2.2 with
    | none => rfl
    | some r => cases chompOf (chompSign s) <;> rfl

/-- The indent is fixed where the first line does not show it. -/
theorem fixedIndent_cases (parent : Nat) (s : List Char) :
    fixedIndent parent s = 0 ∧ s.head? ≠ some ' ' ∧ s.head?.any isBreak = false ∨
      fixedIndent parent s = parent + 2 := by
  unfold fixedIndent increment indentSign
  cases hs : s.head?.any fun c => c == ' ' || isBreak c with
  | true => exact Or.inr rfl
  | false =>
    refine Or.inl ⟨rfl, ?_, ?_⟩ <;> cases s with
    | nil => simp
    | cons x s => simp_all

theorem indent_of_widest (parent : Nat) (s : List Char) :
    (if fixedIndent parent s == 0 then max (max (parent + 2) (parent + 1)) 1
      else fixedIndent parent s) = parent + 2 := by
  rcases fixedIndent_cases parent s with ⟨h, -⟩ | h
  · simp only [h, beq_self_eq_true, if_true]
    omega
  · rw [h]
    rfl

/-- The breaks before the first line of a block, and its spaces. -/
theorem emptyLines_first {parent : Nat} {bs more u : List Char} (hbs : ∀ x ∈ bs, IsPlainBreak x)
    (hne : more ≠ []) (hmore : more.head?.any isBreak = false)
    (hprint : ∀ x ∈ more, isPrintable x = true) {fuel : Nat} (hfuel : bs.length < fuel) {c : Cursor}
    (hrest : c.rest = bs ++ (spaces (parent + 2) ++ (blockText (parent + 2) false more ++ u)))
    (hcolumn : c.column = 0) :
    emptyLines (fixedIndent parent (bs ++ more)) fuel [] 0 c =
      some (bs, parent + 2, c.past (bs ++ spaces (parent + 2))) := by
  have hu := head?_blockText (n := parent + 2) hne hmore u
  have htab : more.head? ≠ some '\t' := fun h =>
    absurd (hprint _ (List.mem_of_head? h)) (by decide)
  have hspace : parent + 2 = fixedIndent parent (bs ++ more) ∧
      0 < fixedIndent parent (bs ++ more) ∨ more.head? ≠ some ' ' := by
    rcases fixedIndent_cases parent (bs ++ more) with ⟨-, hspace, hbreak⟩ | hfixed
    · cases bs with
      | nil => exact Or.inr hspace
      | cons b bs => simp [(hbs b List.mem_cons_self).isBreak] at hbreak
    · exact Or.inl (by omega)
  have hk : fixedIndent parent (bs ++ more) = 0 ∨
      parent + 2 ≤ fixedIndent parent (bs ++ more) := by
    rcases fixedIndent_cases parent (bs ++ more) with ⟨h, -⟩ | h <;> omega
  have hempty := emptyLines_eq hk (hu ▸ hspace) (hu ▸ htab) (hu ▸ hmore) hbs hfuel [] 0 hrest
    hcolumn
  rwa [List.nil_append, Nat.zero_max] at hempty

/-- A block that has line breaks only. -/
theorem blockBody_breaks {parent j : Nat} (hj : j ≤ parent) {t : List Char} (ht : AtInk t)
    {bs : List Char} (hne : bs ≠ []) (hbs : ∀ x ∈ bs, IsPlainBreak x) {fuel : Nat}
    (hfuel : bs.length < fuel) {c : Cursor} (hrest : c.rest = bs ++ (spaces j ++ t))
    (hcolumn : c.column = 0) :
    blockBody parent bs fuel c = some (bs, c.past (bs ++ spaces j)) := by
  have hbreaks : ∀ x ∈ bs, isBreak x = true := fun x hx => (hbs x hx).isBreak
  have hfixed : fixedIndent parent bs = parent + 2 := by
    refine (fixedIndent_cases parent bs).resolve_left ?_
    rintro ⟨-, -, h⟩
    rw [List.head?_eq_some_head hne, Option.any_some, hbreaks _ (List.head_mem hne)] at h
    cases h
  obtain ⟨hspace, htab, hbreak⟩ := ht.head?
  have hempty := emptyLines_eq (Or.inr (by omega : j ≤ parent + 2)) (Or.inr hspace) htab hbreak
    hbs hfuel [] 0 hrest hcolumn
  have hcol : (c.past (bs ++ spaces j)).column ≠ parent + 2 := by
    rw [Cursor.column_past_spaces hcolumn hbreaks]
    omega
  rw [blockBody, hfixed, hempty, Option.bind_some]
  simp only [show (parent + 2 == 0) = false from rfl, Bool.false_eq_true, if_false,
    blockLines_end hcol (Nat.zero_lt_of_lt hfuel), chompSign_of_breaks hne hbreaks]
  rfl

/-- A block that has line breaks and then a text that begins with a line. -/
theorem blockBody_lines {parent j : Nat} (hj : j ≤ parent) {t : List Char} (ht : AtInk t)
    {bs s : List Char} (hbs : ∀ x ∈ bs, IsPlainBreak x) (hne : s ≠ [])
    (hhead : s.head?.any isBreak = false) (hprint : ∀ x ∈ s, isPrintable x = true) {fuel : Nat}
    {c : Cursor} (hrest : c.rest = bs ++ (spaces (parent + 2) ++
      (blockText (parent + 2) false s ++ (lineEnd s ++ (spaces j ++ t)))))
    (hfuel : c.rest.length < fuel) (hcolumn : c.column = 0) :
    blockBody parent (bs ++ s) fuel c =
      some (bs ++ s, c.past (bs ++ (spaces (parent + 2) ++
        (blockText (parent + 2) false s ++ (lineEnd s ++ spaces j))))) := by
  obtain ⟨body, lead, trail, hclosing, hread⟩ := exists_linesRead
    (by omega : j < parent + 2) ht hne hhead hprint
  have hlength : bs.length < fuel := by
    rw [hrest, List.length_append] at hfuel
    omega
  have hempty := emptyLines_first hbs hne hhead hprint hlength hrest hcolumn
  rw [← List.append_assoc] at hrest
  have hnext := Cursor.rest_past_of_eq hrest
  have hcol := Cursor.column_past_spaces hcolumn (fun x hx => (hbs x hx).isBreak) (parent + 2)
  have hfuel' : (c.past (bs ++ spaces (parent + 2))).rest.length < fuel := by
    rw [Cursor.rest_past, List.length_drop]
    omega
  have hkept := (hclosing.append bs).tail_chompSign
  rw [blockBody, hempty, Option.bind_some]
  simp only [indent_of_widest]
  rw [hread _ [] bs false _ hnext hcol hfuel']
  simp only [List.nil_append, Option.map_some, hkept, ← Cursor.past_append, List.append_assoc]

/-- A block is read up to the next line, which is indented less. -/
theorem blockScalar_blockRest {parent j : Nat} (hj : j ≤ parent) {t : List Char} (ht : AtInk t)
    {s : List Char} (hne : s ≠ []) (hprint : ∀ x ∈ s, isPrintable x = true) {c : Cursor}
    (hrest : c.rest = blockRest (parent + 2) s ++ (spaces j ++ t)) :
    blockScalar true parent c = some (s, c.past (blockRest (parent + 2) s ++ spaces j)) := by
  obtain ⟨bs, more, rfl, hbs, hmore⟩ : ∃ bs more, s = bs ++ more ∧ (∀ x ∈ bs, isBreak x = true) ∧
      more.head?.any isBreak = false :=
    ⟨s.takeWhile isBreak, s.dropWhile isBreak, List.takeWhile_append_dropWhile.symm,
      fun x hx => List.mem_takeWhile_imp hx, head?_dropWhile isBreak s⟩
  rw [List.forall_mem_append] at hprint
  have hplain : ∀ x ∈ bs, IsPlainBreak x := fun x hx =>
    isPlainBreak_of_isPrintable (hprint.1 x hx) (hbs x hx)
  have htext : ∀ u, blockRest (parent + 2) (bs ++ more) ++ u =
      indentSign (bs ++ more) ++ chompSign (bs ++ more) ++
        '\n' :: (bs ++ (blockText (parent + 2) true more ++ (lineEnd (bs ++ more) ++ u))) := by
    intro u
    rw [blockRest, blockText_append_of_breaks _ hbs]
    simp only [List.append_assoc, List.cons_append]
  rw [htext] at hrest ⊢
  have hpast : ∀ u, c.past (indentSign (bs ++ more) ++ chompSign (bs ++ more) ++ '\n' :: u) =
      (c.past (indentSign (bs ++ more) ++ chompSign (bs ++ more) ++ ['\n'])).past u := by
    intro u
    rw [List.append_cons, Cursor.past_append]
  rw [blockScalar_signs _ _ hrest, hpast (bs ++ _)]
  rw [List.append_cons] at hrest
  have hfirst := Cursor.rest_past_of_eq hrest
  have hcolumn : (c.past (indentSign (bs ++ more) ++ chompSign (bs ++ more) ++ ['\n'])).column =
      0 := by
    rw [Cursor.past_append, Cursor.column_past_break _ rfl]
  generalize c.past (indentSign (bs ++ more) ++ chompSign (bs ++ more) ++ ['\n']) = d at *
  -- Without a line, the spaces after the breaks are those of the next line and show no indent.
  by_cases hmore0 : more = []
  · subst hmore0
    rw [List.append_nil] at hne
    simp only [List.append_nil, blockText, lineEnd_of_breaks hne hbs, List.nil_append]
      at hfirst ⊢
    refine blockBody_breaks hj ht hne hplain ?_ hfirst hcolumn
    rw [List.length_append]
    omega
  · simp only [blockText_true _ hmore0 hmore, lineEnd_append bs hmore0, List.append_assoc]
      at hfirst ⊢
    refine blockBody_lines hj ht hplain hmore0 hmore hprint.2 hfirst ?_ hcolumn
    rw [hfirst]
    omega

end HelpMiner.Document.Yaml
