import HelpMiner.Proofs.Document.Yaml.Plain
import HelpMiner.Proofs.Text.Digit
import Mathlib.Tactic.Ring

/-! Scalars in quotes are read as their texts. -/
namespace HelpMiner.Document.Yaml

/-! ## Steps -/

theorem isPlainBreak_of_isPrintable {x : Char} (h : isPrintable x = true) (hx : isBreak x = true) :
    IsPlainBreak x := by
  simp only [isBreak, Bool.or_eq_true, beq_iff_eq] at hx
  rcases hx with (((rfl | rfl) | rfl) | rfl) | rfl
  · exact Or.inl rfl
  · cases h
  · cases h
  · exact Or.inr (Or.inl rfl)
  · exact Or.inr (Or.inr rfl)

/-- What is read in quotes from within a gap on. -/
def quotedFrom (single : Bool) (gapFuel fuel : Nat) (g : Gap) (c : Cursor) :
    Option (List Char × Cursor) :=
  (gap 0 gapFuel g c).bind fun r => (quoted single fuel r.2).map fun q => (r.1.text ++ q.1, q.2)

theorem quotedFrom_ink (single : Bool) {gapFuel fuel : Nat} (hfuel : 0 < gapFuel) (g : Gap)
    {c : Cursor} (h : AtInk c.rest) :
    quotedFrom single gapFuel fuel g c =
      (quoted single fuel c).map fun q => (g.text ++ q.1, q.2) := by
  rw [quotedFrom, gap_ink 0 hfuel g h, Option.bind_some]

theorem quotedFrom_blank (single : Bool) (gapFuel fuel : Nat) (b : List Char) {c : Cursor}
    {x : Char} {rest : List Char} (hrest : c.rest = x :: rest) (hx : isBlank x = true) :
    quotedFrom single (gapFuel + 1) fuel (.blanks b) c =
      quotedFrom single gapFuel fuel (.blanks (b ++ [x])) (c.past [x]) := by
  rw [quotedFrom, gap_blank 0 gapFuel b hrest hx, quotedFrom]

theorem quotedFrom_break (single : Bool) (gapFuel fuel : Nat) (g : Gap) {c : Cursor} {x : Char}
    {rest : List Char} (hrest : c.rest = x :: rest) (hx : IsPlainBreak x) :
    quotedFrom single (gapFuel + 1) fuel g c =
      quotedFrom single gapFuel fuel (g.addBreak [x]) (c.past [x]) := by
  rw [quotedFrom, gap_break 0 gapFuel g hrest hx, quotedFrom]

theorem quotedFrom_spaces (single : Bool) {n gapFuel fuel : Nat} (hfuel : n < gapFuel)
    (first more : List Char) {c : Cursor} {t : List Char} (hrest : c.rest = spaces n ++ t)
    (ht : AtInk t) :
    quotedFrom single gapFuel fuel (.breaks first more) c =
      (quoted single fuel (c.past (spaces n))).map
        fun q => ((Gap.breaks first more).text ++ q.1, q.2) := by
  rw [quotedFrom, gap_spaces 0 n hfuel first more hrest ht, Option.bind_some]

theorem quoted_gap (single : Bool) (fuel : Nat) {c : Cursor} {x : Char} {rest : List Char}
    (hmarker : c.atMarker = false) (hrest : c.rest = x :: rest)
    (hx : isBlank x = true ∨ isBreak x = true) :
    quoted single (fuel + 1) c = quotedFrom single (fuel + 1) fuel (.blanks []) c := by
  have hor : (isBlank x || isBreak x) = true := by simpa using hx
  rw [quoted, quotedFrom, hrest]
  simp only [hmarker, hor, if_true, bind, Bool.false_eq_true, if_false]

/-- How a character stands in single quotes. -/
def singleChar (x : Char) : List Char := if x == '\'' then ['\'', '\''] else [x]

theorem singleChar_cases (x : Char) :
    x = '\'' ∧ singleChar x = ['\'', '\''] ∨ x ≠ '\'' ∧ singleChar x = [x] := by
  by_cases hx : x = '\''
  · exact Or.inl ⟨hx, by simp [singleChar, hx]⟩
  · exact Or.inr ⟨hx, by simp [singleChar, hx]⟩

theorem forall_mem_singleChar {p : Char → Bool} {x : Char} (h : p x = false) :
    ∀ y ∈ singleChar x, p y = false := by
  rcases singleChar_cases x with ⟨rfl, hx⟩ | ⟨-, hx⟩ <;> simp [hx, h]

theorem quoted_single_char (fuel : Nat) {c : Cursor} {x : Char} {rest : List Char}
    (hmarker : c.atMarker = false) (hrest : c.rest = singleChar x ++ rest)
    (hblank : isBlank x = false) (hbreak : isBreak x = false) :
    quoted true (fuel + 1) c =
      (quoted true fuel (c.past (singleChar x))).map fun q => (x :: q.1, q.2) := by
  rw [Cursor.past_eq_skip c (forall_mem_singleChar hbreak), quoted, hrest]
  rcases singleChar_cases x with ⟨rfl, hx⟩ | ⟨hne, hx⟩
  · simp [hmarker, hx, isBlank, isBreak]
  · simp [hmarker, hx, hblank, hbreak, hne]

theorem quoted_single_end (fuel : Nat) {c : Cursor} {rest : List Char}
    (hmarker : c.atMarker = false) (hrest : c.rest = '\'' :: rest)
    (hnext : rest.head? ≠ some '\'') :
    quoted true (fuel + 1) c = some ([], c.past ['\'']) := by
  rw [quoted, hrest, ← Cursor.skip_one_eq_past c (show isBreak '\'' = false from rfl)]
  simp [hmarker, isBlank, isBreak, hnext]

theorem quoted_double_ink (fuel : Nat) {c : Cursor} {x : Char} {rest : List Char}
    (hmarker : c.atMarker = false) (hrest : c.rest = x :: rest) (hblank : isBlank x = false)
    (hbreak : isBreak x = false) (hquote : x ≠ '"') (hslash : x ≠ '\\') :
    quoted false (fuel + 1) c =
      (quoted false fuel (c.past [x])).map fun q => (x :: q.1, q.2) := by
  rw [quoted, hrest, ← Cursor.skip_one_eq_past c hbreak]
  simp [hmarker, hblank, hbreak, hquote, hslash]

theorem quoted_double_escape (fuel : Nat) {c : Cursor} {x : Char} {code rest : List Char}
    (hmarker : c.atMarker = false) (hrest : c.rest = '\\' :: (code ++ rest))
    (hcode : escaped? (code ++ rest) = some (x, code.length))
    (hbreak : ∀ y ∈ code, isBreak y = false) (hne : code ≠ []) :
    quoted false (fuel + 1) c =
      (quoted false fuel (c.past ('\\' :: code))).map fun q => (x :: q.1, q.2) := by
  have hpast : c.past ('\\' :: code) = c.skip (code.length + 1) :=
    Cursor.past_eq_skip c (List.forall_mem_cons.2 ⟨rfl, hbreak⟩)
  have hhead : (code ++ rest).head?.any isBreak = false := by
    cases code with
    | nil => contradiction
    | cons y code => simpa using hbreak y List.mem_cons_self
  rw [List.head?_append] at hhead
  rw [quoted, hrest, hpast]
  simp [hmarker, isBlank, isBreak, hhead, hcode]

theorem quoted_double_end (fuel : Nat) {c : Cursor} {rest : List Char}
    (hmarker : c.atMarker = false) (hrest : c.rest = '"' :: rest) :
    quoted false (fuel + 1) c = some ([], c.past ['"']) := by
  rw [quoted, hrest, ← Cursor.skip_one_eq_past c (show isBreak '"' = false from rfl)]
  simp [hmarker, isBlank, isBreak]

/-! ## Single quotes -/

theorem singleRest_true (n : Nat) {s : List Char} (h : s.head?.any isBreak = false) :
    singleRest n true s = spaces n ++ singleRest n false s := by
  cases s with
  | nil => rfl
  | cons x s =>
    have hx : isBreak x = false := by simpa using h
    simp [singleRest, hx]

/-- A text that single quotes can hold. -/
structure SingleQuotable (s : List Char) : Prop where
  printable : ∀ x ∈ s, isPrintable x = true
  newLine : '\n' ∉ s
  spaceBreak : hasPair (· == ' ') isBreak s = false
  breakSpace : hasPair isBreak (· == ' ') s = false

theorem hasPair_tail {p q : Char → Bool} {x : Char} {s : List Char}
    (h : hasPair p q (x :: s) = false) : hasPair p q s = false := by
  cases s with
  | nil => rfl
  | cons y s =>
    simp only [hasPair, Bool.or_eq_false_iff] at h
    exact h.2

theorem head?_of_hasPair {p q : Char → Bool} {x : Char} {s : List Char}
    (h : hasPair p q (x :: s) = false) (hx : p x = true) : s.head?.any q = false := by
  cases s with
  | nil => rfl
  | cons y s =>
    simp only [hasPair, Bool.or_eq_false_iff, hx, Bool.true_and] at h
    exact h.1

theorem SingleQuotable.tail {x : Char} {s : List Char} (h : SingleQuotable (x :: s)) :
    SingleQuotable s where
  printable := (List.forall_mem_cons.1 h.printable).2
  newLine hmem := h.newLine (List.mem_cons_of_mem _ hmem)
  spaceBreak := hasPair_tail h.spaceBreak
  breakSpace := hasPair_tail h.breakSpace

/-- What is read of a text in single quotes: from a character of it, from blanks before it, and
    from the breaks before it. -/
structure SingleRead (n : Nat) (tail s : List Char) : Prop where
  ink : ∀ fuel c, c.rest = singleRest n false s ++ tail → c.column ≠ 0 → c.rest.length < fuel →
    quoted true fuel c = some (s, c.past (singleRest n false s))
  blanks : ∀ gapFuel fuel b c, s.head?.any isBreak = false → c.rest = singleRest n false s ++ tail →
    c.column ≠ 0 → c.rest.length < gapFuel → c.rest.length < fuel →
      quotedFrom true gapFuel fuel (.blanks b) c = some (b ++ s, c.past (singleRest n false s))
  breaks : ∀ gapFuel fuel first more c, first ≠ ['\n'] → s.head? ≠ some ' ' →
    c.rest = singleRest n true s ++ tail → c.rest.length < gapFuel → c.rest.length < fuel →
      quotedFrom true gapFuel fuel (.breaks first more) c =
        some (first ++ more ++ s, c.past (singleRest n true s))

theorem Gap.text_breaks {first : List Char} (h : first ≠ ['\n']) (more : List Char) :
    (Gap.breaks first more).text = first ++ more := by
  simp [Gap.text, h]

/-- Where a text goes on with a character that is neither a blank nor a break, gaps end. -/
theorem SingleRead.of_ink {n : Nat} (hn : 0 < n) {tail s : List Char}
    (hink : AtInk (singleRest n false s ++ tail)) (hhead : s.head?.any isBreak = false)
    (h : ∀ fuel c, c.rest = singleRest n false s ++ tail → c.column ≠ 0 → c.rest.length < fuel →
      quoted true fuel c = some (s, c.past (singleRest n false s))) : SingleRead n tail s where
  ink := h
  blanks := by
    intro gapFuel fuel b c _ hrest hcolumn hgap hfuel
    rw [quotedFrom_ink true (by omega) _ (hrest ▸ hink), h fuel c hrest hcolumn hfuel]
    rfl
  breaks := by
    intro gapFuel fuel first more c hfirst _ hrest hgap hfuel
    rw [singleRest_true n hhead, List.append_assoc] at hrest
    have hnext : (c.past (spaces n)).rest = singleRest n false s ++ tail :=
      Cursor.rest_past_of_eq hrest
    have hlength : c.rest.length = n + (c.past (spaces n)).rest.length := by
      rw [hnext, hrest, List.length_append, length_spaces]
    have hcolumn : (c.past (spaces n)).column ≠ 0 := by
      rw [Cursor.column_past _ isBreak_of_mem_spaces, length_spaces]
      omega
    rw [quotedFrom_spaces true (by omega) first more hrest hink,
      h fuel _ hnext hcolumn (by omega), Option.map_some, Gap.text_breaks hfirst,
      singleRest_true n hhead, Cursor.past_append]

theorem SingleRead.of_break {n : Nat} {tail s : List Char} (h : SingleRead n tail s) {x : Char}
    (hx : IsPlainBreak x) (hne : x ≠ '\n') (hnext : s.head?.any (· == ' ') = false) :
    SingleRead n tail (x :: s) := by
  have hrest : ∀ newLine, singleRest n newLine (x :: s) = x :: singleRest n true s := by
    intro newLine
    rw [singleRest, if_pos hx.isBreak]
  have hspace : s.head? ≠ some ' ' := by
    intro hs
    simp [hs] at hnext
  have hfirst : [x] ≠ ['\n'] := by simpa using hne
  refine ⟨?_, ?_, ?_⟩
  · intro fuel c hc hcolumn hfuel
    obtain ⟨fuel, rfl⟩ : ∃ m, fuel = m + 1 := ⟨fuel - 1, by omega⟩
    rw [hrest, List.cons_append, ← List.singleton_append] at hc
    have hmore := Cursor.rest_past_of_eq hc
    have hlength := Cursor.length_rest_past hc
    rw [List.length_singleton] at hlength
    rw [quoted_gap true fuel (Cursor.atMarker_eq_false hcolumn) hc (Or.inr hx.isBreak),
      quotedFrom_break true fuel fuel _ hc hx, Gap.addBreak,
      h.breaks fuel fuel [x] [] _ hfirst hspace hmore (by omega) (by omega), hrest,
      Cursor.past_cons c x (singleRest n true s)]
    rfl
  · intro gapFuel fuel b c hhead
    simp [hx.isBreak] at hhead
  · intro gapFuel fuel first more c hne _ hc hgap hfuel
    obtain ⟨gapFuel, rfl⟩ : ∃ m, gapFuel = m + 1 := ⟨gapFuel - 1, by omega⟩
    rw [hrest, List.cons_append, ← List.singleton_append] at hc
    have hmore := Cursor.rest_past_of_eq hc
    have hlength := Cursor.length_rest_past hc
    rw [List.length_singleton] at hlength
    rw [quotedFrom_break true gapFuel fuel _ hc hx, Gap.addBreak,
      h.breaks gapFuel fuel first (more ++ [x]) _ hne hspace hmore (by omega) (by omega), hrest,
      Cursor.past_cons c x (singleRest n true s)]
    simp only [List.append_assoc, List.singleton_append]

theorem SingleRead.of_space {n : Nat} {tail s : List Char} (h : SingleRead n tail s)
    (hnext : s.head?.any isBreak = false) : SingleRead n tail (' ' :: s) := by
  have hrest : singleRest n false (' ' :: s) = ' ' :: singleRest n false s := rfl
  have hblanks : ∀ gapFuel fuel b c, c.rest = [' '] ++ (singleRest n false s ++ tail) →
      c.column ≠ 0 → c.rest.length < gapFuel + 1 → c.rest.length < fuel + 1 →
      quotedFrom true (gapFuel + 1) fuel (.blanks b) c =
        some (b ++ ' ' :: s, c.past (singleRest n false (' ' :: s))) := by
    intro gapFuel fuel b c hc hcolumn hgap hfuel
    have hmore := Cursor.rest_past_of_eq hc
    have hlength := Cursor.length_rest_past hc
    rw [List.length_singleton] at hlength
    rw [quotedFrom_blank true gapFuel fuel b hc rfl,
      h.blanks gapFuel fuel _ _ hnext hmore (Cursor.column_past_ne_zero c (by decide) (by decide))
        (by omega) (by omega), hrest, Cursor.past_cons c ' ' (singleRest n false s)]
    simp only [List.append_assoc, List.singleton_append]
  refine ⟨?_, ?_, ?_⟩
  · intro fuel c hc hcolumn hfuel
    obtain ⟨fuel, rfl⟩ : ∃ m, fuel = m + 1 := ⟨fuel - 1, by omega⟩
    rw [hrest, List.cons_append, ← List.singleton_append] at hc
    rw [quoted_gap true fuel (Cursor.atMarker_eq_false hcolumn) hc (Or.inl rfl)]
    exact hblanks fuel fuel [] c hc hcolumn hfuel hfuel
  · intro gapFuel fuel b c _ hc hcolumn hgap hfuel
    obtain ⟨gapFuel, rfl⟩ : ∃ m, gapFuel = m + 1 := ⟨gapFuel - 1, by omega⟩
    rw [hrest, List.cons_append, ← List.singleton_append] at hc
    exact hblanks gapFuel fuel b c hc hcolumn hgap (Nat.lt_succ_of_lt hfuel)
  -- A space after a break would be taken for the indent of a line, so none comes there.
  · intro gapFuel fuel first more c _ hspace
    exact absurd rfl hspace

theorem SingleRead.of_char {n : Nat} (hn : 0 < n) {tail s : List Char} (h : SingleRead n tail s)
    {x : Char} (hbreak : isBreak x = false) (hblank : isBlank x = false) :
    SingleRead n tail (x :: s) := by
  have hrest : singleRest n false (x :: s) = singleChar x ++ singleRest n false s := by
    simp [singleRest, hbreak, singleChar]
  refine .of_ink hn ?_ (by simpa using hbreak) ?_
  · intro y more heq
    have hy : y ∈ singleChar x := by
      rw [hrest] at heq
      rcases singleChar_cases x with ⟨-, hx⟩ | ⟨-, hx⟩ <;> rw [hx] at heq ⊢ <;>
        exact (List.cons.inj heq).1 ▸ List.mem_cons_self
    exact ⟨forall_mem_singleChar hblank y hy, forall_mem_singleChar hbreak y hy⟩
  · intro fuel c hc hcolumn hfuel
    obtain ⟨fuel, rfl⟩ : ∃ m, fuel = m + 1 := ⟨fuel - 1, by omega⟩
    rw [hrest, List.append_assoc] at hc
    have hne : singleChar x ≠ [] := by
      rcases singleChar_cases x with ⟨-, hx⟩ | ⟨-, hx⟩ <;> simp [hx]
    have hmore := Cursor.rest_past_of_eq hc
    have hlength := Cursor.length_rest_past hc
    have hpos := List.length_pos_iff.2 hne
    rw [quoted_single_char fuel (Cursor.atMarker_eq_false hcolumn) hc hblank hbreak,
      h.ink fuel _ hmore (Cursor.column_past_ne_zero c (forall_mem_singleChar hbreak) hne)
        (by omega), hrest, Cursor.past_append]
    rfl

theorem singleRead {n : Nat} (hn : 0 < n) {tail : List Char} (htail : tail.head? ≠ some '\'')
    {s : List Char} (hs : SingleQuotable s) : SingleRead n tail s := by
  induction s with
  | nil =>
    refine .of_ink hn ?_ rfl ?_
    · intro x more heq
      obtain ⟨rfl, -⟩ := List.cons.inj heq
      exact ⟨rfl, rfl⟩
    · intro fuel c hrest hcolumn hfuel
      obtain ⟨fuel, rfl⟩ : ∃ m, fuel = m + 1 := ⟨fuel - 1, by omega⟩
      exact quoted_single_end fuel (Cursor.atMarker_eq_false hcolumn) hrest htail
  | cons x s ih =>
    have hread := ih hs.tail
    have hprint := hs.printable x List.mem_cons_self
    by_cases hbreak : isBreak x = true
    · exact hread.of_break (isPlainBreak_of_isPrintable hprint hbreak)
        (fun h => hs.newLine (h ▸ List.mem_cons_self)) (head?_of_hasPair hs.breakSpace hbreak)
    · rw [Bool.not_eq_true] at hbreak
      by_cases hspace : x = ' '
      · subst hspace
        exact hread.of_space (head?_of_hasPair hs.spaceBreak rfl)
      · exact hread.of_char hn hbreak (isBlank_eq_false_of_isPrintable hprint hspace)

/-! ## Double quotes -/

theorem hexDigits_succ (k n : Nat) :
    hexDigits (k + 1) n = (Nat.digitChar (n / 16 ^ k % 16)).toUpper :: hexDigits k n := by
  simp [hexDigits, List.range_succ]

theorem length_hexDigits (k n : Nat) : (hexDigits k n).length = k := by
  simp [hexDigits]

/-- The last hexadecimal digits of a number stand for it, if it is small. -/
theorem digitsFrom?_hexDigits (k n acc : Nat) :
    Text.digitsFrom? 16 acc (hexDigits k n) = some (acc * 16 ^ k + n % 16 ^ k) := by
  induction k generalizing acc with
  | zero => simp [hexDigits, Text.digitsFrom?, Nat.mod_one]
  | succ k ih =>
    have hdigit := Text.digitValue?_toUpper_digitChar (n / 16 ^ k % 16) (Nat.mod_lt _ (by decide))
    rw [hexDigits_succ, Text.digitsFrom?, hdigit, Option.bind_some, ih, Nat.mod_pow_succ]
    congr 1
    ring

theorem isBreak_toUpper_digitChar : ∀ d < 16, isBreak (Nat.digitChar d).toUpper = false := by decide

theorem isBreak_of_mem_hexDigits {k n : Nat} : ∀ x ∈ hexDigits k n, isBreak x = false := by
  intro x hx
  obtain ⟨i, -, rfl⟩ := List.mem_map.1 hx
  exact isBreak_toUpper_digitChar _ (Nat.mod_lt _ (by decide))

theorem escaped?_hexDigits {letter : Char} (hletter : letterEscape? letter = none) {k : Nat}
    (hk : escapeDigits? letter = some k) {c : Char} (hc : c.toNat < 16 ^ k) (rest : List Char) :
    escaped? (letter :: hexDigits k c.toNat ++ rest) = some (c, k + 1) := by
  have htake : (hexDigits k c.toNat ++ rest).take k = hexDigits k c.toNat :=
    List.take_left' (length_hexDigits k _)
  have hvalid : c.toNat.isValidChar := c.valid
  rw [List.cons_append, escaped?]
  simp [hletter, hk, htake, length_hexDigits, digitsFrom?_hexDigits, Nat.mod_eq_of_lt hc, hvalid,
    Char.ofNat_toNat]

/-- A character stands in double quotes as it is, or as an escape for it. -/
theorem escape_cases (x : Char) :
    escape x = [x] ∧ isPrintable x = true ∧ isBreak x = false ∧ x ≠ '"' ∧ x ≠ '\\' ∨
    ∃ code, escape x = '\\' :: code ∧ code ≠ [] ∧ (∀ y ∈ code, isBreak y = false) ∧
      ∀ rest, escaped? (code ++ rest) = some (x, code.length) := by
  have hletter : ∀ letter, letterEscape? letter = some x → isBreak letter = false →
      ∃ code, ['\\', letter] = '\\' :: code ∧ code ≠ [] ∧ (∀ y ∈ code, isBreak y = false) ∧
        ∀ rest, escaped? (code ++ rest) = some (x, code.length) := by
    intro letter hx hbreak
    refine ⟨[letter], rfl, List.cons_ne_nil _ _, by simpa using hbreak, fun rest => ?_⟩
    rw [List.singleton_append, escaped?, hx]
    rfl
  have hhex : ∀ letter k, letterEscape? letter = none → escapeDigits? letter = some k →
      isBreak letter = false → x.toNat < 16 ^ k →
      ∃ code, '\\' :: letter :: hexDigits k x.toNat = '\\' :: code ∧ code ≠ [] ∧
        (∀ y ∈ code, isBreak y = false) ∧
        ∀ rest, escaped? (code ++ rest) = some (x, code.length) := by
    intro letter k hnone hk hbreak hx
    refine ⟨letter :: hexDigits k x.toNat, rfl, List.cons_ne_nil _ _,
      List.forall_mem_cons.2 ⟨hbreak, isBreak_of_mem_hexDigits⟩, fun rest => ?_⟩
    rw [escaped?_hexDigits hnone hk hx, List.length_cons, length_hexDigits]
  -- The last case is that of a character without a letter of its own: it stands for itself, or is
  -- written by its number in the least of three widths.
  unfold escape
  split
  case h_15 hnul halert hback htab hfeed hvtab hform hreturn hesc hquote hslash hnext hline hpara =>
    split
    · rename_i hprint
      have hbreak : isBreak x = false := by
        simp only [isBreak, Bool.or_eq_false_iff, beq_eq_false_iff_ne]
        exact ⟨⟨⟨⟨hfeed, hreturn⟩, hnext⟩, hline⟩, hpara⟩
      exact Or.inl ⟨rfl, hprint, hbreak, hquote, hslash⟩
    · refine Or.inr ?_
      split
      · rename_i hsmall
        exact hhex 'x' 2 rfl rfl rfl hsmall
      · split
        · rename_i hsmall
          exact hhex 'u' 4 rfl rfl rfl hsmall
        · exact hhex 'U' 8 rfl rfl rfl (Nat.lt_of_lt_of_eq x.val.toNat_lt (by decide))
  all_goals exact Or.inr (hletter _ rfl rfl)

theorem isBreak_of_mem_escape {x : Char} : ∀ y ∈ escape x, isBreak y = false := by
  rcases escape_cases x with ⟨hx, -, hbreak, -⟩ | ⟨code, hx, -, hbreak, -⟩
  · simpa [hx] using hbreak
  · rw [hx]
    exact List.forall_mem_cons.2 ⟨rfl, hbreak⟩

theorem escape_ne_nil (x : Char) : escape x ≠ [] := by
  rcases escape_cases x with ⟨hx, -⟩ | ⟨code, hx, -⟩ <;> simp [hx]

theorem isBlank_of_mem_head_escape {x y : Char} (hx : x ≠ ' ') (hy : (escape x).head? = some y) :
    isBlank y = false := by
  rcases escape_cases x with ⟨he, hprint, -⟩ | ⟨code, he, -⟩
  · rw [he] at hy
    obtain rfl := Option.some.inj hy
    exact isBlank_eq_false_of_isPrintable hprint hx
  · rw [he] at hy
    obtain rfl := Option.some.inj hy
    rfl

theorem quoted_double_char (fuel : Nat) {c : Cursor} {x : Char} {rest : List Char}
    (hmarker : c.atMarker = false) (hrest : c.rest = escape x ++ rest) (hx : x ≠ ' ') :
    quoted false (fuel + 1) c =
      (quoted false fuel (c.past (escape x))).map fun q => (x :: q.1, q.2) := by
  rcases escape_cases x with ⟨he, hprint, hbreak, hquote, hslash⟩ | ⟨code, he, hne, hbreak, hcode⟩
  · rw [he] at hrest ⊢
    exact quoted_double_ink fuel hmarker hrest (isBlank_eq_false_of_isPrintable hprint hx) hbreak
      hquote hslash
  · rw [he] at hrest ⊢
    exact quoted_double_escape fuel hmarker hrest (hcode rest) hbreak hne

/-- A text in double quotes after the opening one. -/
def doubleRest (s : List Char) : List Char := s.flatMap escape ++ ['"']

theorem doubleRest_cons (x : Char) (s : List Char) :
    doubleRest (x :: s) = escape x ++ doubleRest s := by
  simp [doubleRest]

theorem isBreak_of_mem_doubleRest {s : List Char} : ∀ x ∈ doubleRest s, isBreak x = false := by
  induction s with
  | nil => decide
  | cons x s ih =>
    rw [doubleRest_cons, List.forall_mem_append]
    exact ⟨isBreak_of_mem_escape, ih⟩

/-- What is read of a text in double quotes: from a character of it, and from blanks before it. -/
structure DoubleRead (tail s : List Char) : Prop where
  ink : ∀ fuel c, c.rest = doubleRest s ++ tail → c.column ≠ 0 → c.rest.length < fuel →
    quoted false fuel c = some (s, c.past (doubleRest s))
  blanks : ∀ gapFuel fuel b c, c.rest = doubleRest s ++ tail → c.column ≠ 0 →
    c.rest.length < gapFuel → c.rest.length < fuel →
      quotedFrom false gapFuel fuel (.blanks b) c = some (b ++ s, c.past (doubleRest s))

theorem DoubleRead.of_ink {tail s : List Char} (hink : AtInk (doubleRest s ++ tail))
    (h : ∀ fuel c, c.rest = doubleRest s ++ tail → c.column ≠ 0 → c.rest.length < fuel →
      quoted false fuel c = some (s, c.past (doubleRest s))) : DoubleRead tail s where
  ink := h
  blanks := by
    intro gapFuel fuel b c hrest hcolumn hgap hfuel
    rw [quotedFrom_ink false (by omega) _ (hrest ▸ hink), h fuel c hrest hcolumn hfuel]
    rfl

theorem DoubleRead.of_space {tail s : List Char} (h : DoubleRead tail s) :
    DoubleRead tail (' ' :: s) := by
  have hblanks : ∀ gapFuel fuel b c, c.rest = [' '] ++ (doubleRest s ++ tail) →
      c.rest.length < gapFuel + 1 → c.rest.length < fuel + 1 →
      quotedFrom false (gapFuel + 1) fuel (.blanks b) c =
        some (b ++ ' ' :: s, c.past (doubleRest (' ' :: s))) := by
    intro gapFuel fuel b c hc hgap hfuel
    have hmore := Cursor.rest_past_of_eq hc
    have hlength := Cursor.length_rest_past hc
    rw [List.length_singleton] at hlength
    rw [quotedFrom_blank false gapFuel fuel b hc rfl,
      h.blanks gapFuel fuel _ _ hmore (Cursor.column_past_ne_zero c (by decide) (by decide))
        (by omega) (by omega), doubleRest_cons, Cursor.past_append]
    simp only [List.append_assoc, List.singleton_append]
    rfl
  refine ⟨?_, ?_⟩
  · intro fuel c hc hcolumn hfuel
    obtain ⟨fuel, rfl⟩ : ∃ m, fuel = m + 1 := ⟨fuel - 1, by omega⟩
    rw [doubleRest_cons, List.append_assoc] at hc
    rw [quoted_gap false fuel (Cursor.atMarker_eq_false hcolumn) hc (Or.inl rfl)]
    exact hblanks fuel fuel [] c hc hfuel hfuel
  · intro gapFuel fuel b c hc hcolumn hgap hfuel
    obtain ⟨gapFuel, rfl⟩ : ∃ m, gapFuel = m + 1 := ⟨gapFuel - 1, by omega⟩
    rw [doubleRest_cons, List.append_assoc] at hc
    exact hblanks gapFuel fuel b c hc hgap (Nat.lt_succ_of_lt hfuel)

theorem DoubleRead.of_char {tail s : List Char} (h : DoubleRead tail s) {x : Char} (hx : x ≠ ' ') :
    DoubleRead tail (x :: s) := by
  refine .of_ink ?_ ?_
  · intro y more heq
    have hy : (escape x).head? = some y := by
      rw [doubleRest_cons, List.append_assoc] at heq
      obtain ⟨z, code, hcode⟩ := List.exists_cons_of_ne_nil (escape_ne_nil x)
      rw [hcode] at heq ⊢
      rw [List.head?_cons, (List.cons.inj heq).1]
    exact ⟨isBlank_of_mem_head_escape hx hy, isBreak_of_mem_escape y (List.mem_of_head? hy)⟩
  · intro fuel c hc hcolumn hfuel
    obtain ⟨fuel, rfl⟩ : ∃ m, fuel = m + 1 := ⟨fuel - 1, by omega⟩
    rw [doubleRest_cons, List.append_assoc] at hc
    have hmore := Cursor.rest_past_of_eq hc
    have hlength := Cursor.length_rest_past hc
    have hpos := List.length_pos_iff.2 (escape_ne_nil x)
    rw [quoted_double_char fuel (Cursor.atMarker_eq_false hcolumn) hc hx,
      h.ink fuel _ hmore (Cursor.column_past_ne_zero c isBreak_of_mem_escape (escape_ne_nil x))
        (by omega), doubleRest_cons, Cursor.past_append]
    rfl

theorem doubleRead (tail s : List Char) : DoubleRead tail s := by
  induction s with
  | nil =>
    refine .of_ink ?_ ?_
    · intro x more heq
      obtain ⟨rfl, -⟩ := List.cons.inj heq
      exact ⟨rfl, rfl⟩
    · intro fuel c hrest hcolumn hfuel
      obtain ⟨fuel, rfl⟩ : ∃ m, fuel = m + 1 := ⟨fuel - 1, by omega⟩
      exact quoted_double_end fuel (Cursor.atMarker_eq_false hcolumn) hrest
  | cons x s ih =>
    by_cases hx : x = ' '
    · exact hx ▸ ih.of_space
    · exact ih.of_char hx

/-! ## Whole scalars -/

/-- A text in single quotes is read up to its closing quote. -/
theorem quoted_single {n : Nat} (hn : 0 < n) {s : List Char} (hs : SingleQuotable s)
    {tail : List Char} (htail : tail.head? ≠ some '\'') {fuel : Nat} {c : Cursor}
    (hrest : c.rest = singleRest n false s ++ tail) (hcolumn : c.column ≠ 0)
    (hfuel : c.rest.length < fuel) :
    quoted true fuel c = some (s, c.past (singleRest n false s)) :=
  (singleRead hn htail hs).ink fuel c hrest hcolumn hfuel

/-- A text in double quotes is read up to its closing quote. -/
theorem quoted_double {s tail : List Char} {fuel : Nat} {c : Cursor}
    (hrest : c.rest = doubleRest s ++ tail) (hcolumn : c.column ≠ 0)
    (hfuel : c.rest.length < fuel) :
    quoted false fuel c = some (s, c.past (doubleRest s)) :=
  (doubleRead tail s).ink fuel c hrest hcolumn hfuel

end HelpMiner.Document.Yaml
