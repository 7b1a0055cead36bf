import HelpMiner.Proofs.Document.Yaml.Scan

/-! Rows of blocks: an item with its dash, or a member with its key. Each is read up to its value,
and a value up to the next row. -/
namespace HelpMiner.Document.Yaml

namespace Scan

/-! ## Places -/

/-- A row begins here: what is left of the text, and the tokens and open blocks before it. -/
structure AtRow (s : Scan) (tokens : List Token) (indents : List Int) (column : Nat)
    (text : List Char) : Prop where
  rest : s.cursor.rest = text
  column : s.cursor.column = column
  level : s.level = 0
  keys : s.keys = []
  keyAllowed : s.keyAllowed = true
  indents : s.indents = indents
  tokens : s.tokens = tokens

/-- The tokens of a text that begins with a row. -/
def RowYields (tokens : List Token) (indents : List Int) (column : Nat) (text : List Char)
    (ts : List Token) : Prop :=
  ∀ s, AtRow s tokens indents column text → YieldsHere s ts

/-- The tokens of a text that begins with spaces and a row, at most at column `n`. -/
def LinesYield (n : Nat) (tokens : List Token) (indents : List Int) (text : List Char)
    (ts : List Token) : Prop :=
  ∃ j t, text = spaces j ++ t ∧ j ≤ n ∧ Begins t ∧ RowYields tokens indents j t ts

/-- A value comes next, after the indicator of a row in the block at column `n`. -/
structure AtValue (s : Scan) (compact : Bool) (tokens : List Token) (n : Nat) (outer : List Int)
    (text : List Char) : Prop where
  rest : s.cursor.rest = text
  right : n < s.cursor.column
  level : s.level = 0
  keys : s.keys = []
  keyAllowed : s.keyAllowed = compact
  indents : s.indents = (n : Int) :: outer
  tokens : s.tokens = tokens

/-- The tokens of a text that begins with a value. In a `compact` place, which is right after its
    indicator, rows can begin at once. -/
def ValueYields (compact : Bool) (tokens : List Token) (n : Nat) (outer : List Int)
    (text : List Char) (ts : List Token) : Prop :=
  ∀ s, AtValue s compact tokens n outer text → (compact = true → s.cursor.column = n + 1) →
    Yields s ts

theorem AtValue.indent_eq {s : Scan} {compact : Bool} {tokens : List Token} {n : Nat}
    {outer : List Int} {text : List Char} (hs : AtValue s compact tokens n outer text) :
    s.indent = n := by
  rw [indent, hs.indents]
  rfl

theorem AtValue.indent_lt {s : Scan} {compact : Bool} {tokens : List Token} {n : Nat}
    {outer : List Int} {text : List Char} (hs : AtValue s compact tokens n outer text) :
    s.indent < s.cursor.column := by
  rw [hs.indent_eq]
  exact Int.ofNat_lt.2 hs.right

theorem AtValue.atMarker {s : Scan} {compact : Bool} {tokens : List Token} {n : Nat}
    {outer : List Int} {text : List Char} (hs : AtValue s compact tokens n outer text) :
    s.cursor.atMarker = false :=
  Cursor.atMarker_eq_false (Nat.ne_of_gt (Nat.lt_of_le_of_lt (Nat.zero_le n) hs.right))

/-! ## Ends of blocks -/

theorem RowYields.close {tokens : List Token} {indents : List Int} {column : Nat} {text : List Char}
    {ts : List Token} {i : Int} (hi : column < i)
    (h : RowYields (.blockEnd :: tokens) indents column text ts) :
    RowYields tokens (i :: indents) column text ts := by
  intro s hs fuel hfuel
  -- All blocks that end here are closed at once. Closing the innermost first comes to the same.
  have hclosed := h { s with tokens := .blockEnd :: s.tokens, count := s.count + 1, indents }
    ⟨hs.rest, hs.column, hs.level, hs.keys, hs.keyAllowed, rfl, by rw [hs.tokens]⟩ fuel hfuel
  have hsame : ∀ c : Int, c < i → s.closeBlocks c =
      ({ s with tokens := .blockEnd :: s.tokens, count := s.count + 1, indents } :
        Scan).closeBlocks c := fun c hc => closeBlocks_cons hc hs.indents hs.level
  have hcolumn : Int.ofNat s.cursor.column < i := by
    rw [hs.column]
    exact hi
  have hend : s.endBlocks =
      ({ s with tokens := .blockEnd :: s.tokens, count := s.count + 1, indents } :
        Scan).endBlocks := by
    rw [endBlocks, endBlocks, hsame (-1) (by omega)]
  rw [hsame _ hcolumn, hend]
  exact hclosed

theorem LinesYield.close {n : Nat} {tokens : List Token} {indents : List Int} {text : List Char}
    {ts : List Token} {i : Int} (hi : n < i)
    (h : LinesYield n (.blockEnd :: tokens) indents text ts) :
    LinesYield n tokens (i :: indents) text ts := by
  obtain ⟨j, t, htext, hj, ht, hrow⟩ := h
  exact ⟨j, t, htext, hj, ht, hrow.close (by omega)⟩

theorem LinesYield.mono {m n : Nat} (hmn : m ≤ n) {tokens : List Token} {indents : List Int}
    {text : List Char} {ts : List Token} (h : LinesYield m tokens indents text ts) :
    LinesYield n tokens indents text ts := by
  obtain ⟨j, t, htext, hj, ht, hrow⟩ := h
  exact ⟨j, t, htext, Nat.le_trans hj hmn, ht, hrow⟩

theorem RowYields.lines {n : Nat} {tokens : List Token} {indents : List Int} {text : List Char}
    {ts : List Token} (htext : Begins text) (h : RowYields tokens indents n text ts) :
    LinesYield n tokens indents (spaces n ++ text) ts :=
  ⟨n, text, rfl, Nat.le_refl n, htext, h⟩

/-- At the end of a text, the outermost block ends. -/
theorem linesYield_nil (tokens : List Token) :
    LinesYield 0 tokens [0] [] (.blockEnd :: tokens).reverse := by
  refine ⟨0, [], rfl, Nat.le_refl 0, begins_nil, ?_⟩
  intro s hs fuel _
  have hclose : s.closeBlocks (-1) =
      ({ s with tokens := .blockEnd :: s.tokens, count := s.count + 1, indents := [] } : Scan) := by
    rw [closeBlocks_cons (by decide) hs.indents hs.level]
    exact closeBlocks_of_le (Int.le_refl _)
  rw [hs.rest]
  simp only [endBlocks, hclose]
  rw [dropKey_nil
    (s := { s with tokens := .blockEnd :: s.tokens, count := s.count + 1, indents := [] }) hs.keys]
  simp [hs.tokens]

/-! ## Ends of lines -/

/-- A row comes next, and no key reaches over the line. -/
theorem Yields.of_row {s : Scan} {tokens : List Token} {indents : List Int} {column : Nat}
    {text : List Char} {ts : List Token} (h : RowYields tokens indents column text ts)
    (htext : Begins text) (hrest : s.cursor.rest = text) (hcolumn : s.cursor.column = column)
    (hlevel : s.level = 0) (hkeys : ∀ k ∈ s.keys, k.line < s.cursor.line ∧ k.required = false)
    (hallowed : s.keyAllowed = true) (hindents : s.indents = indents)
    (htokens : s.tokens = tokens) : Yields s ts := by
  have hgaps : ∀ fuel, s.cursor.rest.length < fuel →
      (skipGaps fuel s).dropStale = some { s with keys := [] } := by
    intro fuel hfuel
    rw [skipGaps_spaces (n := 0) hrest htext (by omega)]
    exact dropStale_earlier hkeys
  refine .of_here hgaps (Nat.le_refl _) (h _ ?_)
  exact ⟨hrest, hcolumn, hlevel, rfl, hallowed, hindents, htokens⟩

/-- The line ends here. -/
theorem Yields.of_lines {s : Scan} {n : Nat} {tokens : List Token} {indents : List Int}
    {text : List Char} {ts : List Token} (h : LinesYield n tokens indents text ts)
    (hrest : s.cursor.rest = '\n' :: text) (hlevel : s.level = 0)
    (hkeys : ∀ k ∈ s.keys, k.line ≤ s.cursor.line ∧ k.required = false)
    (hindents : s.indents = indents) (htokens : s.tokens = tokens) : Yields s ts := by
  obtain ⟨j, t, rfl, -, ht, hrow⟩ := h
  have hline : s.cursor.line < (s.cursor.past ('\n' :: spaces j)).line := by
    rw [Cursor.past_cons, Cursor.line_past _ isBreak_of_mem_spaces, Cursor.line_past_break _ rfl]
    exact Nat.lt_succ_self _
  have hgaps : ∀ fuel, s.cursor.rest.length < fuel → (skipGaps fuel s).dropStale =
      some { s with
        cursor := s.cursor.past ('\n' :: spaces j), keyAllowed := true, keys := [] } := by
    intro fuel hfuel
    rw [hrest, List.length_cons] at hfuel
    rw [skipGaps_line hrest ht hlevel (by omega)]
    exact dropStale_earlier fun k hk => ⟨Nat.lt_of_le_of_lt (hkeys k hk).1 hline, (hkeys k hk).2⟩
  have hnext : (s.cursor.past ('\n' :: spaces j)).rest = t := Cursor.rest_past_of_eq hrest
  refine .of_here hgaps ?_ (hrow _ ?_)
  · simp only [hnext, hrest, List.length_cons, List.length_append]
    omega
  · exact ⟨hnext, Cursor.column_past_line _ rfl _, hlevel, rfl, rfl, hindents, htokens⟩

/-! ## Blocks after an indicator -/

theorem LinesYield.value {m n : Nat} {tokens : List Token} {outer : List Int} {text : List Char}
    {ts : List Token} (h : LinesYield m tokens ((n : Int) :: outer) text ts) :
    ValueYields false tokens n outer ('\n' :: text) ts := by
  intro s hs _
  refine .of_lines h hs.rest hs.level ?_ hs.indents hs.tokens
  rw [hs.keys]
  exact List.forall_mem_nil _

/-- A value on the line of its indicator begins after a space. -/
theorem AtValue.yields_space {s : Scan} {compact : Bool} {tokens : List Token} {n : Nat}
    {outer : List Int} {text : List Char} {ts : List Token}
    (hs : AtValue s compact tokens n outer (' ' :: text)) (htext : Begins text)
    (h : ∀ s', AtValue s' compact tokens n outer text →
      s'.cursor.column = s.cursor.column + 1 → YieldsHere s' ts) : Yields s ts := by
  have hrest : s.cursor.rest = spaces 1 ++ text := hs.rest
  have hnext : (s.cursor.past (spaces 1)).rest = text := Cursor.rest_past_of_eq hrest
  have hcolumn : (s.cursor.past (spaces 1)).column = s.cursor.column + 1 := by
    rw [Cursor.column_past _ isBreak_of_mem_spaces, length_spaces]
  have hright := hs.right
  have hgaps : ∀ fuel, s.cursor.rest.length < fuel → (skipGaps fuel s).dropStale =
      some { s with cursor := s.cursor.past (spaces 1) } := by
    intro fuel hfuel
    rw [skipGaps_spaces hrest htext (by omega)]
    exact dropStale_nil hs.keys
  refine .of_here hgaps ?_ (h { s with cursor := s.cursor.past (spaces 1) } ?_ hcolumn)
  · simp only [hnext, hrest, List.length_append]
    omega
  · exact ⟨hnext, by simp only [hcolumn]; omega, hs.level, hs.keys, hs.keyAllowed, hs.indents,
      hs.tokens⟩

theorem ValueYields.of_here {compact : Bool} {tokens : List Token} {n : Nat} {outer : List Int}
    {text : List Char} {ts : List Token} (htext : Begins text)
    (h : ∀ s, AtValue s compact tokens n outer text → YieldsHere s ts) :
    ValueYields compact tokens n outer (' ' :: text) ts :=
  fun _ hs _ => hs.yields_space htext fun s' hs' _ => h s' hs'

/-- In a compact place, a row begins after a space. -/
theorem RowYields.value {n : Nat} {tokens : List Token} {outer : List Int} {text : List Char}
    {ts : List Token} (htext : Begins text)
    (h : RowYields tokens ((n : Int) :: outer) (n + 2) text ts) :
    ValueYields true tokens n outer (' ' :: text) ts :=
  fun _ hs hcolumn => hs.yields_space htext fun s' hs' hnext =>
    h s' ⟨hs'.rest, hnext.trans (congrArg (· + 1) (hcolumn rfl)), hs'.level, hs'.keys,
      hs'.keyAllowed, hs'.indents, hs'.tokens⟩

/-! ## Indicators -/

/-- A row at a column opens a block by a token, unless it is a row of the innermost block. -/
inductive Opens (column : Nat) (t : Token) (tokens : List Token) (indents : List Int) :
    List Token → List Int → Prop
  | already {outer : List Int} (h : indents = (column : Int) :: outer) :
      Opens column t tokens indents tokens indents
  | opens (h : indents.headD (-1) < (column : Int)) :
      Opens column t tokens indents (t :: tokens) ((column : Int) :: indents)

variable {column : Nat} {opening : Token} {tokens tokens' : List Token}
  {indents indents' : List Int}

theorem Opens.le (h : Opens column opening tokens indents tokens' indents') :
    indents.headD (-1) ≤ (column : Int) := by
  cases h with
  | already h => simp [h]
  | opens h => exact Int.le_of_lt h

theorem AtRow.closeBlocks {s : Scan} {text : List Char} (hs : AtRow s tokens indents column text)
    (h : indents.headD (-1) ≤ (column : Int)) :
    s.closeBlocks (Int.ofNat s.cursor.column) = s := by
  refine closeBlocks_of_le ?_
  rw [indent, hs.indents, hs.column]
  exact h

theorem insertIdx_length (front : List Token) (t : Token) (tokens : List Token) :
    (front ++ tokens).insertIdx front.length t = front ++ t :: tokens := by
  induction front with
  | nil => rfl
  | cons u front ih =>
    rw [List.cons_append, List.length_cons, List.insertIdx_succ_cons, ih, List.cons_append]

/-- The block of a row is open once its indicator is read, or its key is known. -/
theorem Opens.openBlock (h : Opens column opening tokens indents tokens' indents') {s : Scan}
    (hlevel : s.level = 0) (hindents : s.indents = indents) (front : List Token)
    (htokens : s.tokens = front ++ tokens) (number : Nat)
    (hcount : s.count = number + front.length) :
    ∃ count, s.openBlock column number opening =
      { s with tokens := front ++ tokens', indents := indents', count } := by
  have hflow : s.inFlow = false := by simp [inFlow, hlevel]
  cases h with
  | already h =>
    refine ⟨s.count, ?_⟩
    have hle : Int.ofNat column ≤ s.indent := by
      rw [indent, hindents, h]
      exact Int.le_refl _
    rw [Scan.openBlock, hflow, Bool.false_or, if_pos (decide_eq_true hle), ← htokens, ← hindents]
  | opens h =>
    refine ⟨s.count + 1, ?_⟩
    have hlt : ¬ Int.ofNat column ≤ s.indent := by
      rw [indent, hindents]
      exact Int.not_le.2 h
    rw [Scan.openBlock, hflow, Bool.false_or, if_neg (by simpa using hlt), insert, hcount,
      Nat.add_sub_cancel_left, htokens, insertIdx_length, hindents]
    rfl

/-- An indicator at the front of a row, with the token that opens its block and its own token. -/
inductive Indicator : Char → Token → Token → Prop
  | item : Indicator '-' .blockSequence .blockEntry
  | key : Indicator '?' .blockMapping .key
  | value : Indicator ':' .blockMapping .value

theorem Indicator.atMarker {x : Char} {mark : Token} (hx : Indicator x opening mark)
    {c : Cursor} {text : List Char} (hrest : c.rest = x :: text) (hgap : atGap text = true) :
    c.atMarker = false := by
  rw [Cursor.atMarker, hrest, Bool.and_eq_false_iff]
  right
  cases hx with
  | item =>
    split
    · rename_i heq
      obtain ⟨-, rfl⟩ := List.cons.inj heq
      cases hgap
    · rename_i heq
      cases (List.cons.inj heq).1
    · rfl
  | key => rfl
  | value => rfl

theorem Indicator.next {x : Char} {mark : Token} (hx : Indicator x opening mark) {s : Scan}
    {text : List Char} (hs : AtRow s tokens indents column (x :: text)) (hgap : atGap text = true)
    (hopens : Opens column opening tokens indents tokens' indents') :
    ∃ count, ∀ fuel, Scan.next fuel s x text = some { s with
      cursor := s.cursor.skip 1, tokens := mark :: tokens', indents := indents', count } := by
  have hflow : s.inFlow = false := by simp [inFlow, hs.level]
  have hmarker := hx.atMarker hs.rest hgap
  obtain ⟨count, hopen⟩ := hopens.openBlock hs.level hs.indents [] hs.tokens s.count rfl
  rw [← hs.column, List.nil_append] at hopen
  have hkey : ({ s with tokens := tokens', indents := indents', count } : Scan).dropKey =
      some { s with tokens := tokens', indents := indents', count } := dropKey_nil hs.keys
  refine ⟨count + 1, fun fuel => ?_⟩
  cases hx with
  | item =>
    have hnext : Scan.next fuel s '-' text = s.blockEntry := by simp [Scan.next, hmarker, hgap]
    rw [hnext, blockEntry, hflow, hs.keyAllowed, hopen, hkey]
    simp [emit, push, hs.keyAllowed]
  | key =>
    have hnext : Scan.next fuel s '?' text = s.explicitKey := by
      simp [Scan.next, hmarker, hgap]
    rw [hnext, explicitKey, hflow, hs.keyAllowed, hopen, hkey]
    simp [emit, push, inFlow, hs.level, hs.keyAllowed]
  | value =>
    have hnext : Scan.next fuel s ':' text = s.value := by simp [Scan.next, hmarker, hgap]
    rw [hnext, Scan.value, key?_nil hs.keys, hflow, hs.keyAllowed, hopen]
    simp [emit, push, inFlow, hs.level, hs.keyAllowed]

/-- After the indicator of a row, a value comes in a compact place. -/
theorem RowYields.indicator {x : Char} {mark : Token} (hx : Indicator x opening mark)
    {outer : List Int} {text : List Char} {ts : List Token}
    (hopens : Opens column opening tokens indents tokens' ((column : Int) :: outer))
    (hgap : atGap text = true) (h : ValueYields true (mark :: tokens') column outer text ts) :
    RowYields tokens indents column (x :: text) ts := by
  intro s hs
  have hrest : (s.cursor.skip 1).rest = text := by simp [Cursor.skip, hs.rest]
  have hcolumn : (s.cursor.skip 1).column = column + 1 := by simp [Cursor.skip, hs.column]
  obtain ⟨count, hnext⟩ := hx.next hs hgap hopens
  refine .of_next hs.rest (hs.closeBlocks hopens.le) (fun fuel _ => hnext fuel) ?_ (h _ ?_ ?_)
  · exact Nat.le_of_eq (congrArg List.length hrest)
  · exact ⟨hrest, hcolumn.symm ▸ Nat.lt_succ_self _, hs.level, hs.keys, hs.keyAllowed, rfl, rfl⟩
  · exact fun _ => hcolumn

end Scan

end HelpMiner.Document.Yaml
