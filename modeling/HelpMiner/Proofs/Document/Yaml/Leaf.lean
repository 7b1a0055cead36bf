import HelpMiner.Proofs.Document.Yaml.Form
import HelpMiner.Proofs.Document.Yaml.Rows

/-! Scalars among the tokens: as keys at the front of a row, and as values after an indicator. -/
namespace HelpMiner.Document.Yaml

/-! ## Tokens of scalars -/

/-- What can follow a scalar, if further lines of plain ones stand right of a margin. Given are also
    what is moved past with the scalar, and whether a line ends in that. -/
inductive Form.Ends (margin : Nat) (tail : List Char) : Form → List Char → Bool → Prop
  | plain {moved : List Char} {newLine : Bool} (h : PlainEnd margin tail moved newLine) :
      Ends margin tail plain moved newLine
  | single (h : tail.head? ≠ some '\'') : Ends margin tail single [] false
  | double : Ends margin tail double [] false

namespace Scan

/-- Only these indicators can be the first character of a plain scalar. -/
theorem mem_indicators : ∀ c ∈ indicators,
    (c == '-' || c == '?' || c == ':') = true ∨ leadIndicators.contains c = true := by decide

/-- What begins neither like an indicator nor with a blank is a plain scalar. -/
theorem next_plain {s : Scan} {x : Char} {rest : List Char} (hlevel : s.level = 0)
    (hmarker : s.cursor.atMarker = false) (hlead : leadIndicators.contains x = false)
    (hblank : isBlank x = false)
    (hgap : (x == '-' || x == '?' || x == ':') = true → atGap rest = false) (fuel : Nat) :
    next fuel s x rest = plainScalar fuel s := by
  have hflow : s.inFlow = false := by simp [inFlow, hlevel]
  have hne : ∀ c, leadIndicators.contains c = true → (x == c) = false := by
    intro c hc
    rw [beq_eq_false_iff_ne]
    rintro rfl
    exact Bool.false_ne_true (hlead.symm.trans hc)
  unfold next
  simp only [hne '%' rfl, hne '[' rfl, hne '\x7b' rfl, hne ']' rfl, hne '\x7d' rfl, hne ',' rfl,
    hne '*' rfl, hne '&' rfl, hne '!' rfl, hne '|' rfl, hne '>' rfl, hne '\'' rfl, hne '"' rfl,
    hmarker, hflow, Bool.and_false, Bool.false_and, Bool.false_or, Bool.false_eq_true, if_false]
  by_cases hmark : (x == '-' || x == '?' || x == ':') = true
  · have hrest := hgap hmark
    have hnext : rest.head?.any isBlank = false := by
      cases rest with
      | nil => rfl
      | cons y rest =>
        simp only [atGap, Bool.or_eq_false_iff] at hrest
        exact hrest.1
    simp only [Bool.or_assoc] at hmark
    simp only [hrest, hnext, hmark, Bool.and_false, Bool.not_false, Bool.and_true, Bool.true_and,
      Bool.or_assoc, Bool.or_true, Bool.false_eq_true, if_false, if_true]
  · have hother : indicators.contains x = false := by
      by_contra h
      rw [Bool.not_eq_false] at h
      rcases mem_indicators x (List.elem_iff.1 h) with h | h
      · exact hmark h
      · exact Bool.false_ne_true (hlead.symm.trans h)
    rw [Bool.not_eq_true] at hmark
    simp only [Bool.or_eq_false_iff] at hmark
    simp only [hmark, hblank, hother, Bool.false_and, Bool.false_or, Bool.not_false, Bool.true_or,
      Bool.false_eq_true, if_false, if_true]

theorem next_single {s : Scan} (hlevel : s.level = 0) (hmarker : s.cursor.atMarker = false)
    (fuel : Nat) (rest : List Char) : next fuel s '\'' rest = quotes fuel s true := by
  simp [next, hmarker, inFlow, hlevel]

theorem next_double {s : Scan} (hlevel : s.level = 0) (hmarker : s.cursor.atMarker = false)
    (fuel : Nat) (rest : List Char) : next fuel s '"' rest = quotes fuel s false := by
  simp [next, hmarker, inFlow, hlevel]

theorem next_block {s : Scan} (hlevel : s.level = 0) (hmarker : s.cursor.atMarker = false)
    (fuel : Nat) (rest : List Char) : next fuel s '|' rest = s.block true := by
  simp [next, hmarker, inFlow, hlevel]

theorem next_plainAllowed {t : List Char} (hne : t ≠ []) (h : plainAllowed t = true) {s : Scan}
    (hlevel : s.level = 0) (hmarker : s.cursor.atMarker = false) {tail : List Char} {x : Char}
    {rest : List Char} (hx : t ++ tail = x :: rest) (fuel : Nat) :
    next fuel s x rest = plainScalar fuel s := by
  obtain ⟨-, hhead, -, -⟩ := stretches_of_plainAllowed h
  simp only [plainAllowed, Bool.and_eq_true, Bool.not_eq_true'] at h
  obtain ⟨y, t, rfl⟩ := List.exists_cons_of_ne_nil hne
  obtain ⟨rfl, rfl⟩ := List.cons.inj hx
  have hlead := h.1.2
  simp only [badLead, Bool.or_eq_false_iff] at hlead
  refine next_plain hlevel hmarker hlead.1.1.1 (by simpa using hhead) (fun hmark => ?_) fuel
  have hgap : atGap t = false := by simpa [hmark] using hlead.1.1.2
  cases t with
  | nil => cases hgap
  | cons z t => exact hgap

/-- After its opening quote, a scalar is read as the text that is read there. -/
theorem quotes_eq {single : Bool} {q : Char} (hq : isBreak q = false) {s : Scan}
    {keys : List KeyPlace} (hmark : s.markKey = some { s with keys }) {inner tail t : List Char}
    (hrest : s.cursor.rest = q :: (inner ++ tail)) {fuel : Nat}
    (hfuel : s.cursor.rest.length < fuel)
    (hquoted : ∀ c : Cursor, c.rest = inner ++ tail → c.column ≠ 0 → c.rest.length < fuel →
      quoted single fuel c = some (t, c.past inner)) :
    quotes fuel s single = some { s with
      cursor := s.cursor.past (q :: inner)
      tokens := .scalar .other (String.ofList t) :: s.tokens
      count := s.count + 1
      keys
      keyAllowed := false } := by
  have hnext : (s.cursor.past [q]).rest = inner ++ tail := Cursor.rest_past_of_eq hrest
  have hcolumn : (s.cursor.past [q]).column ≠ 0 :=
    Cursor.column_past_ne_zero _ (by simpa using hq) (List.cons_ne_nil _ _)
  have hlength : s.cursor.rest.length = 1 + (s.cursor.past [q]).rest.length :=
    @Cursor.length_rest_past _ [q] _ hrest
  rw [quotes, hmark]
  simp only [bind, Option.bind, Cursor.skip_one_eq_past _ hq,
    hquoted _ hnext hcolumn (by omega), ← Cursor.past_cons]
  rfl

/-- A scalar that is not a block is read up to its end. -/
theorem next_scalar {form : Form} {t : List Char} (hfits : form.Fits t) {s : Scan}
    {keys : List KeyPlace} (hmark : s.markKey = some { s with keys }) (hlevel : s.level = 0)
    {m : Nat} (hm : 0 < m) {tail moved : List Char} {newLine : Bool}
    (hend : form.Ends (s.indent + 1).toNat tail moved newLine)
    (hcolumn : (s.indent + 1).toNat ≤ s.cursor.column + 2) (hmarker : s.cursor.atMarker = false)
    (hrest : s.cursor.rest = form.write m t ++ tail) {x : Char} {rest : List Char}
    (hx : s.cursor.rest = x :: rest) {fuel : Nat} (hfuel : rest.length + 1 < fuel) :
    next fuel s x rest = some { s with
      cursor := s.cursor.past (form.write m t ++ moved)
      tokens := .scalar form.style (String.ofList t) :: s.tokens
      count := s.count + 1
      keys
      keyAllowed := newLine } := by
  have hfuel' : s.cursor.rest.length < fuel := by
    rw [hx, List.length_cons]
    exact hfuel
  have hfront := hrest.symm.trans hx
  -- Only a plain scalar looks past its end, up to `moved`; quotes end where they close.
  cases hend with
  | plain hend =>
    cases hfits with
    | plain hne h =>
    have hflow : s.inFlow = false := by simp [inFlow, hlevel]
    obtain ⟨hstretches, hhead, hlast, hcomment⟩ := stretches_of_plainAllowed h
    have hplain := plain_append hend hne hstretches hhead hlast hcomment [] hrest hmarker hcolumn
      hfuel'
    have hsame : ({ s with keys } : Scan).inFlow = false ∧
        ({ s with keys } : Scan).indent = s.indent := ⟨hflow, rfl⟩
    rw [next_plainAllowed hne h hlevel hmarker hfront, plainScalar, hmark]
    simp only [bind, Option.bind, hsame, hplain]
    rfl
  | single htail =>
    cases hfits with
    | single h =>
    obtain ⟨rfl, -⟩ := List.cons.inj hfront
    rw [next_single hlevel hmarker, List.append_nil]
    exact quotes_eq rfl hmark hrest hfuel' fun c hc hnonzero hshort =>
      quoted_single hm h htail hc hnonzero hshort
  | double =>
    obtain ⟨rfl, -⟩ := List.cons.inj hfront
    rw [next_double hlevel hmarker, List.append_nil]
    exact quotes_eq rfl hmark hrest hfuel' fun c hc hnonzero hshort =>
      quoted_double hc hnonzero hshort

/-! ## Scalars as values -/

/-- The key that can begin here. -/
def place (s : Scan) : KeyPlace :=
  ⟨s.level, s.count, s.cursor.index, s.cursor.line, s.cursor.column,
    !s.inFlow && s.indent == Int.ofNat s.cursor.column⟩

theorem markKey_allowed {s : Scan} (hallowed : s.keyAllowed = true) (hkeys : s.keys = []) :
    s.markKey = some { s with keys := [s.place] } := by
  simp only [markKey, if_pos hallowed, dropKey_nil hkeys, bind, Option.bind, hkeys]
  rfl

/-- A key is required only at the column of its block. -/
theorem markKey_right {s : Scan} (hkeys : s.keys = []) (hright : s.indent < s.cursor.column) :
    ∃ keys, s.markKey = some { s with keys } ∧
      ∀ k ∈ keys, k.level = s.level ∧ k.line = s.cursor.line ∧ k.index = s.cursor.index ∧
        k.required = false := by
  by_cases hallowed : s.keyAllowed = true
  · refine ⟨[s.place], markKey_allowed hallowed hkeys, ?_⟩
    have hrequired : (!s.inFlow && s.indent == Int.ofNat s.cursor.column) = false := by
      rw [Bool.and_eq_false_iff, beq_eq_false_iff_ne]
      exact Or.inr (Int.ne_of_lt hright)
    exact List.forall_mem_singleton.2 ⟨rfl, rfl, rfl, hrequired⟩
  · refine ⟨s.keys, ?_, by simp [hkeys]⟩
    rw [markKey, if_neg hallowed]

/-- What the end of a line is for a scalar in the block at `n`, and how it goes on from there. -/
theorem LinesYield.ends {n : Nat} {tokens : List Token} {indents : List Int} {text : List Char}
    {ts : List Token} (h : LinesYield n tokens indents text ts) {form : Form}
    (hform : form ≠ .block) :
    ∃ moved newLine, form.Ends (n + 1) ('\n' :: text) moved newLine ∧
      ∀ (s : Scan) (c : Cursor), c.rest = '\n' :: text → s.cursor = c.past moved →
        s.level = 0 → (∀ k ∈ s.keys, k.line ≤ c.line ∧ k.required = false) →
        s.keyAllowed = newLine → s.indents = indents → s.tokens = tokens → Yields s ts := by
  have hquotes : ∀ (s : Scan) (c : Cursor), c.rest = '\n' :: text → s.cursor = c.past [] →
      s.level = 0 → (∀ k ∈ s.keys, k.line ≤ c.line ∧ k.required = false) →
      s.indents = indents → s.tokens = tokens → Yields s ts := by
    intro s c hc hcursor hlevel hkeys
    rw [Cursor.past_nil] at hcursor
    rw [← hcursor] at hc hkeys
    exact .of_lines h hc hlevel hkeys
  cases form with
  | plain =>
    -- A plain scalar has moved to the next line already, so the row there begins at once.
    obtain ⟨j, t, rfl, hj, ht, hrow⟩ := h
    refine ⟨_, _, .plain (.line (Nat.lt_succ_of_le hj) ht.atInk), ?_⟩
    intro s c hc hcursor hlevel hkeys hallowed
    have hrest : s.cursor.rest = t := by
      rw [hcursor]
      exact Cursor.rest_past_of_eq hc
    have hline : c.line < s.cursor.line := by
      rw [hcursor, Cursor.past_cons, Cursor.line_past _ isBreak_of_mem_spaces,
        Cursor.line_past_break _ rfl]
      exact Nat.lt_succ_self _
    refine .of_row hrow ht hrest ?_ hlevel ?_ hallowed
    · rw [hcursor, Cursor.column_past_line _ rfl]
    · exact fun k hk => ⟨Nat.lt_of_le_of_lt (hkeys k hk).1 hline, (hkeys k hk).2⟩
  | single =>
    exact ⟨[], false, (.single (by simp)), fun s c hc hcursor hlevel hkeys _ =>
      hquotes s c hc hcursor hlevel hkeys⟩
  | double =>
    exact ⟨[], false, .double, fun s c hc hcursor hlevel hkeys _ =>
      hquotes s c hc hcursor hlevel hkeys⟩
  | block => contradiction

theorem exists_blockRest (n : Nat) {t : List Char} (hne : t ≠ []) :
    ∃ front b, blockRest n t = front ++ [b] ∧ isBreak b = true := by
  obtain ⟨front, b, hfront⟩ : ∃ front b, blockText n true t = front ++ [b] :=
    ⟨_, _, (List.dropLast_concat_getLast (blockText_ne_nil hne)).symm⟩
  have hlast := getLast?_blockText n true t
  rw [hfront, List.getLast?_concat] at hlast
  rw [blockRest, lineEnd, ← hlast, Option.any_some]
  cases hb : isBreak b with
  | true => exact ⟨indentSign t ++ chompSign t ++ '\n' :: front, b, by simp [hfront], hb⟩
  | false =>
    exact ⟨indentSign t ++ chompSign t ++ '\n' :: blockText n true t, '\n', by simp, rfl⟩

variable {compact : Bool} {tokens : List Token} {n : Nat} {outer : List Int}
  {text t : List Char} {ts : List Token}

/-- A scalar that is not a block, at the front of a value. -/
theorem AtValue.yields_scalar {form : Form} (hform : form ≠ .block) (hfits : form.Fits t)
    (h : LinesYield n (.scalar form.style (String.ofList t) :: tokens) ((n : Int) :: outer) text
      ts) {s : Scan}
    (hs : AtValue s compact tokens n outer (form.write (n + 2) t ++ '\n' :: text)) :
    YieldsHere s ts := by
  obtain ⟨moved, newLine, hend, hyields⟩ := h.ends hform
  obtain ⟨keys, hmark, hkeys⟩ := markKey_right hs.keys hs.indent_lt
  obtain ⟨x, rest, hx⟩ := Form.exists_cons_of_write hfits hs.rest
  have hmargin : (s.indent + 1).toNat = n + 1 := by
    rw [hs.indent_eq]
    rfl
  have hcolumn : (s.indent + 1).toNat ≤ s.cursor.column + 2 := by
    have hright := hs.right
    omega
  have hlength := Cursor.length_rest_past_le hx
    (List.append_ne_nil_of_left_ne_nil (Form.write_ne_nil (n := n + 2) hfits) moved)
  have hline := Cursor.line_le_past s.cursor (form.write (n + 2) t)
  refine .of_next hx (closeBlocks_of_le (Int.le_of_lt hs.indent_lt)) (fun fuel hfuel =>
    next_scalar hfits hmark hs.level (Nat.succ_pos (n + 1)) (hmargin ▸ hend) hcolumn hs.atMarker
      hs.rest hx hfuel) hlength ?_
  refine hyields _ (s.cursor.past (form.write (n + 2) t)) (Cursor.rest_past_of_eq hs.rest)
    (Cursor.past_append _ _ _) hs.level ?_ rfl hs.indents (by simp only [hs.tokens])
  intro k hk
  exact ⟨(hkeys k hk).2.1 ▸ hline, (hkeys k hk).2.2.2⟩

/-- A block at the front of a value. -/
theorem AtValue.yields_block (hne : t ≠ []) (hprint : ∀ x ∈ t, isPrintable x = true)
    (h : LinesYield n (.scalar .literal (String.ofList t) :: tokens) ((n : Int) :: outer) text ts)
    {s : Scan} (hs : AtValue s compact tokens n outer ('|' :: (blockRest (n + 2) t ++ text))) :
    YieldsHere s ts := by
  obtain ⟨j, u, rfl, hj, hu, hrow⟩ := h
  have hnext : (s.cursor.past ['|']).rest = blockRest (n + 2) t ++ (spaces j ++ u) :=
    Cursor.rest_past_of_eq hs.rest
  have hblock := blockScalar_blockRest hj hu.atInk hne hprint hnext
  have hscan : ∀ fuel, next fuel s '|' (blockRest (n + 2) t ++ (spaces j ++ u)) = some { s with
      cursor := s.cursor.past ('|' :: (blockRest (n + 2) t ++ spaces j))
      tokens := .scalar .literal (String.ofList t) :: s.tokens
      count := s.count + 1
      keyAllowed := true } := by
    intro fuel
    rw [next_block hs.level hs.atMarker, block, dropKey_nil hs.keys]
    simp only [bind, Option.bind, Cursor.skip_one_eq_past _ (show isBreak '|' = false from rfl),
      hs.indent_eq, hblock, ← Cursor.past_cons]
    rfl
  obtain ⟨front, b, hfront, hb⟩ := exists_blockRest (n + 2) hne
  have hcolumn : (s.cursor.past ('|' :: (blockRest (n + 2) t ++ spaces j))).column = j := by
    rw [hfront, List.append_assoc, ← List.cons_append, Cursor.past_append]
    exact Cursor.column_past_line _ hb j
  have hrest : (s.cursor.past ('|' :: (blockRest (n + 2) t ++ spaces j))).rest = u := by
    refine Cursor.rest_past_of_eq ?_
    rw [hs.rest, List.cons_append, List.append_assoc]
  refine .of_next hs.rest (closeBlocks_of_le (Int.le_of_lt hs.indent_lt)) (fun fuel _ => hscan fuel)
    (Cursor.length_rest_past_le hs.rest (List.cons_ne_nil _ _)) ?_
  refine .of_row hrow hu hrest hcolumn hs.level ?_ rfl hs.indents (by simp only [hs.tokens])
  simp [hs.keys]

/-- A scalar on the line of its indicator is a value. -/
theorem ValueYields.scalar {form : Form} (hfits : form.Fits t)
    (h : LinesYield n (.scalar form.style (String.ofList t) :: tokens) ((n : Int) :: outer) text
      ts) :
    ValueYields compact tokens n outer (' ' :: (form.line (n + 2) t ++ text)) ts := by
  have hbegins : Begins (form.line (n + 2) t ++ text) := by
    rw [← Form.ended_write hfits, ended_eq_append_lineEnd, List.append_assoc]
    exact Form.begins_write hfits _
  refine .of_here hbegins fun s hs => ?_
  by_cases hform : form = .block
  · subst hform
    cases hfits with
    | block hne hprint => exact AtValue.yields_block hne hprint h hs
  · rw [Form.line_of_ne_block hform, List.append_assoc] at hs
    exact AtValue.yields_scalar hform hfits h hs

/-! ## Empty lists and maps -/

/-- Brackets with their tokens. -/
inductive Brackets : Char → Char → Token → Token → Prop
  | list : Brackets '[' ']' .flowSequence .flowSequenceEnd
  | map : Brackets '\x7b' '\x7d' .flowMapping .flowMappingEnd

theorem Brackets.next_open {a b : Char} {opening closing : Token}
    (hb : Brackets a b opening closing) {s : Scan} (hmarker : s.cursor.atMarker = false)
    (fuel : Nat) (rest : List Char) : next fuel s a rest = s.openFlow opening := by
  cases hb <;> simp [next, hmarker]

theorem Brackets.next_close {a b : Char} {opening closing : Token}
    (hb : Brackets a b opening closing) {s : Scan} (hmarker : s.cursor.atMarker = false)
    (fuel : Nat) (rest : List Char) : next fuel s b rest = s.closeFlow closing := by
  cases hb <;> simp [next, hmarker]

theorem Brackets.begins {a b : Char} {opening closing : Token} (hb : Brackets a b opening closing)
    (t : List Char) : Begins (a :: t) ∧ Begins (b :: t) := by
  cases hb <;>
    constructor <;>
    exact begins_cons rfl rfl (by decide) (by decide) t

/-- Brackets with nothing between them are a value. -/
theorem ValueYields.brackets {a b : Char} {opening closing : Token}
    (hb : Brackets a b opening closing)
    (h : LinesYield n (closing :: opening :: tokens) ((n : Int) :: outer) text ts) :
    ValueYields compact tokens n outer (' ' :: a :: b :: '\n' :: text) ts := by
  refine .of_here (hb.begins _).1 fun s hs => ?_
  obtain ⟨keys, hmark, hkeys⟩ := markKey_right hs.keys hs.indent_lt
  -- The scan passes through one place: behind the opening bracket, where the closing one comes next.
  let inside : Scan := { s with
    cursor := s.cursor.skip 1, tokens := opening :: s.tokens, count := s.count + 1
    level := s.level + 1, keys, keyAllowed := true }
  have hopen : ∀ fuel, next fuel s a (b :: '\n' :: text) = some inside := by
    intro fuel
    rw [hb.next_open hs.atMarker, openFlow, hmark]
    rfl
  have hinside : inside.cursor.rest = b :: '\n' :: text := by simp [inside, Cursor.skip, hs.rest]
  have hgaps : ∀ fuel, inside.cursor.rest.length < fuel →
      (skipGaps fuel inside).dropStale = some inside := by
    intro fuel hfuel
    rw [skipGaps_spaces (n := 0) hinside (hb.begins _).2 (by omega)]
    refine dropStale_near fun k hk => ?_
    obtain ⟨-, hline, hindex, -⟩ := hkeys k hk
    exact ⟨hline, by simp [inside, Cursor.skip, hindex, spaces]⟩
  have hcloses : ∀ column, inside.closeBlocks column = inside := fun column => by
    simp [closeBlocks, inFlow, inside]
  have hmarker : inside.cursor.atMarker = false :=
    Cursor.atMarker_eq_false (Nat.succ_ne_zero _)
  have hkey : inside.dropKey = some inside := by
    rw [dropKey, key?_outer fun k hk => ?_]
    rw [(hkeys k hk).1]
    exact Nat.ne_of_lt (Nat.lt_succ_self _)
  have hclose : ∀ fuel, next fuel inside b ('\n' :: text) = some { s with
      cursor := inside.cursor.skip 1, tokens := closing :: opening :: s.tokens
      count := s.count + 1 + 1, keys, keyAllowed := false } := by
    intro fuel
    rw [hb.next_close hmarker, closeFlow, hkey]
    rfl
  -- The key that could begin at the opening bracket is still open, and is dropped at the line's end.
  have houtside : (inside.cursor.skip 1).rest = '\n' :: text := by
    simp [Cursor.skip, hinside]
  refine .of_next hs.rest (closeBlocks_of_le (Int.le_of_lt hs.indent_lt)) (fun fuel _ => hopen fuel)
    (Nat.le_of_eq (congrArg List.length hinside)) (.of_here hgaps (Nat.le_refl _) ?_)
  refine .of_next hinside (hcloses _) (fun fuel _ => hclose fuel)
    (Nat.le_of_eq (congrArg List.length houtside)) ?_
  refine .of_lines h houtside hs.level (fun k hk => ?_) hs.indents (by simp only [hs.tokens])
  exact ⟨Nat.le_of_eq (hkeys k hk).2.1, (hkeys k hk).2.2.2⟩

/-! ## Keys -/

/-- A colon ends a scalar that is not a block. -/
theorem Form.ends_colon {form : Form} (hform : form ≠ .block) (hgap : atGap text = true)
    (margin : Nat) : form.Ends margin (':' :: text) [] false := by
  cases form with
  | plain => exact .plain (.colon hgap)
  | single => exact .single (by simp)
  | double => exact .double
  | block => contradiction

/-- A key has been read on this line, and its colon comes next. -/
structure AtColon (s : Scan) (k : KeyPlace) (t : Token) (tokens : List Token)
    (indents : List Int) (text : List Char) : Prop where
  rest : s.cursor.rest = ':' :: text
  right : k.column < s.cursor.column
  line : k.line = s.cursor.line
  near : s.cursor.index ≤ k.index + 1024
  level : s.level = 0
  keyLevel : k.level = 0
  keys : s.keys = [k]
  indents : s.indents = indents
  tokens : s.tokens = t :: tokens
  count : s.count = k.number + 1

section

variable {s : Scan} {k : KeyPlace} {indents : List Int} {tokens' : List Token} {keyToken : Token}

/-- The colon puts in the tokens before the key. -/
theorem AtColon.value {indents' : List Int} (hs : AtColon s k keyToken tokens indents text)
    (hopens : Opens k.column .blockMapping tokens indents tokens' indents') :
    ∃ count, s.value = some { s with
      cursor := s.cursor.skip 1, tokens := .value :: keyToken :: .key :: tokens', count
      indents := indents', keys := [], keyAllowed := false } := by
  have hkey : s.key? = some k := by simp [key?, hs.keys, hs.keyLevel, hs.level]
  have hinsert : s.insert k.number .key =
      { s with tokens := keyToken :: .key :: tokens, count := s.count + 1 } := by
    rw [insert, hs.count, Nat.add_sub_cancel_left, hs.tokens]
    rfl
  obtain ⟨count, hopen⟩ := hopens.openBlock (s := s.insert k.number .key)
    (by rw [hinsert]; exact hs.level) (by rw [hinsert]; exact hs.indents) [keyToken, .key]
    (by rw [hinsert]; rfl) k.number (by rw [hinsert, hs.count]; rfl)
  refine ⟨count + 1, ?_⟩
  rw [Scan.value, hkey]
  simp only [hopen]
  simp [emit, push, hinsert, hs.keys]

/-- After the colon of a key, a value comes. -/
theorem AtColon.yields (hs : AtColon s k keyToken tokens indents text)
    (hopens : Opens k.column .blockMapping tokens indents tokens' ((k.column : Int) :: outer))
    (hgap : atGap text = true)
    (h : ValueYields false (.value :: keyToken :: .key :: tokens') k.column outer text ts) :
    Yields s ts := by
  have hright := hs.right
  have hgaps : ∀ fuel, s.cursor.rest.length < fuel → (skipGaps fuel s).dropStale = some s := by
    intro fuel hfuel
    rw [skipGaps_spaces (n := 0) hs.rest (begins_cons rfl rfl (by decide) (by decide) _)
      (by omega)]
    refine dropStale_near ?_
    simp only [hs.keys, List.forall_mem_singleton]
    exact ⟨hs.line, hs.near⟩
  have hclose : s.closeBlocks (Int.ofNat s.cursor.column) = s := by
    refine closeBlocks_of_le ?_
    rw [indent, hs.indents]
    exact Int.le_trans hopens.le (Int.ofNat_le.2 (Nat.le_of_lt hright))
  have hmarker : s.cursor.atMarker = false := Cursor.atMarker_eq_false (by omega)
  obtain ⟨count, hvalue⟩ := hs.value hopens
  have hnext : ∀ fuel, next fuel s ':' text = s.value := by
    intro fuel
    simp [next, hmarker, hgap]
  have hafter : (s.cursor.skip 1).rest = text := by simp [Cursor.skip, hs.rest]
  refine .of_here hgaps (Nat.le_refl _) ?_
  refine .of_next hs.rest hclose (fun fuel _ => (hnext fuel).trans hvalue)
    (Nat.le_of_eq (congrArg List.length hafter)) (h _ ?_ (by simp))
  refine ⟨hafter, ?_, hs.level, rfl, rfl, rfl, rfl⟩
  simp only [Cursor.skip]
  omega

/-- A scalar on one line, at the front of a row and short enough to be a key, is one if its colon
    comes next. -/
theorem AtRow.exists_atColon {form : Form} (hform : form ≠ .block) (hfits : form.Fits t)
    (hbreaks : ∀ x ∈ t, isBreak x = false) {column : Nat}
    (hlength : (form.write (column + 2) t).length ≤ 1024) (hgap : atGap text = true)
    (hs : AtRow s tokens indents column (form.write (column + 2) t ++ ':' :: text))
    (hindent : s.indent ≤ column) {x : Char} {rest : List Char} (hx : s.cursor.rest = x :: rest) :
    ∃ s', AtColon s' s.place (.scalar form.style (String.ofList t)) tokens indents text ∧
      s'.cursor.rest.length ≤ rest.length ∧
      ∀ fuel, rest.length + 1 < fuel → next fuel s x rest = some s' := by
  have hwritten := Form.isBreak_of_mem_write (n := column + 2) hform hbreaks
  have hwrite := Form.write_ne_nil (n := column + 2) hfits
  have hpositive : 0 < (form.write (column + 2) t).length := List.length_pos_iff.2 hwrite
  have hcolumn := hs.column
  refine ⟨{ s with
    cursor := s.cursor.past (form.write (column + 2) t)
    tokens := .scalar form.style (String.ofList t) :: s.tokens
    count := s.count + 1
    keys := [s.place]
    keyAllowed := false }, ?_, Cursor.length_rest_past_le hx hwrite, fun fuel hfuel => ?_⟩
  · refine ⟨Cursor.rest_past_of_eq hs.rest, ?_, (Cursor.line_past _ hwritten).symm, ?_, hs.level,
      hs.level, rfl, hs.indents, congrArg _ hs.tokens, rfl⟩
    · simp only [place, Cursor.column_past _ hwritten]
      omega
    · simp only [place, Cursor.index_past]
      omega
  · have hnext := next_scalar hfits (markKey_allowed hs.keyAllowed hs.keys) hs.level
      (Nat.succ_pos (column + 1)) (Form.ends_colon hform hgap _) (by omega)
      (Form.atMarker_eq_false hfits (by simp) (by simp) hs.rest) hs.rest hx hfuel
    rwa [List.append_nil] at hnext

end

/-- A key on the line of its value begins a row, and a value comes after its colon. -/
theorem RowYields.simpleKey {k : String} (hk : isSimpleKey k = true) {column : Nat}
    {indents : List Int} {tokens' : List Token}
    (hopens : Opens column .blockMapping tokens indents tokens' ((column : Int) :: outer))
    (hgap : atGap text = true)
    (h : ValueYields false (.value :: .scalar (Form.of k.toList).style k :: .key :: tokens') column
      outer text ts) :
    RowYields tokens indents column (scalar (column + 2) k.toList ++ ':' :: text) ts := by
  intro s hs
  rw [Form.scalar_eq] at hs
  have hfits := Form.fits_of k.toList
  obtain ⟨x, rest, hx⟩ := Form.exists_cons_of_write hfits hs.rest
  have hindent : s.indent ≤ column := by
    rw [indent, hs.indents]
    exact hopens.le
  obtain ⟨s', hcolon, hlength, hnext⟩ := hs.exists_atColon (form_of_isSimpleKey hk) hfits
    (ink_of_isSimpleKey hk) (length_write_of_isSimpleKey hk (column + 2)) hgap hindent hx
  rw [String.ofList_toList] at hcolon
  refine .of_next hx (hs.closeBlocks hopens.le) hnext hlength ?_
  have hplace : s.place.column = column := hs.column
  rw [← hplace] at hopens h
  exact hcolon.yields hopens hgap h

end Scan

end HelpMiner.Document.Yaml
