import HelpMiner.Document.Yaml.Tokens
import HelpMiner.Proofs.Document.Yaml.Plain

/-! Reading tokens line by line. What is left of a text decides the tokens, given those so far and
the blocks that are open. -/
namespace HelpMiner.Document.Yaml

/-- A text that begins as tokens do: with neither white space nor a comment. -/
def Begins (t : List Char) : Prop :=
  ∀ x more, t = x :: more → isBlank x = false ∧ isBreak x = false ∧ x ≠ '#' ∧ x ≠ '\uFEFF'

theorem Begins.atInk {t : List Char} (h : Begins t) : AtInk t := fun x more ht =>
  ⟨(h x more ht).1, (h x more ht).2.1⟩

theorem Begins.any_head? {t : List Char} (h : Begins t) :
    t.head?.any isBlank = false ∧ t.head?.any isBreak = false ∧ t.head?.any (· == '#') = false ∧
      t.head?.any (· == '\uFEFF') = false := by
  cases t with
  | nil => exact ⟨rfl, rfl, rfl, rfl⟩
  | cons x t => simpa using h x t rfl

theorem begins_nil : Begins [] := nofun

theorem begins_cons {x : Char} (hblank : isBlank x = false) (hbreak : isBreak x = false)
    (hcomment : x ≠ '#') (hmark : x ≠ '\uFEFF') (t : List Char) : Begins (x :: t) := by
  intro y more heq
  obtain ⟨rfl, -⟩ := List.cons.inj heq
  exact ⟨hblank, hbreak, hcomment, hmark⟩

namespace Scan

/-! ## Gaps between tokens -/

theorem skipGaps_spaces {s : Scan} {n : Nat} {t : List Char} (hrest : s.cursor.rest = spaces n ++ t)
    (ht : Begins t) {fuel : Nat} (hfuel : 0 < fuel) :
    skipGaps fuel s = { s with cursor := s.cursor.past (spaces n) } := by
  obtain ⟨fuel, rfl⟩ : ∃ m, fuel = m + 1 := ⟨fuel - 1, by omega⟩
  obtain ⟨hblank, hbreak, hcomment, hmark⟩ := ht.any_head?
  have hnext := Cursor.rest_past_of_eq hrest
  have hmark' : s.cursor.sees (· == '\uFEFF') = false := by
    rw [Cursor.sees_eq hrest]
    cases n with
    | succ n => rfl
    | zero => exact hmark
  have hskip :
      s.cursor.skipWhile (fun x => x == ' ' || ((s.inFlow || !s.keyAllowed) && x == '\t')) =
        s.cursor.past (spaces n) := by
    refine Cursor.skipWhile_eq_past hrest (fun x hx => ?_) ?_ isBreak_of_mem_spaces
    · rw [List.eq_of_mem_replicate hx]
      rfl
    · cases t with
      | nil => rfl
      | cons x t =>
        simp only [List.head?_cons, Option.any_some, isBlank, Bool.or_eq_false_iff] at hblank ⊢
        exact ⟨hblank.1, by rw [hblank.2, Bool.and_false]⟩
  rw [← Cursor.sees_eq hnext] at hbreak hcomment
  rw [skipGaps]
  simp only [hmark', Bool.and_false, Bool.false_eq_true, if_false, hskip, hcomment, hbreak]

theorem skipGaps_line {s : Scan} {n : Nat} {t : List Char}
    (hrest : s.cursor.rest = '\n' :: (spaces n ++ t)) (ht : Begins t) (hlevel : s.level = 0)
    {fuel : Nat} (hfuel : 1 < fuel) :
    skipGaps fuel s =
      { s with cursor := s.cursor.past ('\n' :: spaces n), keyAllowed := true } := by
  obtain ⟨fuel, rfl⟩ : ∃ m, fuel = m + 1 := ⟨fuel - 1, by omega⟩
  have hsees : ∀ p, s.cursor.sees p = p '\n' := Cursor.sees_iff hrest
  have hflow : s.inFlow = false := by simp [inFlow, hlevel]
  have hskip : s.cursor.skipWhile (fun x => x == ' ' || ((false || !s.keyAllowed) && x == '\t')) =
      s.cursor :=
    Cursor.skipWhile_eq_past (s := []) hrest (List.forall_mem_nil _) (by simp)
      (List.forall_mem_nil _)
  have hmark : (s.cursor.column == 0 && s.cursor.sees (· == '\uFEFF')) = false := by
    rw [hsees, Bool.and_eq_false_iff]
    exact Or.inr rfl
  have hcomment : s.cursor.sees (· == '#') = false := hsees _
  have hbreak : s.cursor.sees isBreak = true := hsees _
  have hnext : (s.cursor.past ['\n']).rest = spaces n ++ t := Cursor.rest_past_of_eq hrest
  rw [skipGaps]
  simp only [hmark, Bool.false_eq_true, if_false, hskip, hcomment, hbreak, if_true,
    Cursor.skipLine_eq_past hrest rfl (by decide), hflow, Bool.not_false, Bool.or_true]
  rw [skipGaps_spaces (s := { s with cursor := s.cursor.past ['\n'], keyAllowed := true }) hnext ht
    (by omega), Cursor.past_cons s.cursor '\n' (spaces n)]

/-! ## What a text yields -/

/-- The tokens of a text that is read in part. -/
def Yields (s : Scan) (ts : List Token) : Prop :=
  ∀ fuel, s.cursor.rest.length + 1 < fuel → run fuel s = some ts

/-- The tokens of a text that is read in part, up to a token. -/
def YieldsHere (s : Scan) (ts : List Token) : Prop :=
  ∀ fuel, s.cursor.rest.length < fuel →
    (match s.cursor.rest with
      | [] => s.endBlocks.map fun s => s.tokens.reverse
      | x :: rest =>
        (next fuel (s.closeBlocks (Int.ofNat s.cursor.column)) x rest).bind (run fuel)) = some ts

theorem Yields.of_here {s s' : Scan} {ts : List Token}
    (hgaps : ∀ fuel, s.cursor.rest.length < fuel → (skipGaps fuel s).dropStale = some s')
    (hlength : s'.cursor.rest.length ≤ s.cursor.rest.length) (h : YieldsHere s' ts) :
    Yields s ts := by
  intro fuel hfuel
  obtain ⟨fuel, rfl⟩ : ∃ m, fuel = m + 1 := ⟨fuel - 1, by omega⟩
  have hrest := h fuel (by omega)
  rw [run, hgaps _ (by omega)]
  simp only [bind, Option.bind]
  cases hcursor : s'.cursor.rest with
  | nil =>
    rw [hcursor] at hrest
    rw [← hrest]
    cases s'.endBlocks <;> rfl
  | cons x rest =>
    rw [hcursor] at hrest
    exact hrest

/-- The next token is read, where it ends no block. -/
theorem YieldsHere.of_next {s s' : Scan} {ts : List Token} {x : Char} {rest : List Char}
    (hrest : s.cursor.rest = x :: rest)
    (hclose : s.closeBlocks (Int.ofNat s.cursor.column) = s)
    (hnext : ∀ fuel, rest.length + 1 < fuel → next fuel s x rest = some s')
    (hlength : s'.cursor.rest.length ≤ rest.length) (h : Yields s' ts) : YieldsHere s ts := by
  intro fuel hfuel
  rw [hclose, hrest] at *
  rw [List.length_cons] at hfuel
  simp only [hnext fuel hfuel, Option.bind_some]
  exact h fuel (by omega)

/-! ## Keys and blocks -/

theorem dropStale_nil {s : Scan} (h : s.keys = []) : s.dropStale = some s := by
  obtain ⟨cursor, tokens, count, indents, level, keys, keyAllowed⟩ := s
  simp only at h
  simp [dropStale, h]

theorem dropStale_earlier {s : Scan}
    (h : ∀ k ∈ s.keys, k.line < s.cursor.line ∧ k.required = false) :
    s.dropStale = some { s with keys := [] } := by
  have hany : (s.keys.any fun k => isStale s.cursor k && k.required) = false := by
    refine List.any_eq_false.2 fun k hk => ?_
    simp [(h k hk).2]
  have hfilter : s.keys.filter (fun k => !isStale s.cursor k) = [] := by
    refine List.filter_eq_nil_iff.2 fun k hk => ?_
    simp [isStale, (h k hk).1]
  simp [dropStale, hany, hfilter]

/-- Keys are kept where they can still be reached. -/
theorem dropStale_near {s : Scan}
    (h : ∀ k ∈ s.keys, k.line = s.cursor.line ∧ s.cursor.index ≤ k.index + 1024) :
    s.dropStale = some s := by
  have hstale : ∀ k ∈ s.keys, isStale s.cursor k = false := by
    intro k hk
    obtain ⟨hline, hindex⟩ := h k hk
    simp [isStale, hline, Nat.not_lt.2 hindex]
  have hany : (s.keys.any fun k => isStale s.cursor k && k.required) = false :=
    List.any_eq_false.2 fun k hk => by simp [hstale k hk]
  have hfilter : s.keys.filter (fun k => !isStale s.cursor k) = s.keys :=
    List.filter_eq_self.2 fun k hk => by simp [hstale k hk]
  simp [dropStale, hany, hfilter]

theorem key?_outer {s : Scan} (h : ∀ k ∈ s.keys, k.level ≠ s.level) : s.key? = none := by
  rw [key?]
  cases hkeys : s.keys with
  | nil => rfl
  | cons k keys =>
    have hk := h k (hkeys ▸ List.mem_cons_self)
    simp [hk]

theorem key?_nil {s : Scan} (h : s.keys = []) : s.key? = none := by simp [key?, h]

theorem dropKey_nil {s : Scan} (h : s.keys = []) : s.dropKey = some s := by
  rw [dropKey, key?_nil h]

/-- No block is closed at a column that the innermost one does not exceed. -/
theorem closeBlocks_of_le {s : Scan} {column : Int} (h : s.indent ≤ column) :
    s.closeBlocks column = s := by
  obtain ⟨cursor, tokens, count, indents, level, keys, keyAllowed⟩ := s
  have hclosed : (indents.takeWhile fun i => column < i) = [] := by
    cases indents with
    | nil => rfl
    | cons i indents =>
      have hi : ¬ column < i := Int.not_lt.2 h
      simp [hi]
  unfold closeBlocks
  split
  · rfl
  · simp [hclosed]

theorem closeBlocks_cons {s : Scan} {column i : Int} {indents : List Int} (hi : column < i)
    (hindents : s.indents = i :: indents) (hlevel : s.level = 0) :
    s.closeBlocks column =
      ({ s with tokens := .blockEnd :: s.tokens, count := s.count + 1, indents } : Scan).closeBlocks
        column := by
  have hflow : s.inFlow = false := by simp [inFlow, hlevel]
  have hflow' : ({ s with tokens := .blockEnd :: s.tokens, count := s.count + 1, indents } :
      Scan).inFlow = false := hflow
  unfold closeBlocks
  rw [hflow, hflow', hindents]
  simp only [List.takeWhile_cons, decide_eq_true hi, if_true, Bool.false_eq_true, if_false,
    List.length_cons, List.drop_succ_cons, List.replicate_succ', List.append_assoc,
    List.singleton_append]
  congr 1
  omega

end Scan

end HelpMiner.Document.Yaml
