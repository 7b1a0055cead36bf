import HelpMiner.Page.Topic

/-! The sections of a page, told from its whole list of tokens: which end tag balances a heading,
what its text is, and where its section ends. -/
namespace HelpMiner.Page

open Markup (Token)

/-- The tokens before the first end of the body. -/
def bodyTokens (ts : List Token) : List Token := ts.takeWhile fun t => !t.isEnd "body"

theorem bodyTokens_cons {t : Token} (hb : t.isEnd "body" = false) (ts : List Token) :
    bodyTokens (t :: ts) = t :: bodyTokens ts := List.takeWhile_cons_of_pos (by simp [hb])

theorem bodyTokens_end {t : Token} (hb : t.isEnd "body" = true) (ts : List Token) :
    bodyTokens (t :: ts) = [] := List.takeWhile_cons_of_neg (by simp [hb])

/-- Whether `depth` open spans, and those opened in `ts`, have as many end tags in `ts`. -/
def balances (depth : Nat) (ts : List Token) : Bool :=
  ts.countP (·.isEnd "span") == depth + ts.countP opensSpan

/-- How many tokens stand before the end tag that balances `depth` open spans. -/
def balanced? (depth : Nat) (ts : List Token) : Option Nat :=
  (List.range ts.length).find? fun n => balances depth (ts.take (n + 1))

/-- The text of a token. -/
def tokenText : Token → List Char
  | .text content => content.toList
  | _ => []

/-- The heading in a region: all its text, without blank edges. -/
def headingOf (region : List Token) : String :=
  String.ofList (Text.trim (region.flatMap tokenText))

/-- What a token adds to a section: stripped text with a space after it, or a line feed. -/
def sectionPiece : Token → List Char
  | .text content => Text.trimWhile isEdgeBlank content.toList ++ [' ']
  | .startTag name _ _ => if name == "br" then ['\n'] else []
  | .endTag _ => []

/-- The text of a section that begins at the front of `ts`: it ends before the next heading. -/
def sectionText (ts : List Token) : String :=
  String.ofList ((ts.takeWhile fun t => !isHeading t).flatMap sectionPiece)

/-- The headed sections in a list of tokens. A heading that nothing balances takes all that is left
    as its text, and its section is empty. -/
def outline : List Token → List (String × String)
  | [] => []
  | t :: rest =>
    if isHeading t then
      match balanced? 1 rest with
      | none => [(headingOf rest, "")]
      | some n =>
        let heading := headingOf (rest.take n)
        let after := rest.drop (n + 1)
        (heading, normalizeSection heading (sectionText after)) :: outline after
    else outline rest
termination_by ts => ts.length
decreasing_by all_goals simp only [List.length_drop, List.length_cons]; omega

theorem balances_cons (depth : Nat) (t : Token) (ts : List Token) :
    balances depth (t :: ts) =
      (ts.countP (·.isEnd "span") + (if t.isEnd "span" then 1 else 0) ==
        depth + (ts.countP opensSpan + if opensSpan t then 1 else 0)) := by
  unfold balances
  rw [List.countP_cons, List.countP_cons]

theorem not_opensSpan_of_isEnd {t : Token} {name : String} (h : t.isEnd name = true) :
    opensSpan t = false := by
  cases t with
  | endTag => rfl
  | startTag => cases h
  | text => cases h

/-- The first token balances, or the balance is found in what follows it. -/
theorem balanced?_cons (depth : Nat) (t : Token) (ts : List Token) :
    balanced? depth (t :: ts) =
      if balances depth [t] then some 0
      else ((List.range ts.length).find? fun n => balances depth (t :: ts.take (n + 1))).map
        (· + 1) := by
  unfold balanced?
  rw [List.length_cons, List.range_succ_eq_map, List.find?_cons]
  simp only [List.take_succ_cons, List.take_zero, List.find?_map, Function.comp_def]
  split <;> simp_all

/-- A token that leaves `before` open spans as `after` moves the balance one token on. -/
theorem balanced?_shift {before after : Nat} {t : Token}
    (h : ∀ us, balances before (t :: us) = balances (after + 1) us) (ts : List Token) :
    balanced? before (t :: ts) = (balanced? (after + 1) ts).map (· + 1) := by
  have hnil : balances (after + 1) [] = false := by simp [balances]
  rw [balanced?_cons, h, hnil]
  simp only [h]
  rfl

theorem balanced?_open {t : Token} (ht : opensSpan t = true) (depth : Nat) (ts : List Token) :
    balanced? (depth + 1) (t :: ts) = (balanced? (depth + 2) ts).map (· + 1) := by
  have he : t.isEnd "span" = false := by
    cases h : t.isEnd "span" with
    | false => rfl
    | true => rw [not_opensSpan_of_isEnd h] at ht; cases ht
  apply balanced?_shift
  intro us
  rw [balances_cons, he, ht]
  unfold balances
  rw [Bool.eq_iff_iff, beq_iff_eq, beq_iff_eq]
  simp only [Bool.false_eq_true, if_false, if_true]
  omega

theorem balanced?_last {t : Token} (ht : t.isEnd "span" = true) (ts : List Token) :
    balanced? 1 (t :: ts) = some 0 := by
  rw [balanced?_cons, balances_cons, ht, not_opensSpan_of_isEnd ht]
  rfl

theorem balanced?_end {t : Token} (ht : t.isEnd "span" = true) (depth : Nat) (ts : List Token) :
    balanced? (depth + 2) (t :: ts) = (balanced? (depth + 1) ts).map (· + 1) := by
  apply balanced?_shift
  intro us
  rw [balances_cons, ht, not_opensSpan_of_isEnd ht]
  unfold balances
  rw [Bool.eq_iff_iff, beq_iff_eq, beq_iff_eq]
  simp only [Bool.false_eq_true, if_false, if_true]
  omega

theorem balanced?_other {t : Token} (ho : opensSpan t = false) (he : t.isEnd "span" = false)
    (depth : Nat) (ts : List Token) :
    balanced? (depth + 1) (t :: ts) = (balanced? (depth + 1) ts).map (· + 1) := by
  apply balanced?_shift
  intro us
  rw [balances_cons, ho, he]
  rfl

end HelpMiner.Page
