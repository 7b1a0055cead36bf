import HelpMiner.Proofs.Markup.Canonical

/-! Elements whose body is not markup. A body without the front of a closing tag of its element has
no tokens. Where the front of one stands in it the body ends, even if the name of that tag goes
on. -/
namespace HelpMiner.Markup

/-- The front of a closing tag of an element. -/
def closeFront (name : String) : List Char := '<' :: '/' :: name.toList

/-- The body of an element before `rest`: it reaches to the first front of a closing tag in any
    letter case, or to the end of the page. -/
structure RawBody (name : String) (body rest : List Char) : Prop where
  inside : ∀ front after, body = front ++ after → after ≠ [] →
    Text.startsWithLetters (closeFront name) (after ++ rest) = false
  ends : rest = [] ∨ Text.startsWithLetters (closeFront name) rest = true

/-- Whether `s` begins with a closing tag of an element, in any letter case: the front of one, and
    then no more of a name. -/
def beginsCloseTag (name : String) (s : List Char) : Bool :=
  (Text.afterLetters? (closeFront name) s).any fun rest => !rest.head?.any isTagNameChar

/-- An element with its body between two tags. -/
def elementText (name body : String) : String :=
  "<" ++ name ++ ">" ++ body ++ "</" ++ name ++ ">"

theorem mem_of_isRawElement {name : String} (h : isRawElement name = true) :
    name ∈ ["script", "style"] := by
  simpa [isRawElement] using h

theorem folded_of_isRawElement {name : String} (h : isRawElement name = true) :
    Folded isTagNameChar name := by
  have hall : ∀ raw ∈ ["script", "style"], raw.toList ≠ [] ∧
      raw.toList.all isTagNameChar = true ∧ Text.lower raw.toList = raw.toList := by decide
  obtain ⟨hne, hchars, hlower⟩ := hall name (mem_of_isRawElement h)
  exact ⟨hne, List.all_eq_true.mp hchars, hlower⟩

theorem startTag_lexical {name : String} (h : isRawElement name = true) :
    (Token.startTag name [] false).Lexical := by
  have hall : ∀ raw ∈ ["script", "style"], raw.toList.head? = some 's' := by decide
  exact ⟨folded_of_isRawElement h, ⟨'s', hall name (mem_of_isRawElement h), by decide⟩, by simp⟩

/-- A front after which no more of a name stands is that of a closing tag. -/
theorem beginsCloseTag_of_takeWhile {name : String} {s after : List Char}
    (h : Text.afterLetters? (closeFront name) s = some after)
    (hnone : after.takeWhile isTagNameChar = []) : beginsCloseTag name s = true := by
  unfold beginsCloseTag
  rw [h]
  cases after with
  | nil => rfl
  | cons c after =>
    have hc : isTagNameChar c = false := by
      by_contra hc
      rw [List.takeWhile_cons_of_pos (by simpa using hc)] at hnone
      cases hnone
    simp [hc]

/-! ## Where a body ends -/

theorem fromCloseTag_cons (name : String) (c : Char) (rest : List Char) :
    fromCloseTag name.toList (c :: rest) =
      if Text.startsWithLetters (closeFront name) (c :: rest) then c :: rest
      else fromCloseTag name.toList rest := rfl

theorem RawBody.fromCloseTag_eq {name : String} {body rest : List Char}
    (h : RawBody name body rest) : fromCloseTag name.toList (body ++ rest) = rest := by
  induction body with
  | nil =>
    cases rest with
    | nil => rfl
    | cons c rest =>
      have hstart := h.ends.resolve_left (List.cons_ne_nil c rest)
      rw [List.nil_append, fromCloseTag_cons, if_pos hstart]
  | cons c body ih =>
    have hc := h.inside [] (c :: body) rfl (List.cons_ne_nil c body)
    have htail : RawBody name body rest := by
      refine ⟨?_, h.ends⟩
      intro front after hbody
      exact h.inside (c :: front) after (by rw [hbody, List.cons_append])
    rw [List.cons_append] at hc ⊢
    rw [fromCloseTag_cons, hc]
    exact ih htail

/-- The search for a closing tag passes over the body. -/
theorem exists_rawBody (name : String) (s : List Char) :
    ∃ body, s = body ++ fromCloseTag name.toList s ∧
      RawBody name body (fromCloseTag name.toList s) := by
  induction s with
  | nil => exact ⟨[], rfl, by simp, Or.inl rfl⟩
  | cons c rest ih =>
    rw [fromCloseTag_cons]
    split
    · rename_i hstart
      exact ⟨[], rfl, by simp, Or.inr hstart⟩
    · rename_i hstart
      obtain ⟨body, hs, hbody⟩ := ih
      refine ⟨c :: body, by rw [List.cons_append, ← hs], ?_, hbody.ends⟩
      intro front after hfront hafter
      cases front with
      | nil =>
        rw [List.nil_append] at hfront
        rw [← hfront, List.cons_append, ← hs]
        simpa using hstart
      | cons d front =>
        rw [List.cons_append, List.cons.injEq] at hfront
        exact hbody.inside front after hfront.2 hafter

/-- What the search finds begins with the front of a closing tag. -/
theorem exists_afterLetters?_fromCloseTag {name : String} {s : List Char}
    (h : fromCloseTag name.toList s ≠ []) :
    ∃ after, Text.afterLetters? (closeFront name) (fromCloseTag name.toList s) = some after := by
  obtain ⟨body, -, hbody⟩ := exists_rawBody name s
  have hstart := hbody.ends.resolve_left h
  exact Option.isSome_iff_exists.mp hstart

/-- The search finds nothing just where no front of a closing tag stands. -/
theorem fromCloseTag_eq_nil_iff (name : String) (s : List Char) :
    fromCloseTag name.toList s = [] ↔
      ∀ t ∈ s.tails, Text.startsWithLetters (closeFront name) t = false := by
  induction s with
  | nil => simp [fromCloseTag, Text.startsWithLetters, Text.afterLetters?, closeFront]
  | cons c rest ih =>
    rw [fromCloseTag_cons, List.tails_cons, List.forall_mem_cons, ← ih]
    cases Text.startsWithLetters (closeFront name) (c :: rest) with
    | true => simp
    | false => simp

section Search

variable {name : String} (hn : Folded isTagNameChar name)

include hn

/-- No front of a closing tag stands across the beginning of another one. -/
theorem afterLetters?_closeFront_append {s : List Char} (hs : s ≠ []) (more : List Char) :
    Text.afterLetters? (closeFront name) (s ++ '<' :: more) =
      (Text.afterLetters? (closeFront name) s).map (· ++ '<' :: more) := by
  have hlead : ∀ c ∈ '/' :: name.toList, c.toLower ≠ '<'.toLower := by
    intro c hc h
    have hlt : c = '<' := Text.eq_of_toLower_eq (by decide) h
    subst hlt
    rcases List.mem_cons.mp hc with hslash | hname
    · exact absurd hslash (by decide)
    · exact absurd (hn.chars _ hname) (by decide)
  obtain ⟨c, u, rfl⟩ := List.exists_cons_of_ne_nil hs
  unfold closeFront
  rw [List.cons_append, Text.afterLetters?, Text.afterLetters?]
  split
  · exact Text.afterLetters?_append_cons hlead u more
  · rfl

/-- The search for the end of a body finds what it finds in the body, and the closing tag after
    it. -/
theorem fromCloseTag_append (body more : List Char) :
    fromCloseTag name.toList (body ++ (closeFront name ++ more)) =
      fromCloseTag name.toList body ++ (closeFront name ++ more) := by
  induction body with
  | nil =>
    have hstart : Text.startsWithLetters (closeFront name) (closeFront name ++ more) = true := by
      unfold Text.startsWithLetters
      rw [Text.afterLetters?_append rfl]
      rfl
    exact if_pos hstart
  | cons c rest ih =>
    have happ := afterLetters?_closeFront_append hn (List.cons_ne_nil c rest)
      ('/' :: (name.toList ++ more))
    have hsame : Text.startsWithLetters (closeFront name) (c :: (rest ++ (closeFront name ++ more))) =
        Text.startsWithLetters (closeFront name) (c :: rest) := by
      unfold Text.startsWithLetters
      exact (congrArg Option.isSome happ).trans Option.isSome_map
    rw [List.cons_append, fromCloseTag_cons, fromCloseTag_cons, hsame]
    split
    · rfl
    · exact ih

end Search

/-! ## The tokens of an element -/

section Element

variable {name : String} (hraw : isRawElement name = true) (body : String)

include hraw

/-- After the start tag the body is passed over as far as the search goes. -/
theorem tokenize_elementText :
    tokenize (elementText name body) =
      .startTag name [] false ::
        lex (fromCloseTag name.toList body.toList ++ tokenForm (.endTag name)) := by
  have hn := folded_of_isRawElement hraw
  have htext : (elementText name body).toList =
      '<' :: (name.toList ++ '>' :: (body.toList ++ (closeFront name ++ ['>']))) := by
    simp [elementText, closeFront]
  have hk : construct? (name.toList ++ '>' :: (body.toList ++ (closeFront name ++ ['>']))) = _ :=
    construct?_startForm (startTag_lexical hraw) (body.toList ++ (closeFront name ++ ['>']))
  have hrawBody : (Token.startTag name [] false).rawBody? = some name := if_pos hraw
  unfold tokenize
  rw [htext, lex_construct hk, afterToken_raw hrawBody, fromCloseTag_append hn]
  rfl

/-- A body without the front of a closing tag has no tokens. -/
theorem tokenize_elementText_of_nil (h : fromCloseTag name.toList body.toList = []) :
    tokenize (elementText name body) = [.startTag name [] false, .endTag name] := by
  have hk := construct?_endForm (folded_of_isRawElement hraw) []
  have hend : lex (tokenForm (.endTag name)) = [.endTag name] := by
    unfold tokenForm
    rw [lex_construct hk, afterToken_not_raw rfl, lex_nil]
    rfl
  rw [tokenize_elementText hraw, h, List.nil_append, hend]

/-- Where the front of a closing tag stands in a body, an end tag is read, whose name goes on as
    far as it can. -/
theorem tokenize_elementText_of_found {after : List Char}
    (h : Text.afterLetters? (closeFront name) (fromCloseTag name.toList body.toList) = some after) :
    ∃ rest, tokenize (elementText name body) = .startTag name [] false ::
      .endTag (String.ofList (name.toList ++ Text.lower (after.takeWhile isTagNameChar))) ::
        lex rest := by
  have hn := folded_of_isRawElement hraw
  have hne : fromCloseTag name.toList body.toList ≠ [] := by
    intro hnil
    rw [hnil] at h
    cases h
  have hfound := afterLetters?_closeFront_append hn hne ('/' :: (name.toList ++ ['>']))
  rw [h, Option.map_some] at hfound
  obtain ⟨rest, hlex⟩ := lex_closeTag hn hfound
  have htake : (after ++ '<' :: '/' :: (name.toList ++ ['>'])).takeWhile isTagNameChar =
      after.takeWhile isTagNameChar := by
    rw [List.takeWhile_append]
    split
    · rename_i hall
      have hself := (List.takeWhile_prefix isTagNameChar (l := after)).eq_of_length hall
      rw [List.takeWhile_cons_of_neg (by decide), List.append_nil, hself]
    · rfl
  rw [htake] at hlex
  exact ⟨rest, by rw [tokenize_elementText hraw, ← hlex]; rfl⟩

end Element

/-- An element whose body holds no closing tag of it is read as its two tags just when not even the
    front of one stands in the body: a longer name that begins as that of the element ends the body
    too, and what follows it is read as markup. -/
theorem tokenize_elementText_iff {name : String} (hraw : isRawElement name = true) {body : String}
    (hbody : ∀ s ∈ body.toList.tails, beginsCloseTag name s = false) :
    tokenize (elementText name body) = [.startTag name [] false, .endTag name] ↔
      ∀ s ∈ body.toList.tails, Text.startsWithLetters (closeFront name) s = false := by
  rw [← fromCloseTag_eq_nil_iff]
  constructor
  · intro htokens
    by_contra hne
    obtain ⟨after, hafter⟩ := exists_afterLetters?_fromCloseTag hne
    obtain ⟨rest, hread⟩ := tokenize_elementText_of_found hraw body hafter
    rw [hread] at htokens
    injection htokens with _ htokens
    injection htokens with hend _
    injection hend with hend
    have hname := congrArg String.toList hend
    rw [String.toList_ofList] at hname
    have hnone : after.takeWhile isTagNameChar = [] :=
      List.map_eq_nil_iff.mp (List.append_right_eq_self.mp hname)
    have hclose := beginsCloseTag_of_takeWhile hafter hnone
    have hmem : fromCloseTag name.toList body.toList ∈ body.toList.tails :=
      (List.mem_tails _ _).mpr (fromCloseTag_suffix _ _)
    rw [hbody _ hmem] at hclose
    cases hclose
  · exact tokenize_elementText_of_nil hraw body

theorem tokenize_elementText_iff_comparison :
    isRawElement "script" = true ∧
      (∀ s ∈ "if (a < b && c > d) t = \"</b>\"; // </ script>".toList.tails,
        beginsCloseTag "script" s = false) ∧
      tokenize (elementText "script" "if (a < b && c > d) t = \"</b>\"; // </ script>") =
        [.startTag "script" [] false, .endTag "script"] := by
  have hraw : isRawElement "script" = true := by decide
  have hbody : ∀ s ∈ "if (a < b && c > d) t = \"</b>\"; // </ script>".toList.tails,
      beginsCloseTag "script" s = false := by decide +kernel
  refine ⟨hraw, hbody, ?_⟩
  rw [tokenize_elementText_iff hraw hbody]
  decide +kernel

/-- A body in which a longer name stands is cut short there. -/
theorem longer_name_ends_body :
    (∀ s ∈ "a</scripts>b".toList.tails, beginsCloseTag "script" s = false) ∧
      tokenize (elementText "script" "a</scripts>b") ≠
        [.startTag "script" [] false, .endTag "script"] := by
  constructor
  · decide +kernel
  · decide +kernel

end HelpMiner.Markup
