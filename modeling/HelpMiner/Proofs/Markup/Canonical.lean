import HelpMiner.Proofs.Markup.Lexical

/-! The canonical text of a list of tokens. The tokens of any page, however malformed, are read
again from their canonical text. -/
namespace HelpMiner.Markup

/-- Characters that text writes by name. -/
def textNames : List (String × Char) := [("amp", '&'), ("lt", '<')]

/-- Characters that the value of an attribute writes by name. -/
def valueNames : List (String × Char) := [("amp", '&'), ("quot", '"')]

/-- An attribute with its value in quotes. -/
def attrForm (a : String × String) : List Char :=
  ' ' :: (a.1.toList ++ '=' :: '"' :: (escape valueNames a.2.toList ++ ['"']))

/-- The end of a start tag. -/
def closeForm (selfClosing : Bool) : List Char := if selfClosing then ['/', '>'] else ['>']

/-- The canonical text of a token. -/
def tokenForm : Token → List Char
  | .startTag name attrs selfClosing =>
    '<' :: (name.toList ++ (attrs.flatMap attrForm ++ closeForm selfClosing))
  | .endTag name => '<' :: '/' :: (name.toList ++ ['>'])
  | .text content => escape textNames content.toList

/-- An empty comment, which keeps a text apart from the text that follows it. -/
def gap : Token → List Token → List Char
  | .text _, .text _ :: _ => ['<', '!', '-', '-', '-', '-', '>']
  | _, _ => []

/-- The canonical text of tokens, as characters. -/
def tokensForm : List Token → List Char
  | [] => []
  | t :: rest => tokenForm t ++ (gap t rest ++ tokensForm rest)

/-- The canonical text of tokens. -/
def serialize (ts : List Token) : String := String.ofList (tokensForm ts)

theorem textNames_known : ∀ e ∈ textNames, e ∈ entityNames := by decide

theorem valueNames_known : ∀ e ∈ valueNames, e ∈ entityNames := by decide

/-! ## Tags -/

theorem closeForm_cons (selfClosing : Bool) (rest : List Char) :
    ∃ c r, closeForm selfClosing ++ rest = c :: r ∧ isTagNameChar c = false := by
  cases selfClosing with
  | false => exact ⟨'>', rest, rfl, by decide⟩
  | true => exact ⟨'/', '>' :: rest, rfl, by decide⟩

theorem attributes_closeForm (selfClosing : Bool) (rest : List Char) :
    attributes false (closeForm selfClosing ++ rest) = ([], selfClosing, rest) := by
  have hgt : ∀ b, attributes b ('>' :: rest) = ([], b, rest) := by
    intro b
    rw [attributes, if_neg (by decide), if_pos (by decide)]
  cases selfClosing with
  | false => exact hgt false
  | true =>
    change attributes false ('/' :: '>' :: rest) = _
    rw [attributes, if_neg (by decide), if_neg (by decide), if_pos (by decide), hgt]

/-- A value in quotes is read up to the closing quote. -/
theorem afterKey_valueForm (value : String) (rest : List Char) :
    afterKey ('=' :: '"' :: (escape valueNames value.toList ++ '"' :: rest)) =
      (escape valueNames value.toList, rest) := by
  have hq : ∀ c ∈ escape valueNames value.toList, (c != '"') = true := by
    intro c hc
    rw [bne_iff_ne]
    rintro rfl
    exact not_mem_escape valueNames_known ⟨("quot", '"'), by decide, rfl⟩ (by decide) (by decide)
      _ hc
  have heq : ('=' :: '"' :: (escape valueNames value.toList ++ '"' :: rest)).dropWhile
      Text.isTagBlank = '=' :: '"' :: (escape valueNames value.toList ++ '"' :: rest) :=
    List.dropWhile_cons_of_neg (by decide)
  have hquote : ('"' :: (escape valueNames value.toList ++ '"' :: rest)).dropWhile
      Text.isTagBlank = '"' :: (escape valueNames value.toList ++ '"' :: rest) :=
    List.dropWhile_cons_of_neg (by decide)
  unfold afterKey
  rw [heq]
  simp only [beq_self_eq_true, if_true]
  unfold attrValue
  rw [hquote]
  simp only [beq_self_eq_true, Bool.true_or, if_true]
  rw [List.takeWhile_append_of_pos hq, List.dropWhile_append_of_pos hq,
    List.takeWhile_cons_of_neg (by decide), List.dropWhile_cons_of_neg (by decide)]
  simp

theorem attributes_attrForm {a : String × String} (ha : Folded isKeyChar a.1) (rest : List Char) :
    attributes false (attrForm a ++ rest) =
      (a :: (attributes false rest).1, (attributes false rest).2) := by
  obtain ⟨key, value⟩ := a
  obtain ⟨c, k, hk⟩ : ∃ c k, key.toList = c :: k := List.exists_cons_of_ne_nil ha.ne_nil
  have hc : isKeyChar c = true := ha.chars c (hk ▸ List.mem_cons_self)
  have hks : ∀ d ∈ k, isKeyChar d = true := fun d hd => ha.chars d (hk ▸ List.mem_cons_of_mem _ hd)
  have htake : (k ++ '=' :: '"' :: (escape valueNames value.toList ++ '"' :: rest)).takeWhile
      isKeyChar = k := by
    rw [List.takeWhile_append_of_pos hks, List.takeWhile_cons_of_neg (by decide), List.append_nil]
  have hdrop : (k ++ '=' :: '"' :: (escape valueNames value.toList ++ '"' :: rest)).dropWhile
      isKeyChar = '=' :: '"' :: (escape valueNames value.toList ++ '"' :: rest) := by
    rw [List.dropWhile_append_of_pos hks, List.dropWhile_cons_of_neg (by decide)]
  have hkv : keyValue (c :: k) (escape valueNames value.toList) = (key, value) := by
    unfold keyValue
    rw [← hk, ha.lower, decodeEntities_escape valueNames_known ⟨("amp", '&'), by decide, rfl⟩,
      String.ofList_toList, String.ofList_toList]
  have hform : attrForm (key, value) ++ rest =
      ' ' :: c :: (k ++ '=' :: '"' :: (escape valueNames value.toList ++ '"' :: rest)) := by
    simp [attrForm, hk]
  simp only [isKeyChar, bne, Bool.and_eq_true, Bool.not_eq_true'] at hc
  obtain ⟨⟨⟨hb, he⟩, hg⟩, hs⟩ := hc
  rw [hform, attributes, if_pos (by decide), attributes]
  simp only [hb, hg, hs, he, Bool.false_eq_true, if_false]
  rw [htake, hdrop, afterKey_valueForm, hkv]

theorem attributes_form {attrs : List (String × String)} (ha : ∀ a ∈ attrs, Folded isKeyChar a.1)
    (selfClosing : Bool) (rest : List Char) :
    attributes false (attrs.flatMap attrForm ++ (closeForm selfClosing ++ rest)) =
      (attrs, selfClosing, rest) := by
  induction attrs with
  | nil => exact attributes_closeForm selfClosing rest
  | cons a attrs ih =>
    rw [List.flatMap_cons, List.append_assoc, attributes_attrForm (ha a List.mem_cons_self),
      ih fun b hb => ha b (List.mem_cons_of_mem _ hb)]

theorem construct?_startForm {name : String} {attrs : List (String × String)} {selfClosing : Bool}
    (h : (Token.startTag name attrs selfClosing).Lexical) (rest : List Char) :
    construct? (name.toList ++ (attrs.flatMap attrForm ++ (closeForm selfClosing ++ rest))) =
      some (some (.startTag name attrs selfClosing), rest) := by
  obtain ⟨hn, ⟨c, hc, halpha⟩, ha⟩ := h
  obtain ⟨d, n, hd⟩ : ∃ d n, name.toList = d :: n := List.exists_cons_of_ne_nil hn.ne_nil
  obtain rfl : d = c := by
    rw [hd] at hc
    exact Option.some.inj hc
  have hchars : ∀ e ∈ n, isTagNameChar e = true := fun e he =>
    hn.chars e (hd ▸ List.mem_cons_of_mem _ he)
  -- after the name stands a blank or the end of the tag, so the name is read whole
  obtain ⟨x, xs, hx, hxn⟩ : ∃ x xs,
      attrs.flatMap attrForm ++ (closeForm selfClosing ++ rest) = x :: xs ∧
        isTagNameChar x = false := by
    cases attrs with
    | nil => exact closeForm_cons selfClosing rest
    | cons a attrs => exact ⟨' ', _, rfl, by decide⟩
  have htake : (n ++ (attrs.flatMap attrForm ++ (closeForm selfClosing ++ rest))).takeWhile
      isTagNameChar = n := by
    rw [List.takeWhile_append_of_pos hchars, hx, List.takeWhile_cons_of_neg (by simp [hxn]),
      List.append_nil]
  have hdrop : (n ++ (attrs.flatMap attrForm ++ (closeForm selfClosing ++ rest))).dropWhile
      isTagNameChar = attrs.flatMap attrForm ++ (closeForm selfClosing ++ rest) := by
    rw [List.dropWhile_append_of_pos hchars, hx, List.dropWhile_cons_of_neg (by simp [hxn])]
  rw [hd, List.cons_append, construct?_alpha halpha, htake, hdrop, attributes_form ha, ← hd,
    hn.lower, String.ofList_toList]

theorem construct?_endForm {name : String} (hn : Folded isTagNameChar name) (rest : List Char) :
    construct? ('/' :: (name.toList ++ '>' :: rest)) = some (some (.endTag name), rest) := by
  have htake : (name.toList ++ '>' :: rest).takeWhile isTagNameChar = name.toList := by
    rw [List.takeWhile_append_of_pos hn.chars, List.takeWhile_cons_of_neg (by decide),
      List.append_nil]
  have hclose : ∀ s : List Char, (∀ c ∈ s, isTagNameChar c = true) →
      pastClose (s ++ '>' :: rest) = rest := by
    intro s hs
    induction s with
    | nil => rfl
    | cons c s ih =>
      have hc : (c == '>') = false := by
        rw [beq_eq_false_iff_ne]
        rintro rfl
        exact absurd (hs _ List.mem_cons_self) (by decide)
      rw [List.cons_append, pastClose, hc]
      exact ih fun d hd => hs d (List.mem_cons_of_mem _ hd)
  rw [construct?_slash htake hn.ne_nil, hn.lower, String.ofList_toList, hclose _ hn.chars]

/-! ## Texts -/

theorem plain_textForm (content : String) (rest : List Char) :
    Plain (escape textNames content.toList) rest := by
  apply plain_of_not_mem
  exact not_mem_escape textNames_known ⟨("lt", '<'), by decide, rfl⟩ (by decide) (by decide) _

theorem decodeEntities_textForm (content : String) :
    String.ofList (decodeEntities (escape textNames content.toList)) = content := by
  rw [decodeEntities_escape textNames_known ⟨("amp", '&'), by decide, rfl⟩, String.ofList_toList]

/-- No text stands before the canonical text of tokens whose first is a tag. -/
theorem textRun_tokensForm {ts : List Token} (h : Lexical ts) (ht : ∀ content ∈ ts.head?,
    ∀ s, content ≠ .text s) : (textRun (tokensForm ts)).1 = [] := by
  cases ts with
  | nil => rfl
  | cons t rest =>
    cases t with
    | startTag name attrs selfClosing =>
      have hk := construct?_startForm h.1 (gap (.startTag name attrs selfClosing) rest ++
        tokensForm rest)
      simp only [tokensForm, tokenForm, List.cons_append, List.append_assoc]
      rw [textRun_construct hk]
    | endTag name =>
      have hk := construct?_endForm h.1 (gap (.endTag name) rest ++ tokensForm rest)
      simp only [tokensForm, tokenForm, List.cons_append, List.append_assoc, List.nil_append]
      rw [textRun_construct hk]
    | text content => exact absurd rfl (ht _ rfl content)

/-! ## Lists of tokens -/

/-- What ends a raw body is found at the front of its canonical text. -/
theorem fromCloseTag_tokensForm {name : String} {ts : List Token} (h : EndsRaw name ts) :
    fromCloseTag name.toList (tokensForm ts) = tokensForm ts := by
  cases ts with
  | nil => rfl
  | cons t rest =>
    cases t with
    | endTag closing =>
      obtain ⟨more, hm⟩ := h
      have hs : Text.startsWithLetters ('<' :: '/' :: name.toList)
          (tokensForm (.endTag closing :: rest)) = true := by
        rw [Text.startsWithLetters_iff]
        refine ⟨'<' :: '/' :: name.toList, more ++ ('>' :: (gap (.endTag closing) rest ++
          tokensForm rest)), ?_, rfl⟩
        simp [tokensForm, tokenForm, ← hm]
      have hcons : tokensForm (.endTag closing :: rest) =
          '<' :: (tokensForm (.endTag closing :: rest)).tail := rfl
      rw [hcons, fromCloseTag, ← hcons, if_pos hs]
    | startTag => exact h.elim
    | text => exact h.elim

theorem gap_tag {t : Token} (ht : ∀ s, t ≠ .text s) (rest : List Token) : gap t rest = [] := by
  cases t with
  | text content => exact absurd rfl (ht content)
  | startTag => rfl
  | endTag => rfl

theorem afterToken_tokensForm {t : Token} {rest : List Token} (h : Lexical (t :: rest)) :
    afterToken (some t) (tokensForm rest) = tokensForm rest := by
  cases hr : t.rawBody? with
  | none => exact afterToken_not_raw hr _
  | some name =>
    rw [afterToken_raw hr]
    exact fromCloseTag_tokensForm (h.2.1 name hr)

/-- Two texts are kept apart by the comment between them. -/
theorem lex_gap (content : String) {rest : List Token} (h : Lexical rest) :
    (textRun (gap (.text content) rest ++ tokensForm rest)).1 = [] ∧
      lex (gap (.text content) rest ++ tokensForm rest) = lex (tokensForm rest) := by
  cases rest with
  | nil => exact ⟨rfl, rfl⟩
  | cons t rest =>
    cases t with
    | text next =>
      have hk : construct? ('!' :: '-' :: '-' :: '-' :: '-' :: '>' ::
          tokensForm (.text next :: rest)) = some (none, tokensForm (.text next :: rest)) := rfl
      exact ⟨congrArg Prod.fst (textRun_construct hk), lex_construct hk⟩
    | startTag name attrs selfClosing =>
      refine ⟨textRun_tokensForm h ?_, rfl⟩
      rintro t ht s rfl
      cases ht
    | endTag name =>
      refine ⟨textRun_tokensForm h ?_, rfl⟩
      rintro t ht s rfl
      cases ht

/-- The canonical text of tokens of the form of a page is read as these tokens. -/
theorem lex_tokensForm {ts : List Token} (h : Lexical ts) : lex (tokensForm ts) = ts := by
  induction ts with
  | nil => exact lex_nil
  | cons t rest ih =>
    have hrest := ih h.2.2
    have hafter := afterToken_tokensForm h
    unfold tokensForm
    cases t with
    | startTag name attrs selfClosing =>
      have hk := construct?_startForm h.1 (tokensForm rest)
      rw [gap_tag (by intro s hs; cases hs)]
      simp only [tokenForm, List.cons_append, List.append_assoc, List.nil_append]
      rw [lex_construct hk, hafter, hrest]
      rfl
    | endTag name =>
      have hk := construct?_endForm h.1 (tokensForm rest)
      rw [gap_tag (by intro s hs; cases hs)]
      simp only [tokenForm, List.cons_append, List.append_assoc, List.nil_append]
      rw [lex_construct hk, hafter, hrest]
      rfl
    | text content =>
      obtain ⟨hrun, hlex⟩ := lex_gap content h.2.2
      unfold tokenForm
      rw [lex_text (escape_ne_nil h.1) (plain_textForm content _) hrun, decodeEntities_textForm,
        hlex, hrest]

/-- Reading the canonical text of the tokens of any page gives these tokens again. -/
theorem tokenize_serialize_tokenize (page : String) :
    tokenize (serialize (tokenize page)) = tokenize page := by
  unfold serialize
  rw [tokenize, String.toList_ofList]
  exact lex_tokensForm (lexical_lex page.toList)

end HelpMiner.Markup
