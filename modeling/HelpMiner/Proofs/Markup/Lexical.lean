import HelpMiner.Markup.Lexer
import HelpMiner.Proofs.Markup.Reference
import HelpMiner.Proofs.Text.Letter

/-! What the tokens of every page have in common, however malformed the page: names in lower case
and of their own characters, texts that are not empty, and after a tag with a raw body its end. -/
namespace HelpMiner.Markup

/-- A name as the tokenizer gives it out: not empty, of the characters of a class, in lower case. -/
structure Folded (p : Char → Bool) (name : String) : Prop where
  ne_nil : name.toList ≠ []
  chars : ∀ c ∈ name.toList, p c = true
  lower : Text.lower name.toList = name.toList

/-- The form of one token. -/
def Token.Lexical : Token → Prop
  | .startTag name attrs _ =>
    Folded isTagNameChar name ∧ (∃ c ∈ name.toList.head?, c.isAlpha = true) ∧
      ∀ a ∈ attrs, Folded isKeyChar a.1
  | .endTag name => Folded isTagNameChar name
  | .text content => content.toList ≠ []

/-- The element whose raw body begins after a token. -/
def Token.rawBody? : Token → Option String
  | .startTag name _ false => if isRawElement name then some name else none
  | _ => none

/-- What can follow the start of a raw body: its end, which the tokenizer knows by the front of the
    name, or nothing. -/
def EndsRaw (name : String) : List Token → Prop
  | [] => True
  | .endTag closing :: _ => name.toList <+: closing.toList
  | _ => False

/-- The form of the tokens of a page. -/
def Lexical : List Token → Prop
  | [] => True
  | t :: rest => t.Lexical ∧ (∀ name ∈ t.rawBody?, EndsRaw name rest) ∧ Lexical rest

theorem isTagNameChar_of_isAlpha (c : Char) (h : c.isAlpha = true) : isTagNameChar c = true := by
  simp [isTagNameChar, Char.isAlphanum, h]

theorem isKeyChar_of_isAlpha (c : Char) (h : c.isAlpha = true) : isKeyChar c = true := by
  have hne : ∀ d : Char, d.isAlpha = false → (c == d) = false := by
    intro d hd
    rw [beq_eq_false_iff_ne]
    rintro rfl
    rw [h] at hd
    cases hd
  simp only [isKeyChar, Text.isTagBlank, bne, hne _ (by decide : ' '.isAlpha = false),
    hne _ (by decide : '\t'.isAlpha = false), hne _ (by decide : '\n'.isAlpha = false),
    hne _ (by decide : '\r'.isAlpha = false), hne _ (by decide : '\x0c'.isAlpha = false),
    hne _ (by decide : '='.isAlpha = false), hne _ (by decide : '>'.isAlpha = false),
    hne _ (by decide : '/'.isAlpha = false)]
  rfl

theorem folded_lower {p : Char → Bool} (hp : ∀ c, c.isAlpha = true → p c = true) {s : List Char}
    (hs : s ≠ []) (hc : ∀ c ∈ s, p c = true) : Folded p (String.ofList (Text.lower s)) where
  ne_nil := by
    rw [String.toList_ofList]
    exact fun h => hs (List.map_eq_nil_iff.1 h)
  chars := by
    rw [String.toList_ofList]
    exact Text.all_lower hp hc
  lower := by rw [String.toList_ofList, Text.lower_lower]

/-! ## One construct -/

theorem attributes_folded (selfClosing : Bool) (s : List Char) :
    ∀ a ∈ (attributes selfClosing s).1, Folded isKeyChar a.1 := by
  fun_induction attributes selfClosing s with
  | case1 => simp
  | case2 b c rest h ih => exact ih
  | case3 b c rest h h' => simp
  | case4 b c rest h h' h'' ih => exact ih
  | case5 b c rest h h' h'' h3 ih => exact ih
  | case6 b c rest hb hg hs he key value more ih =>
    intro a ha
    rcases List.mem_cons.1 ha with rfl | ha
    · have hc : isKeyChar c = true := by simp_all [isKeyChar, bne]
      refine folded_lower isKeyChar_of_isAlpha (List.cons_ne_nil _ _) ?_
      intro d hd
      rcases List.mem_cons.1 hd with rfl | hd
      · exact hc
      · exact List.all_eq_true.1 List.all_takeWhile d hd
    · exact ih a ha

theorem construct?_alpha {c : Char} (h : c.isAlpha = true) (rest : List Char) :
    construct? (c :: rest) =
      some (some (.startTag (String.ofList (Text.lower (c :: rest.takeWhile isTagNameChar)))
          (attributes false (rest.dropWhile isTagNameChar)).1
          (attributes false (rest.dropWhile isTagNameChar)).2.1),
        (attributes false (rest.dropWhile isTagNameChar)).2.2) := by
  unfold construct?
  split
  all_goals rename_i heq
  · cases heq; cases h
  · cases heq; cases h
  · cases heq; cases h
  · cases heq; cases h
  · cases heq; rw [if_pos h]
  · cases heq

theorem construct?_slash {rest name : List Char} (hn : rest.takeWhile isTagNameChar = name)
    (h : name ≠ []) :
    construct? ('/' :: rest) =
      some (some (.endTag (String.ofList (Text.lower name))), pastClose rest) := by
  unfold construct?
  simp only [hn]

theorem construct?_lexical {s rest : List Char} {t : Token}
    (h : construct? s = some (some t, rest)) : t.Lexical := by
  unfold construct? at h
  split at h
  · cases h
  · cases h
  · cases h
  · rename_i after
    split at h
    · cases h
    · rename_i name hn
      cases h
      exact folded_lower isTagNameChar_of_isAlpha hn fun c hc =>
        List.all_eq_true.1 List.all_takeWhile c hc
  · rename_i c after _ _ _ _
    split at h
    · rename_i hc
      cases h
      refine ⟨folded_lower isTagNameChar_of_isAlpha (List.cons_ne_nil _ _) ?_, ?_,
        attributes_folded _ _⟩
      · intro d hd
        rcases List.mem_cons.1 hd with rfl | hd
        · exact isTagNameChar_of_isAlpha _ hc
        · exact List.all_eq_true.1 List.all_takeWhile d hd
      · refine ⟨c.toLower, ?_, ?_⟩
        · rw [String.toList_ofList]
          rfl
        · rw [Char.isAlpha_toLower_eq_isAlpha, hc]
    · cases h
  · cases h

theorem afterToken_raw {t : Token} {name : String} (h : t.rawBody? = some name)
    (rest : List Char) : afterToken (some t) rest = fromCloseTag name.toList rest := by
  unfold Token.rawBody? at h
  split at h
  · split at h
    · rename_i hr
      cases h
      simp only [afterToken, hr, if_true]
    · cases h
  · cases h

theorem afterToken_not_raw {t : Token} (h : t.rawBody? = none) (rest : List Char) :
    afterToken (some t) rest = rest := by
  unfold afterToken
  split
  · rename_i heq
    cases heq
    simp only [Token.rawBody?] at h
    split at h
    · cases h
    · rename_i hr
      rw [if_neg hr]
  · rfl

/-! ## A run of the tokenizer -/

theorem lex_eq_of_none {s : List Char} (h : (textRun s).2 = none) :
    lex s = (textToken (textRun s).1).toList := by
  rw [lex]
  split
  · exact List.append_nil _
  · rename_i heq
    rw [h] at heq
    cases heq

theorem lex_eq_of_some {s rest : List Char} {t : Option Token}
    (h : (textRun s).2 = some (t, rest)) :
    lex s = (textToken (textRun s).1).toList ++ (t.toList ++ lex (afterToken t rest)) := by
  rw [lex]
  split
  · rename_i heq
    rw [h] at heq
    cases heq
  · rename_i token after heq
    rw [h] at heq
    cases heq
    rfl

@[simp] theorem lex_nil : lex [] = [] := lex_eq_of_none rfl

theorem textRun_construct {s rest : List Char} {t : Option Token}
    (h : construct? s = some (t, rest)) : textRun ('<' :: s) = ([], some (t, rest)) := by
  rw [textRun, if_pos (by decide), h]

theorem lex_construct {s rest : List Char} {t : Option Token}
    (h : construct? s = some (t, rest)) :
    lex ('<' :: s) = t.toList ++ lex (afterToken t rest) := by
  have hr := textRun_construct h
  rw [lex_eq_of_some (congrArg Prod.snd hr), hr]
  rfl

/-- No construct begins in a run of text that `rest` follows. -/
def Plain (run rest : List Char) : Prop :=
  ∀ front after, run = front ++ '<' :: after → construct? (after ++ rest) = none

theorem plain_of_not_mem {run : List Char} (h : '<' ∉ run) (rest : List Char) :
    Plain run rest := by
  rintro front after rfl
  exact absurd (List.mem_append_right front List.mem_cons_self) h

theorem Plain.tail {c : Char} {run rest : List Char} (h : Plain (c :: run) rest) :
    Plain run rest := by
  intro front after hrun
  exact h (c :: front) after (by rw [hrun, List.cons_append])

theorem textRun_append {run rest : List Char} (h : Plain run rest) :
    textRun (run ++ rest) = (run ++ (textRun rest).1, (textRun rest).2) := by
  induction run with
  | nil => rfl
  | cons c run ih =>
    have hnone : (if c == '<' then construct? (run ++ rest) else none) = none := by
      split
      · rename_i hc
        exact h [] run (by rw [beq_iff_eq.mp hc, List.nil_append])
      · rfl
    rw [List.cons_append, textRun, hnone, ih h.tail]
    rfl

/-- A run of text is one token when nothing or a construct follows it. -/
theorem lex_text {run rest : List Char} (hr : run ≠ []) (h : Plain run rest)
    (ht : (textRun rest).1 = []) :
    lex (run ++ rest) = .text (String.ofList (decodeEntities run)) :: lex rest := by
  have hrun := textRun_append h
  have htoken : (textToken run).toList = [.text (String.ofList (decodeEntities run))] := by
    unfold textToken
    rw [if_neg (by simpa using hr)]
    rfl
  rw [ht, List.append_nil] at hrun
  cases hk : (textRun rest).2 with
  | none =>
    have hnil : lex rest = [] := by
      rw [lex_eq_of_none hk, ht]
      rfl
    rw [lex_eq_of_none (by rw [hrun, hk]), hrun, htoken, hnil]
  | some k =>
    obtain ⟨t, after⟩ := k
    rw [lex_eq_of_some (by rw [hrun, hk]), lex_eq_of_some hk, hrun, ht, htoken]
    rfl

/-- A page is a run of text and what ends it. -/
theorem exists_textRun (s : List Char) :
    ∃ rest, s = (textRun s).1 ++ rest ∧ Plain (textRun s).1 rest ∧
      ((textRun s).2 = none ∧ rest = [] ∨
        ∃ inner k, (textRun s).2 = some k ∧ rest = '<' :: inner ∧ construct? inner = some k) := by
  induction s with
  | nil => exact ⟨[], rfl, plain_of_not_mem List.not_mem_nil _, Or.inl ⟨rfl, rfl⟩⟩
  | cons c s ih =>
    unfold textRun
    split
    · rename_i k hk
      split at hk
      · rename_i hc
        refine ⟨c :: s, rfl, plain_of_not_mem List.not_mem_nil _, Or.inr ⟨s, k, rfl, ?_, hk⟩⟩
        rw [beq_iff_eq.mp hc]
      · cases hk
    · rename_i hk
      obtain ⟨rest, hs, hplain, hend⟩ := ih
      refine ⟨rest, by rw [List.cons_append, ← hs], ?_, hend⟩
      intro front after hrun
      cases front with
      | nil =>
        rw [List.nil_append, List.cons.injEq] at hrun
        obtain ⟨rfl, rfl⟩ := hrun
        rw [if_pos (by decide)] at hk
        rw [← hs, hk]
      | cons d front =>
        rw [List.cons_append, List.cons.injEq] at hrun
        exact hplain front after hrun.2

theorem textToken_lexical {run : List Char} : ∀ t ∈ textToken run, t.Lexical ∧ t.rawBody? = none := by
  intro t ht
  unfold textToken at ht
  split at ht
  · cases ht
  · rename_i hr
    cases ht
    refine ⟨?_, rfl⟩
    simp only [Token.Lexical, String.toList_ofList]
    exact decodeEntities_ne_nil (by simpa using hr)

/-- The front of a closing tag is read as an end tag, whose name goes on as far as it can. -/
theorem lex_closeTag {name : String} (hn : Folded isTagNameChar name) {s after : List Char}
    (h : Text.afterLetters? ('<' :: '/' :: name.toList) s = some after) :
    ∃ rest, lex s = .endTag (String.ofList
      (name.toList ++ Text.lower (after.takeWhile isTagNameChar))) :: lex rest := by
  obtain ⟨front, rfl, hf⟩ := Text.exists_of_afterLetters? h
  have hmap : front.map Char.toLower =
      '<'.toLower :: '/'.toLower :: Text.lower name.toList := hf
  obtain ⟨lt, more, rfl, hl, hmore⟩ := List.map_eq_cons_iff.1 hmap
  obtain ⟨slash, closing, rfl, hsl, hclosing⟩ := List.map_eq_cons_iff.1 hmore
  have hc : Text.lower closing = name.toList := hclosing.trans hn.lower
  have hlt := Text.eq_of_toLower_eq (by decide) hl
  have hslash := Text.eq_of_toLower_eq (by decide) hsl
  subst hlt hslash
  have hchars : ∀ d ∈ closing, isTagNameChar d = true :=
    Text.all_of_lower isTagNameChar_of_isAlpha (by rw [hc]; exact hn.chars)
  have hne : closing ++ after.takeWhile isTagNameChar ≠ [] := by
    intro h
    rw [(List.append_eq_nil_iff.1 h).1] at hc
    exact hn.ne_nil hc.symm
  have htake : (closing ++ after).takeWhile isTagNameChar =
      closing ++ after.takeWhile isTagNameChar := List.takeWhile_append_of_pos hchars
  have hk := construct?_slash htake hne
  refine ⟨pastClose (closing ++ after), ?_⟩
  rw [List.cons_append, List.cons_append, lex_construct hk, Text.lower_append, hc]
  rfl

/-- What is left of a raw body is its end tag with all that follows it, or nothing. -/
theorem endsRaw_lex_fromCloseTag {name : String} (hn : Folded isTagNameChar name) (s : List Char) :
    EndsRaw name (lex (fromCloseTag name.toList s)) := by
  induction s with
  | nil =>
    rw [fromCloseTag, lex_nil]
    trivial
  | cons c rest ih =>
    unfold fromCloseTag
    split
    · rename_i hstart
      obtain ⟨after, hafter⟩ := Option.isSome_iff_exists.1 hstart
      obtain ⟨rest', hlex⟩ := lex_closeTag hn hafter
      rw [hlex]
      refine ⟨Text.lower (after.takeWhile isTagNameChar), ?_⟩
      rw [String.toList_ofList]
    · exact ih

/-- A token put before tokens of the form keeps the form, if it begins no raw body or its end
    follows. -/
theorem lexical_cons_token {t : Option Token} {s rest : List Char}
    (h : construct? s = some (t, rest)) (hr : Lexical (lex (afterToken t rest))) :
    Lexical (t.toList ++ lex (afterToken t rest)) := by
  cases t with
  | none => exact hr
  | some t =>
    refine ⟨construct?_lexical h, ?_, hr⟩
    intro name hname
    rw [afterToken_raw hname]
    have ht := construct?_lexical h
    unfold Token.rawBody? at hname
    split at hname
    · split at hname
      · cases hname
        exact endsRaw_lex_fromCloseTag ht.1 rest
      · cases hname
    · cases hname

theorem lexical_lex (s : List Char) : Lexical (lex s) := by
  induction hn : s.length using Nat.strongRecOn generalizing s with
  | ind n ih =>
    have hcons : ∀ ts, Lexical ts → Lexical ((textToken (textRun s).1).toList ++ ts) := by
      intro ts hts
      cases ht : textToken (textRun s).1 with
      | none => exact hts
      | some t =>
        obtain ⟨hl, hr⟩ := textToken_lexical t ht
        refine ⟨hl, ?_, hts⟩
        intro name hname
        rw [hr] at hname
        cases hname
    obtain ⟨-, -, -, ⟨hk, -⟩ | ⟨inner, ⟨t, rest⟩, hk, -, hinner⟩⟩ := exists_textRun s
    · rw [lex_eq_of_none hk, ← List.append_nil (Option.toList _)]
      exact hcons [] trivial
    · have hlt := textRun_length_lt hk
      have hle := (afterToken_suffix t rest).length_le
      rw [lex_eq_of_some hk]
      exact hcons _ (lexical_cons_token hinner (ih _ (by omega) _ rfl))

end HelpMiner.Markup
