import HelpMiner.Markup.Token
import HelpMiner.Markup.Entity
import HelpMiner.Text.Basic

/-! Tolerant tokenizer: every text has tokens, and malformed constructs degrade to text. -/
namespace HelpMiner.Markup

def pastClose : List Char → List Char
  | [] => []
  | c :: rest => if c == '>' then rest else pastClose rest

def pastComment : List Char → List Char
  | [] => []
  | '-' :: '-' :: '>' :: rest => rest
  | _ :: rest => pastComment rest

def isTagNameChar (c : Char) : Bool := c.isAlphanum || c == '-' || c == '_' || c == ':'

def isKeyChar (c : Char) : Bool := !Text.isTagBlank c && c != '=' && c != '>' && c != '/'

def isBareValueChar (c : Char) : Bool := !Text.isTagBlank c && c != '>'

/-- The value after an equals sign: in matching quotes, or up to a blank or `>`. -/
def attrValue (s : List Char) : List Char × List Char :=
  match s.dropWhile Text.isTagBlank with
  | [] => ([], [])
  | q :: rest =>
    if q == '"' || q == '\'' then
      (rest.takeWhile (· != q), (rest.dropWhile (· != q)).tail)
    else
      ((q :: rest).takeWhile isBareValueChar, (q :: rest).dropWhile isBareValueChar)

/-- What follows the name of an attribute: its value, and the rest of the tag. -/
def afterKey (s : List Char) : List Char × List Char :=
  match s.dropWhile Text.isTagBlank with
  | [] => ([], [])
  | c :: rest => if c == '=' then attrValue rest else ([], c :: rest)

theorem attrValue_suffix (s : List Char) : (attrValue s).2 <:+ s := by
  have hs : s.dropWhile Text.isTagBlank <:+ s := List.dropWhile_suffix _
  unfold attrValue
  split
  · exact List.nil_suffix
  · rename_i q rest hq
    rw [hq] at hs
    split
    · have hrest : rest <:+ s := (List.suffix_cons q rest).trans hs
      exact ((List.tail_suffix _).trans (List.dropWhile_suffix _)).trans hrest
    · exact (List.dropWhile_suffix _).trans hs

theorem afterKey_suffix (s : List Char) : (afterKey s).2 <:+ s := by
  have hs : s.dropWhile Text.isTagBlank <:+ s := List.dropWhile_suffix _
  unfold afterKey
  split
  · exact List.nil_suffix
  · rename_i c rest hc
    rw [hc] at hs
    split
    · exact ((attrValue_suffix rest).trans (List.suffix_cons c rest)).trans hs
    · exact hs

/-- What is left after an attribute whose key goes on with `rest`. -/
theorem afterKey_dropWhile_suffix (rest : List Char) :
    (afterKey (rest.dropWhile isKeyChar)).2 <:+ rest :=
  (afterKey_suffix _).trans (List.dropWhile_suffix _)

def keyValue (key value : List Char) : String × String :=
  (String.ofList (Text.lower key), String.ofList (decodeEntities value))

/-- Attributes up to the end of the tag, whether it closes itself, and what follows it. -/
def attributes (selfClosing : Bool) (s : List Char) :
    List (String × String) × Bool × List Char :=
  match s with
  | [] => ([], selfClosing, [])
  | c :: rest =>
    if Text.isTagBlank c then attributes selfClosing rest
    else if c == '>' then ([], selfClosing, rest)
    -- A slash counts only where nothing but blanks stands between it and the end of the tag.
    else if c == '/' then attributes true rest
    else if c == '=' then attributes false rest
    else
      let key := c :: rest.takeWhile isKeyChar
      let value := afterKey (rest.dropWhile isKeyChar)
      let more := attributes false value.2
      (keyValue key value.1 :: more.1, more.2)
termination_by s.length
decreasing_by
  all_goals simp only [List.length_cons]
  all_goals try omega
  have hlen := (afterKey_dropWhile_suffix rest).length_le
  omega

/-- The construct after a `<`: its token, if it has one, and what follows it. -/
def construct? (s : List Char) : Option (Option Token × List Char) :=
  match s with
  | '!' :: '-' :: '-' :: rest => some (none, pastComment rest)
  | '!' :: rest => some (none, pastClose rest)
  | '?' :: rest => some (none, pastClose rest)
  | '/' :: rest =>
    match rest.takeWhile isTagNameChar with
    -- Without a name it is text, as is any `<` that opens no construct.
    | [] => none
    | name => some (some (.endTag (String.ofList (Text.lower name))), pastClose rest)
  | c :: rest =>
    if c.isAlpha then
      let name := c :: rest.takeWhile isTagNameChar
      let inner := attributes false (rest.dropWhile isTagNameChar)
      some (some (.startTag (String.ofList (Text.lower name)) inner.1 inner.2.1), inner.2.2)
    else none
  | [] => none

def isRawElement (name : String) : Bool := name == "script" || name == "style"

/-- The part of `s` from the first closing tag of the element on, or nothing. -/
def fromCloseTag (name : List Char) : List Char → List Char
  | [] => []
  | c :: rest =>
    if Text.startsWithLetters ('<' :: '/' :: name) (c :: rest) then c :: rest
    else fromCloseTag name rest

/-- What is left to read after a token: a raw body is passed over. -/
def afterToken : Option Token → List Char → List Char
  | some (.startTag name _ false), rest =>
    if isRawElement name then fromCloseTag name.toList rest else rest
  | _, rest => rest

/-- The characters before the first construct, and that construct with what follows it. -/
def textRun : List Char → List Char × Option (Option Token × List Char)
  | [] => ([], none)
  | c :: rest =>
    match if c == '<' then construct? rest else none with
    | some k => ([], some k)
    | none =>
      let more := textRun rest
      (c :: more.1, more.2)

def textToken (run : List Char) : Option Token :=
  if run.isEmpty then none else some (.text (String.ofList (decodeEntities run)))

theorem pastClose_suffix (s : List Char) : pastClose s <:+ s := by
  induction s with
  | nil => exact List.suffix_refl _
  | cons c rest ih =>
    unfold pastClose
    split
    · exact List.suffix_cons c rest
    · exact ih.trans (List.suffix_cons c rest)

theorem pastComment_suffix (s : List Char) : pastComment s <:+ s := by
  fun_induction pastComment s with
  | case1 => exact List.suffix_refl _
  | case2 rest => exact List.suffix_append ['-', '-', '>'] rest
  | case3 c rest h ih => exact ih.trans (List.suffix_cons c rest)

theorem attributes_suffix (selfClosing : Bool) (s : List Char) :
    (attributes selfClosing s).2.2 <:+ s := by
  fun_induction attributes selfClosing s with
  | case1 => exact List.suffix_refl _
  | case2 b c rest h ih => exact ih.trans (List.suffix_cons c rest)
  | case3 b c rest h h' => exact List.suffix_cons c rest
  | case4 b c rest h h' h'' ih => exact ih.trans (List.suffix_cons c rest)
  | case5 b c rest h h' h'' h3 ih => exact ih.trans (List.suffix_cons c rest)
  | case6 b c rest h h' h'' h3 key value more ih =>
    exact (ih.trans (afterKey_dropWhile_suffix rest)).trans (List.suffix_cons c rest)

theorem construct?_suffix {s : List Char} {t : Option Token} {r : List Char}
    (h : construct? s = some (t, r)) : r <:+ s := by
  unfold construct? at h
  split at h
  · rename_i rest
    cases h
    exact (pastComment_suffix rest).trans (List.suffix_append ['!', '-', '-'] rest)
  · rename_i rest _
    cases h
    exact (pastClose_suffix rest).trans (List.suffix_cons _ rest)
  · rename_i rest
    cases h
    exact (pastClose_suffix rest).trans (List.suffix_cons _ rest)
  · rename_i rest
    split at h
    · cases h
    · cases h
      exact (pastClose_suffix rest).trans (List.suffix_cons _ rest)
  · rename_i c rest _ _ _ _
    split at h
    · cases h
      have hname : rest.dropWhile isTagNameChar <:+ rest := List.dropWhile_suffix _
      exact ((attributes_suffix false _).trans hname).trans (List.suffix_cons c rest)
    · cases h
  · cases h

theorem fromCloseTag_suffix (name s : List Char) : fromCloseTag name s <:+ s := by
  induction s with
  | nil => exact List.suffix_refl _
  | cons c rest ih =>
    unfold fromCloseTag
    split
    · exact List.suffix_refl _
    · exact ih.trans (List.suffix_cons c rest)

theorem afterToken_suffix (t : Option Token) (s : List Char) : afterToken t s <:+ s := by
  unfold afterToken
  split
  · split
    · exact fromCloseTag_suffix _ _
    · exact List.suffix_refl _
  · exact List.suffix_refl _

theorem textRun_length_lt {s : List Char} {t : Option Token} {r : List Char}
    (h : (textRun s).2 = some (t, r)) : r.length < s.length := by
  induction s with
  | nil => cases h
  | cons c rest ih =>
    unfold textRun at h
    split at h
    · rename_i k hk
      split at hk
      · simp only [Option.some.injEq] at h
        have := (construct?_suffix (h ▸ hk)).length_le
        simp only [List.length_cons]
        omega
      · cases hk
    · have := ih h
      simp only [List.length_cons]
      omega

/-- The tokens of a page, in order. Comments and declarations have none, nor has a raw body. -/
def lex (s : List Char) : List Token :=
  let run := textRun s
  (textToken run.1).toList ++
    match _h : run.2 with
    | none => []
    | some (token, rest) => token.toList ++ lex (afterToken token rest)
termination_by s.length
decreasing_by
  have hrest := textRun_length_lt _h
  have hafter := (afterToken_suffix token rest).length_le
  omega

def tokenize (page : String) : List Token := lex page.toList

end HelpMiner.Markup
