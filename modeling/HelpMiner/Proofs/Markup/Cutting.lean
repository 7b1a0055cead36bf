import HelpMiner.Proofs.Markup.RawBody

/-! A page as a sequence of pieces: stretches of text, constructs and raw bodies. Every page has a
cutting into pieces, in which no character is lost, and the tokens of the page are those of its
pieces. -/
namespace HelpMiner.Markup

/-- A piece of a page, with the characters it is made of. -/
inductive Piece where
  /-- A stretch of text. -/
  | text (run : List Char)
  /-- A start tag or an end tag. -/
  | tag (source : List Char) (token : Token)
  /-- A comment or a declaration. -/
  | silent (source : List Char)
  /-- The body of an element whose body is not markup. -/
  | rawBody (body : List Char)

namespace Piece

/-- The characters of a piece. -/
def source : Piece → List Char
  | text run => run
  | tag source _ => source
  | silent source => source
  | rawBody body => body

/-- The token of a piece. -/
def token? : Piece → Option Token
  | text run => some (.text (String.ofList (decodeEntities run)))
  | tag _ token => some token
  | silent _ => none
  | rawBody _ => none

end Piece

/-- Where a stretch of text ends: at the end of the page, or where a construct begins. -/
def EndsText (rest : List Char) : Prop :=
  rest = [] ∨ ∃ inner k, rest = '<' :: inner ∧ construct? inner = some k

/-- A page cut into pieces. What a construct is depends on all that follows its `<`. -/
inductive Cutting : List Char → List Piece → Prop where
  | nil : Cutting [] []
  | text {run rest : List Char} {ps : List Piece} : run ≠ [] → Plain run rest → EndsText rest →
      Cutting rest ps → Cutting (run ++ rest) (.text run :: ps)
  | silent {inner rest : List Char} {ps : List Piece} :
      construct? (inner ++ rest) = some (none, rest) →
      (∃ c more, inner = c :: more ∧ (c = '!' ∨ c = '?')) →
      Cutting rest ps → Cutting ('<' :: inner ++ rest) (.silent ('<' :: inner) :: ps)
  | tag {inner rest : List Char} {ps : List Piece} {t : Token} :
      construct? (inner ++ rest) = some (some t, rest) → (∀ content, t ≠ .text content) →
      t.rawBody? = none →
      Cutting rest ps → Cutting ('<' :: inner ++ rest) (.tag ('<' :: inner) t :: ps)
  | rawTag {inner body rest : List Char} {ps : List Piece} {t : Token} {name : String} :
      construct? (inner ++ (body ++ rest)) = some (some t, body ++ rest) →
      t.rawBody? = some name → RawBody name body rest →
      Cutting rest ps →
      Cutting ('<' :: inner ++ (body ++ rest)) (.tag ('<' :: inner) t :: .rawBody body :: ps)

/-! ## Constructs -/

theorem ne_text_of_construct? {s rest : List Char} {t : Token}
    (h : construct? s = some (some t, rest)) (content : String) : t ≠ .text content := by
  rintro rfl
  unfold construct? at h
  split at h
  · cases h
  · cases h
  · cases h
  · split at h <;> cases h
  · split at h <;> cases h
  · cases h

/-- Only comments and declarations have no token. -/
theorem exists_of_silent {s rest : List Char} (h : construct? s = some (none, rest)) :
    ∃ c inner, s = c :: inner ++ rest ∧ (c = '!' ∨ c = '?') := by
  unfold construct? at h
  split at h
  · rename_i after
    cases h
    obtain ⟨inner, hinner⟩ := pastComment_suffix after
    exact ⟨'!', '-' :: '-' :: inner, by simp [hinner], Or.inl rfl⟩
  · rename_i after _
    cases h
    obtain ⟨inner, hinner⟩ := pastClose_suffix after
    exact ⟨'!', inner, by rw [List.cons_append, hinner], Or.inl rfl⟩
  · rename_i after
    cases h
    obtain ⟨inner, hinner⟩ := pastClose_suffix after
    exact ⟨'?', inner, by rw [List.cons_append, hinner], Or.inr rfl⟩
  · split at h <;> cases h
  · split at h <;> cases h
  · cases h

/-! ## The cutting of a page -/

theorem Cutting.source_eq {s : List Char} {ps : List Piece} (h : Cutting s ps) :
    ps.flatMap Piece.source = s := by
  induction h with
  | nil => rfl
  | text _ _ _ _ ih => rw [List.flatMap_cons, ih]; rfl
  | silent _ _ _ ih => rw [List.flatMap_cons, ih]; rfl
  | tag _ _ _ _ ih => rw [List.flatMap_cons, ih]; rfl
  | rawTag _ _ _ _ ih => rw [List.flatMap_cons, List.flatMap_cons, ih]; rfl

/-- The pieces of any cutting tell the tokens. -/
theorem Cutting.lex_eq {s : List Char} {ps : List Piece} (h : Cutting s ps) :
    lex s = ps.filterMap Piece.token? := by
  induction h with
  | nil => exact lex_nil
  | @text run rest ps hrun hplain hends _ ih =>
    have hnone : (textRun rest).1 = [] := by
      obtain hrest | ⟨inner, k, hrest, hk⟩ := hends
      · rw [hrest]
        rfl
      · rw [hrest, textRun_construct hk]
    rw [lex_text hrun hplain hnone, ih]
    rfl
  | silent hk _ _ ih =>
    rw [List.cons_append, lex_construct hk]
    exact ih
  | tag hk _ hraw _ ih =>
    rw [List.cons_append, lex_construct hk, afterToken_not_raw hraw, ih]
    rfl
  | rawTag hk hraw hbody _ ih =>
    rw [List.cons_append, lex_construct hk, afterToken_raw hraw, hbody.fromCloseTag_eq, ih]
    rfl

/-- A construct goes before the cutting of what is read after it. -/
theorem exists_cutting_construct {inner after : List Char} {t : Option Token}
    (hk : construct? inner = some (t, after))
    (hafter : ∃ ps, Cutting (afterToken t after) ps) : ∃ ps, Cutting ('<' :: inner) ps := by
  obtain ⟨ps, hps⟩ := hafter
  cases t with
  | none =>
    obtain ⟨c, more, rfl, hc⟩ := exists_of_silent hk
    exact ⟨_, .silent hk ⟨c, more, rfl, hc⟩ hps⟩
  | some t =>
    obtain ⟨front, rfl⟩ := construct?_suffix hk
    cases hraw : t.rawBody? with
    | none =>
      rw [afterToken_not_raw hraw] at hps
      exact ⟨_, .tag hk (ne_text_of_construct? hk) hraw hps⟩
    | some name =>
      rw [afterToken_raw hraw] at hps
      obtain ⟨body, hbody, hrawBody⟩ := exists_rawBody name after
      rw [hbody] at hk ⊢
      exact ⟨_, .rawTag hk hraw hrawBody hps⟩

theorem exists_cutting (s : List Char) : ∃ ps, Cutting s ps := by
  induction hn : s.length using Nat.strongRecOn generalizing s with
  | ind n ih =>
    obtain ⟨rest, hs, hplain, hend⟩ := exists_textRun s
    -- a run that is not empty is a piece before the cutting of the rest
    have hrest : EndsText rest ∧ ∃ ps, Cutting rest ps := by
      obtain ⟨-, hrest⟩ | ⟨inner, ⟨t, after⟩, hk, hrest, hc⟩ := hend
      · rw [hrest]
        exact ⟨Or.inl rfl, [], .nil⟩
      · have hlt := textRun_length_lt hk
        have hle := (afterToken_suffix t after).length_le
        have hcut := ih _ (by omega) (afterToken t after) rfl
        rw [hrest]
        exact ⟨Or.inr ⟨inner, _, rfl, hc⟩, exists_cutting_construct hc hcut⟩
    obtain ⟨hends, ps, hps⟩ := hrest
    by_cases hrun : (textRun s).1 = []
    · rw [hrun, List.nil_append] at hs
      rw [hs]
      exact ⟨ps, hps⟩
    · rw [hs]
      exact ⟨_, .text hrun hplain hends hps⟩

/-- Every page is cut into pieces: together they are the page, and their tokens in order are its
    tokens. -/
theorem tokenize_cutting (page : String) :
    ∃ ps, Cutting page.toList ps ∧ ps.flatMap Piece.source = page.toList ∧
      tokenize page = ps.filterMap Piece.token? := by
  obtain ⟨ps, hps⟩ := exists_cutting page.toList
  exact ⟨ps, hps, hps.source_eq, hps.lex_eq⟩

end HelpMiner.Markup
