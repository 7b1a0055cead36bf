import HelpMiner.Markup.Entity

/-! Texts written with references: every known name is read as its character, whatever follows it,
and a text whose special characters are written by name decodes to itself. -/
namespace HelpMiner.Markup

/-- Write a character by its name if it is among those of `names`, and as it is otherwise. -/
def escapeChar (names : List (String × Char)) (c : Char) : List Char :=
  match names.find? fun e => e.2 == c with
  | some e => '&' :: (e.1.toList ++ [';'])
  | none => [c]

/-- Write a text with its special characters by name. -/
def escape (names : List (String × Char)) (s : List Char) : List Char := s.flatMap (escapeChar names)

theorem referenced?_name : ∀ e ∈ entityNames, referenced? e.1.toList = some e.2 := by decide

theorem entityName_short : ∀ e ∈ entityNames, e.1.toList.length < referenceLimit := by decide

theorem entityName_letters : ∀ e ∈ entityNames, ∀ c ∈ e.1.toList, c.isAlpha = true := by
  have h : ∀ e ∈ entityNames, e.1.toList.all Char.isAlpha = true := by decide
  intro e he
  exact List.all_eq_true.1 (h e he)

/-- A reference that ends within the limit is read by what stands before its semicolon. -/
theorem reference?_body {body : List Char} (hs : ∀ c ∈ body, c ≠ ';')
    (hl : body.length < referenceLimit) (rest : List Char) :
    reference? (body ++ ';' :: rest) = (referenced? body).map fun c => (c, body.length + 1) := by
  have htake : (body ++ ';' :: rest).take referenceLimit =
      body ++ ';' :: rest.take (referenceLimit - body.length - 1) := by
    rw [List.take_append, List.take_of_length_le (Nat.le_of_lt hl)]
    obtain ⟨k, hk⟩ : ∃ k, referenceLimit - body.length = k + 1 :=
      ⟨referenceLimit - body.length - 1, by omega⟩
    rw [hk, List.take_succ_cons]
    rfl
  have hbody : ((body ++ ';' :: rest).take referenceLimit).takeWhile (· != ';') = body := by
    rw [htake, List.takeWhile_append_of_pos (by simpa using hs), List.takeWhile_cons]
    simp
  unfold reference?
  rw [hbody]
  simp only [List.length_append, List.length_cons]
  rw [if_pos]
  simp only [Bool.and_eq_true, decide_eq_true_eq]
  omega

@[simp] theorem decodeEntities_nil : decodeEntities [] = [] := by rw [decodeEntities]

theorem decodeEntities_cons_of_ne {c : Char} (h : c ≠ '&') (rest : List Char) :
    decodeEntities (c :: rest) = c :: decodeEntities rest := by
  rw [decodeEntities]
  simp [h]

theorem decodeEntities_reference {rest : List Char} {d : Char} {n : Nat}
    (h : reference? rest = some (d, n)) :
    decodeEntities ('&' :: rest) = d :: decodeEntities (rest.drop n) := by
  rw [decodeEntities, if_pos (by decide), h]

/-- A reference gives its character and is passed over. -/
theorem decodeEntities_body {body : List Char} (hs : ∀ c ∈ body, c ≠ ';')
    (hl : body.length < referenceLimit) {d : Char} (hd : referenced? body = some d)
    (rest : List Char) :
    decodeEntities ('&' :: (body ++ ';' :: rest)) = d :: decodeEntities rest := by
  have href := reference?_body hs hl rest
  rw [hd] at href
  rw [decodeEntities_reference href]
  congr 2
  rw [List.drop_append]
  simp

theorem entityName_plain {e : String × Char} (he : e ∈ entityNames) :
    ∀ c ∈ e.1.toList, c ≠ ';' := by
  rintro c hc rfl
  exact absurd (entityName_letters e he _ hc) (by decide)

theorem decodeEntities_name {e : String × Char} (he : e ∈ entityNames) (rest : List Char) :
    decodeEntities ('&' :: (e.1.toList ++ ';' :: rest)) = e.2 :: decodeEntities rest :=
  decodeEntities_body (entityName_plain he) (entityName_short e he) (referenced?_name e he) rest

theorem decodeEntities_ne_nil {s : List Char} (h : s ≠ []) : decodeEntities s ≠ [] := by
  cases s with
  | nil => contradiction
  | cons c rest =>
    rw [decodeEntities]
    split
    · split <;> simp
    · simp

section Escape

variable {names : List (String × Char)} (hn : ∀ e ∈ names, e ∈ entityNames)

include hn

theorem decodeEntities_escapeChar (ha : ∃ e ∈ names, e.2 = '&') (c : Char) (rest : List Char) :
    decodeEntities (escapeChar names c ++ rest) = c :: decodeEntities rest := by
  unfold escapeChar
  cases hf : names.find? fun e => e.2 == c with
  | some e =>
    have hc : e.2 = c := by simpa using List.find?_some hf
    have he : e ∈ entityNames := hn e (List.mem_of_find?_eq_some hf)
    simp only [List.cons_append, List.append_assoc, List.nil_append]
    rw [decodeEntities_name he, hc]
  | none =>
    have hc : c ≠ '&' := by
      rintro rfl
      obtain ⟨e, he, hea⟩ := ha
      exact absurd hea (by simpa using List.find?_eq_none.1 hf e he)
    exact decodeEntities_cons_of_ne hc rest

/-- Decoding gives a text back that was written with its special characters by name. -/
theorem decodeEntities_escape (ha : ∃ e ∈ names, e.2 = '&') (s : List Char) :
    decodeEntities (escape names s) = s := by
  unfold escape
  induction s with
  | nil => rw [List.flatMap_nil, decodeEntities_nil]
  | cons c rest ih => rw [List.flatMap_cons, decodeEntities_escapeChar hn ha, ih]

/-- A special character does not stand in a text that is written with references. -/
theorem not_mem_escape {d : Char} (hd : ∃ e ∈ names, e.2 = d) (hl : d.isAlpha = false)
    (hs : d ≠ '&' ∧ d ≠ ';') (s : List Char) : d ∉ escape names s := by
  intro hm
  obtain ⟨c, -, hc⟩ := List.mem_flatMap.1 hm
  unfold escapeChar at hc
  cases hf : names.find? fun e => e.2 == c with
  | some e =>
    have he : e ∈ entityNames := hn e (List.mem_of_find?_eq_some hf)
    simp only [hf, List.mem_cons, List.mem_append, List.not_mem_nil, or_false] at hc
    rcases hc with hc | hc | hc
    · exact hs.1 hc
    · rw [entityName_letters e he d hc] at hl
      cases hl
    · exact hs.2 hc
  | none =>
    simp only [hf, List.mem_cons, List.not_mem_nil, or_false] at hc
    obtain ⟨e, he, hed⟩ := hd
    exact absurd (hed.trans hc) (by simpa using List.find?_eq_none.1 hf e he)

omit hn in
theorem escape_ne_nil {s : List Char} (h : s ≠ []) : escape names s ≠ [] := by
  cases s with
  | nil => contradiction
  | cons c rest =>
    unfold escape escapeChar
    rw [List.flatMap_cons]
    split <;> simp

end Escape

end HelpMiner.Markup
