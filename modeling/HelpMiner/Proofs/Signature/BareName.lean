import HelpMiner.Proofs.Signature.Block
import HelpMiner.Proofs.Signature.WellFormed

/-! The name of a parameter in a call is a reserved word only where parentheses hide the word from
the check of declared names. -/
namespace HelpMiner.Signature

open Text (isWord)

/-! ## Reserved words -/

theorem isAlpha_of_isReserved {word : List Char} (h : isReserved word = true) :
    ∀ c ∈ word, c.isAlpha = true := by
  have hall : ∀ w ∈ reservedWords, w.toList.all Char.isAlpha = true := by decide
  obtain ⟨w, hw, he⟩ := List.any_eq_true.1 h
  apply Text.all_of_lower fun _ hc => hc
  rw [← beq_iff_eq.1 he]
  exact List.all_eq_true.1 (hall w hw)

/-- A word with a character that is no letter is not reserved. -/
theorem isReserved_eq_false {word : List Char} {c : Char} (hc : c ∈ word)
    (ha : c.isAlpha = false) : isReserved word = false := by
  by_contra h
  have hletter := isAlpha_of_isReserved (Bool.eq_true_of_not_eq_false h) c hc
  rw [ha] at hletter
  cases hletter

theorem isReserved_cleanName (name : List Char) : isReserved (cleanName name) = false := by
  unfold cleanName
  split
  · exact isReserved_eq_false (List.mem_append_right name List.mem_cons_self) (by decide)
  · rename_i h
    exact Bool.eq_false_of_not_eq_true h

/-! ## Parentheses -/

/-- `name` is `word` with parentheses put in. -/
inductive Parenthesized : List Char → List Char → Prop where
  | nil : Parenthesized [] []
  | letter (c : Char) {word name : List Char} (h : Parenthesized word name) :
      Parenthesized (c :: word) (c :: name)
  | opening {word name : List Char} (h : Parenthesized word name) : Parenthesized word ('(' :: name)
  | closing {word name : List Char} (h : Parenthesized word name) : Parenthesized word (')' :: name)

/-- A name without its parentheses. -/
def bare (name : List Char) : List Char := name.filter fun c => !(c == '(' || c == ')')

theorem toList_bareName (p : Param) : p.bareName.toList = bare p.name.toList :=
  String.toList_ofList

theorem parenthesized_bare (name : List Char) : Parenthesized (bare name) name := by
  induction name with
  | nil => exact .nil
  | cons c name ih =>
    by_cases ho : c = '('
    · rw [ho]
      exact .opening ih
    · by_cases hc : c = ')'
      · rw [hc]
        exact .closing ih
      · have hkeep : bare (c :: name) = c :: bare name :=
          List.filter_cons_of_pos (by simp [ho, hc])
        rw [hkeep]
        exact .letter c ih

theorem Parenthesized.bare_eq {word name : List Char} (h : Parenthesized word name) :
    bare name = bare word := by
  induction h with
  | nil => rfl
  | letter c h ih =>
    unfold bare at ih ⊢
    rw [List.filter_cons, List.filter_cons, ih]
  | opening h ih => exact ih
  | closing h ih => exact ih

theorem bare_of_isWord {name : List Char} (h : ∀ c ∈ name, isWord c = true) :
    bare name = name := by
  apply List.filter_eq_self.2
  intro c hc
  have hopening : c ≠ '(' := by
    rintro rfl
    exact absurd (h '(' hc) (by decide)
  have hclosing : c ≠ ')' := by
    rintro rfl
    exact absurd (h ')' hc) (by decide)
  simp [hopening, hclosing]

theorem bare_of_isReserved {word : List Char} (h : isReserved word = true) : bare word = word :=
  bare_of_isWord fun c hc => isWord_of_isAlpha (isAlpha_of_isReserved h c hc)

/-! ## Declared names -/

/-- A name that is no reserved word is one without its parentheses just if it is a reserved word
with parentheses put in. -/
theorem isReserved_bare_iff {name : List Char} (h : isReserved name = false) :
    isReserved (bare name) = true ↔
      ∃ word, isReserved word = true ∧ word ≠ name ∧ Parenthesized word name := by
  constructor
  · intro hb
    refine ⟨bare name, hb, ?_, parenthesized_bare name⟩
    intro he
    rw [he, h] at hb
    cases hb
  · rintro ⟨word, hword, -, hname⟩
    rwa [hname.bare_eq, bare_of_isReserved hword]

theorem Accepted.isReserved_name {line : String} {limit : Nat} {p : Param}
    {before typed : List Char} (h : Accepted line limit p before typed) :
    isReserved p.name.toList = false := by
  rw [h.name]
  exact isReserved_cleanName _

namespace Declared

variable {d : Declared}

/-- The parentheses keep the name of an array from being taken for a reserved word. -/
theorem bareName_array (ha : d.isArray = true) : d.param.bareName.toList = d.ident := by
  have hname : d.name = d.ident ++ ['(', ')'] := by
    unfold name marks
    rw [if_pos ha]
  have hclean : cleanName d.name = d.name := by
    have hmark : '(' ∈ d.name := by rw [hname]; simp
    have hnot : isReserved d.name = false := isReserved_eq_false hmark (by decide)
    unfold cleanName
    rw [if_neg (by simp [hnot])]
  have hbare : bare (d.ident ++ ['(', ')']) = bare d.ident ++ [] := List.filter_append ..
  rw [toList_bareName, param, String.toList_ofList, hclean, hname, hbare, List.append_nil,
    bare_of_isWord d.isIdent.isWord]

theorem bareName_plain (ha : d.isArray = false) :
    d.param.bareName.toList = cleanName d.ident := by
  have hname : d.name = d.ident := by
    unfold name marks
    rw [ha]
    exact List.append_nil _
  have hword : ∀ c ∈ cleanName d.ident, isWord c = true := by
    intro c hc
    obtain hc | hc := List.mem_append.1 (cleanName_subset d.ident hc)
    · exact d.isIdent.isWord c hc
    · rw [List.mem_singleton.1 hc]
      decide
  rw [toList_bareName, param, String.toList_ofList, hname, bare_of_isWord hword]

theorem isReserved_bareName (d : Declared) :
    isReserved d.param.bareName.toList = true ↔ d.isArray = true ∧ isReserved d.ident = true := by
  cases ha : d.isArray with
  | true =>
    rw [bareName_array ha]
    exact (and_iff_right rfl).symm
  | false =>
    rw [bareName_plain ha, isReserved_cleanName]
    simp

end Declared

theorem normalizeLine_ofList (line : List Char) :
    normalizeLine (String.ofList line) = normalText line := by
  unfold normalizeLine normalText
  rw [String.toList_ofList]

/-- The name of an accepted parameter in a call is a reserved word just if the declared name is that
word with parentheses put in. Of the names that are spelled as documented these are the arrays with
a reserved word for an identifier. -/
theorem declaration?_bareName_reserved (limit : Nat) :
    (∀ line p, declaration? line limit = some p →
      (isReserved p.bareName.toList = true ↔
        ∃ word, isReserved word = true ∧ word ≠ p.name.toList ∧
          Parenthesized word p.name.toList)) ∧
    (∀ d line, Spells d line → d.name.length ≤ limit →
      declaration? (normalizeLine (String.ofList line)) limit = some d.param ∧
        (isReserved d.param.bareName.toList = true ↔
          d.isArray = true ∧ isReserved d.ident = true)) := by
  constructor
  · intro line p h
    obtain ⟨before, typed, ha⟩ := exists_of_declaration? h
    rw [toList_bareName]
    exact isReserved_bare_iff ha.isReserved_name
  · intro d line hline hlimit
    rw [normalizeLine_ofList]
    exact ⟨declaration?_spelled hline hlimit, d.isReserved_bareName⟩

/-- The declaration `End() As String` of an array. -/
def endDeclared : Declared where
  ident := ['E', 'n', 'd']
  isArray := true
  type := ['S', 't', 'r', 'i', 'n', 'g']
  isIdent := {
    first := ⟨'E', _, rfl, .inl (by decide)⟩
    chars := List.all_eq_true.1 (by decide)
    free := by decide }
  isType := .keyword (k := ("String", .str)) (by decide) (.inl rfl)

/-- The array keeps its reserved word in a call, and the name without parentheses does not. -/
theorem declaration?_bareName_reserved_end :
    declaration? (normalizeLine "End() As String") 32 = some ⟨"End()", "String"⟩ ∧
    isReserved (Param.bareName ⟨"End()", "String"⟩).toList = true ∧
    declaration? "End As String" 32 = some ⟨"End_", "String"⟩ ∧
    ¬ ∃ word, isReserved word = true ∧ word ≠ "End_".toList ∧ Parenthesized word "End_".toList := by
  have hend : Spells endDeclared "End() As String".toList :=
    @Spells.intro endDeclared [] [] _ [] [] Blanks.nil .nil
      (.word (w := ['A', 's']) connector_blanks (List.cons_ne_nil _ _) rfl connector_blanks
        (List.cons_ne_nil _ _)) Blanks.nil
  obtain ⟨haccepted, hspelled⟩ := declaration?_bareName_reserved 32
  obtain ⟨harray, hreserved⟩ := hspelled endDeclared _ hend (by decide)
  have hplain : declaration? "End As String" 32 = some ⟨"End_", "String"⟩ := by decide +kernel
  refine ⟨harray, hreserved.2 ⟨rfl, by decide⟩, hplain, ?_⟩
  exact mt (haccepted _ _ hplain).2 (by decide)

/-- The parentheses of an array hide a reserved word from the check, and are left out in calls. -/
theorem end_array_reserved : declaration? "end() As Long" 32 = some ⟨"end()", "Long"⟩ ∧
    isReserved (Param.bareName ⟨"end()", "Long"⟩).toList = true := by
  constructor
  · decide +kernel
  · decide

end HelpMiner.Signature
