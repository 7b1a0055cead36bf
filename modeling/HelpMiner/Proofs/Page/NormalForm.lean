import HelpMiner.Proofs.Page.ListLine

/-! What the normal form of a section's text is, for lists and for other text. -/
namespace HelpMiner.Page

open Text (isBlank)

/-- `text` is the text `raw` of a section in normal form. -/
structure NormalForm (heading raw text : String) : Prop where
  trimmed : Text.trim text.toList = text.toList
  singleBreaks : SingleBreaks text.toList
  /-- A list stands on one line. -/
  oneLine : isListHeading heading = true → ∀ c ∈ text.toList, isBreak c = false
  /-- The items of a list are its lines that are not blank. -/
  items : isListHeading heading = true →
    text.toList = [',', ' '].intercalate (listItems raw.toList)
  /-- Other text has all its characters but for blanks. -/
  ink : isListHeading heading = false → Page.ink text.toList = Page.ink raw.toList
  stable : normalizeSection heading text = text
  /-- A carriage return before a line feed does not matter. -/
  recoded : ∀ other : String, Recoded raw.toList other.toList →
    normalizeSection heading other = text

/-- The normal form of a list. -/
theorem joinLines_plainText (raw : List Char) :
    Text.trim (joinLines (plainText raw)) = joinLines (plainText raw) ∧
      joinLines (plainText raw) = [',', ' '].intercalate (listItems raw) := by
  by_cases h : plainText raw = []
  · have hitems := listItems_plainText raw
    rw [h] at hitems ⊢
    rw [joinLines_nil, ← hitems]
    exact ⟨rfl, rfl⟩
  · have hinked := Text.inked_trim h
    refine ⟨Text.trim_inked (joinLines_inked hinked), ?_⟩
    rw [← listItems_plainText]
    exact joinLines_eq_items hinked

theorem normalizeChars_stable (heading : String) (raw : List Char) :
    normalizeChars heading (normalizeChars heading raw) = normalizeChars heading raw := by
  rw [normalizeChars_eq heading raw]
  split
  · rename_i hlist
    have hline := isBreak_of_mem_joinLines (plainText raw)
    rw [normalizeChars_eq, if_pos hlist,
      plainText_eq_self (joinLines_plainText raw).1 (singleBreaks_of_forall hline),
      joinLines_line hline]
  · rename_i hlist
    rw [normalizeChars_eq, if_neg hlist,
      plainText_eq_self (trim_plainText raw) (singleBreaks_plainText raw)]

/-- Normalizing gives the normal form, for every heading and every text. -/
theorem normalForm_normalizeSection (heading raw : String) :
    NormalForm heading raw (normalizeSection heading raw) := by
  have hchars : (normalizeSection heading raw).toList = normalizeChars heading raw.toList :=
    String.toList_ofList
  have hform := normalizeChars_eq heading raw.toList
  have hline := isBreak_of_mem_joinLines (plainText raw.toList)
  constructor
  case trimmed =>
    rw [hchars, hform]
    split
    · exact (joinLines_plainText raw.toList).1
    · exact trim_plainText raw.toList
  case singleBreaks =>
    rw [hchars, hform]
    split
    · exact singleBreaks_of_forall hline
    · exact singleBreaks_plainText raw.toList
  case oneLine =>
    intro hlist
    rwa [hchars, hform, if_pos hlist]
  case items =>
    intro hlist
    rw [hchars, hform, if_pos hlist]
    exact (joinLines_plainText raw.toList).2
  case ink =>
    intro hother
    rw [hchars, hform, if_neg (by simp [hother])]
    exact ink_plainText raw.toList
  case stable =>
    apply String.toList_inj.1
    rw [normalizeSection, String.toList_ofList, hchars, normalizeChars_stable]
  case recoded =>
    intro other hother
    rw [normalizeSection, normalizeSection, normalizeChars_eq, hform, hother.plainText]

theorem normalizeSection_usedAsParameter :
    normalizeSection "Used as parameter in" "A \r\n B\nC " = "A, B, C" := by
  have hform := normalForm_normalizeSection "Used as parameter in" "A \n B\nC "
  have hother : Recoded "A \n B\nC ".toList "A \r\n B\nC ".toList :=
    .keep (by decide) <| .keep (by decide) <| .feed <| .keep (by decide) <| .keep (by decide) <|
      .keep (by decide) <| .keep (by decide) <| .keep (by decide) .nil
  have hitems : listItems "A \n B\nC ".toList = [['A'], ['B'], ['C']] := by decide
  rw [hform.recoded _ hother]
  apply String.toList_inj.1
  rw [hform.items (by decide), hitems]
  rfl

end HelpMiner.Page
