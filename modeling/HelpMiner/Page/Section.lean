import HelpMiner.Document.Format
import HelpMiner.Table.Ordered
import HelpMiner.Text.Basic

/-! The sections of a help page: the normal form of their texts (no blank lines, no blank edges,
lists on one line), and the documentation that they make up. -/
namespace HelpMiner

namespace Page

/-- A line feed or a carriage return. -/
def isBreak (c : Char) : Bool := c == '\n' || c == '\r'

def isSpacing (c : Char) : Bool := c == ' ' || c == '\t'

/-- What follows the last break of the blanks at the front, if there is a break among them. -/
def pastBlankBreaks? : List Char → Option (List Char)
  | [] => none
  | c :: rest =>
    if Text.isBlank c then
      match pastBlankBreaks? rest with
      | some r => some r
      | none => if isBreak c then some rest else none
    else none

theorem pastBlankBreaks?_length_lt {s r : List Char} (h : pastBlankBreaks? s = some r) :
    r.length < s.length := by
  induction s with
  | nil => cases h
  | cons c rest ih =>
    unfold pastBlankBreaks? at h
    split at h
    · split at h
      · rename_i r' hr
        have := ih (h ▸ hr)
        simp only [List.length_cons]
        omega
      · split at h
        · cases h
          simp
        · cases h
    · cases h

/-- Put one line feed for each stretch of blanks from a break to a later one. -/
def collapseBlankLines (s : List Char) : List Char :=
  match s with
  | [] => []
  | c :: rest =>
    match _h : if isBreak c then pastBlankBreaks? rest else none with
    | some r => '\n' :: collapseBlankLines r
    | none => c :: collapseBlankLines rest
termination_by s.length
decreasing_by
  · split at _h
    · have := pastBlankBreaks?_length_lt _h
      simp only [List.length_cons]
      omega
    · cases _h
  · simp

/-- What follows a line break, with the spacing before it and the blanks after it. -/
def pastLineBreak? (s : List Char) : Option (List Char) :=
  match s.dropWhile isSpacing with
  | [] => none
  | c :: rest => if isBreak c then some (rest.dropWhile Text.isBlank) else none

theorem pastLineBreak?_length_lt {s r : List Char} (h : pastLineBreak? s = some r) :
    r.length < s.length := by
  have hs := (List.dropWhile_suffix (l := s) isSpacing).length_le
  unfold pastLineBreak? at h
  split at h
  · cases h
  · rename_i c rest hc
    rw [hc] at hs
    split at h
    · have hr := (List.dropWhile_suffix (l := rest) Text.isBlank).length_le
      cases h
      simp only [List.length_cons] at hs
      omega
    · cases h

/-- Put a comma and a space for each line break with the blanks around it. -/
def joinLines (s : List Char) : List Char :=
  match _h : pastLineBreak? s with
  | some r => ',' :: ' ' :: joinLines r
  | none =>
    match s with
    | [] => []
    | c :: rest => c :: joinLines rest
termination_by s.length
decreasing_by
  · exact pastLineBreak?_length_lt _h
  · simp

def listHeadings : List String := ["used as parameter", "see also"]

/-- A heading whose section is a list that stands on one line. -/
def isListHeading (heading : String) : Bool :=
  listHeadings.any fun lead => Text.startsWithLetters lead.toList heading.toList

/-- Section text without blank edges and blank lines; the lines of a list are joined. -/
def normalizeChars (heading : String) (raw : List Char) : List Char :=
  let text := Text.dropBackWhile Text.isBlank (collapseBlankLines (raw.dropWhile Text.isBlank))
  if isListHeading heading then joinLines text else text

/-- The normal form of a section's text. -/
def normalizeSection (heading raw : String) : String :=
  String.ofList (normalizeChars heading raw.toList)

end Page

/-- The documentation of one command: section texts by heading, in the order of their first
    appearance. A heading that comes again replaces the text in place. -/
abbrev Doc := OrderedTable String

instance : Documented Doc where
  shape := .sections
  toValue doc := .map (doc.entries.map fun e => (e.1, .text e.2))
  ofValue? v := do
    let es ← (← v.members?).mapM fun m => m.2.text?.map fun s => (m.1, s)
    some (OrderedTable.ofList es)

end HelpMiner
