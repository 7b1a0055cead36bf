import HelpMiner.Page.Section
import HelpMiner.Table.Sorted
import HelpMiner.Text.Basic

/-! Documentation as plain text for people. -/
namespace HelpMiner

abbrev Docs := SortedTable Doc

namespace Render

/-- Leave out the blanks before each comma. -/
def tightenCommas (s : List Char) : List Char :=
  match _h : s with
  | [] => []
  | c :: rest =>
    if Text.isBlank c && (rest.dropWhile Text.isBlank).head? == some ',' then
      tightenCommas (rest.dropWhile Text.isBlank)
    else c :: tightenCommas rest
termination_by s.length
decreasing_by
  · have := (List.dropWhile_suffix (l := rest) Text.isBlank).length_le
    simp only [List.length_cons]
    omega
  · simp

def indent : String := "  "

/-- Headings of sections whose lines come in pairs, in lower case. -/
def pairedHeadings : List String := ["param", "member"]

/-- A heading whose lines come in pairs: a declaration and its explanation. -/
def isPaired (heading : String) : Bool :=
  pairedHeadings.any fun lead => Text.startsWithLetters lead.toList heading.toList

/-- Lines with their indent; each second line of a pair stands deeper. -/
def indented (paired : Bool) : Bool → List (List Char) → String
  | _, [] => ""
  | second, line :: rest =>
    (if paired && second then indent ++ indent else indent) ++ String.ofList line ++ "\n" ++
      indented paired (!second) rest

def sectionText (heading text : String) : String :=
  "\n" ++ heading ++ ":\n" ++
    indented (isPaired heading) false (Text.cutLines (tightenCommas text.toList))

def rule (c : Char) (width : Nat) : String := String.ofList (List.replicate width c)

/-- The block of one command: its name under a rule of eighty, and its sections. -/
def topic (name : String) (doc : Doc) : String :=
  "\n" ++ rule '=' 80 ++ "\nTOPIC: " ++ name ++ "\n" ++ rule '-' (name.length + 8) ++ "\n" ++
    String.join (doc.entries.map fun e => sectionText e.1 e.2)

/-- The blocks of the named commands that have documentation, in the order of the names. -/
def topics (names : List String) (docs : Docs) : String :=
  String.join (names.filterMap fun name => (docs.get? name).map (topic name))

end Render

end HelpMiner
