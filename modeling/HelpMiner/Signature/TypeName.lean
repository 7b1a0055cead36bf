import HelpMiner.Command.HostType
import HelpMiner.Text.Word

/-! Recognition of documented type names at the front of a text. -/
namespace HelpMiner.Signature

/-- Equality of letters up to case. The long s is a lower case of S. -/
def sameLetter (letter c : Char) : Bool :=
  letter.toLower == c.toLower || (letter.toLower == 's' && c == 'ſ')

/-- What follows `word` at the front of `s`, in any letter case. -/
def afterWord? : List Char → List Char → Option (List Char)
  | [], s => some s
  | _ :: _, [] => none
  | l :: word, c :: s => if sameLetter l c then afterWord? word s else none

def atWordEnd : List Char → Bool
  | [] => true
  | c :: _ => !Text.isWord c

/-- A keyword without the underscore that some spellings add. -/
def keywordStem (keyword : String) : List Char := keyword.toList.takeWhile (· != '_')

/-- What follows a keyword, with or without an underscore, that ends a word. -/
def afterKeyword? (keyword : String) (s : List Char) : Option (List Char) :=
  match afterWord? (keywordStem keyword) s with
  | some ('_' :: rest) => if atWordEnd rest then some rest else none
  | some rest => if atWordEnd rest then some rest else none
  | none => none

/-- What follows a type name at the front: a keyword, or the lead of a record's name. -/
def afterType? (s : List Char) : Option (List Char) :=
  match typeKeywords.findSome? fun k => afterKeyword? k.1 s with
  | some rest => some rest
  | none => afterWord? recordLead.toList s

end HelpMiner.Signature
