import HelpMiner.Text.Quoted

/-! What can be wrong with a document: it is malformed, or it does not have the expected shape. -/
namespace HelpMiner.Document

/-- What stands in a document where something else was expected. -/
inductive Found where
  | bool (b : Bool)
  | integer (n : Int)
  /-- An integer beyond 64 bits, with the name of the width that holds it. -/
  | wideInteger (n : Int) (width : String)
  /-- A number with a fraction or an exponent, by its decimal text. -/
  | real (text : String)
  | string (s : String)
  /-- A value that is not there, by the name the format gives to it. -/
  | absent (name : String)
  | sequence
  | map
  | enumeration
  deriving DecidableEq, Repr, Inhabited

def Found.describe : Found → String
  | bool b => "boolean `" ++ (if b then "true" else "false") ++ "`"
  | integer n => "integer `" ++ toString n ++ "`"
  | wideInteger n width => "integer `" ++ toString n ++ "` as " ++ width
  | real text => "floating point `" ++ text ++ "`"
  | string s => "string " ++ Text.quoted s
  | absent name => name
  | sequence => "sequence"
  | map => "map"
  | enumeration => "enum"

/-- Why a well-formed document does not have the expected shape. -/
inductive Mismatch where
  | wrongType (found : Found) (expected : String)
  | wrongValue (found : Found) (expected : String)
  | wrongLength (length : Nat) (expected : String)
  | unknownVariant (name : String) (known : List String)
  | unknownField (name : String) (known : List String)
  | missingField (name : String)
  | duplicateField (name : String)
  /-- The text of a selector names none of its values; the message says so. -/
  | refused (message : String)
  deriving DecidableEq, Repr

def ticked (name : String) : String := "`" ++ name ++ "`"

def choices : List String → String
  | [a] => ticked a
  | [a, b] => ticked a ++ " or " ++ ticked b
  | names => "one of " ++ ", ".intercalate (names.map ticked)

def Mismatch.message : Mismatch → String
  | wrongType found expected => "invalid type: " ++ found.describe ++ ", expected " ++ expected
  | wrongValue found expected => "invalid value: " ++ found.describe ++ ", expected " ++ expected
  | wrongLength n expected => "invalid length " ++ toString n ++ ", expected " ++ expected
  | unknownVariant name known => "unknown variant " ++ ticked name ++ ", expected " ++ choices known
  | unknownField name known => "unknown field " ++ ticked name ++ ", expected " ++ choices known
  | missingField name => "missing field " ++ ticked name
  | duplicateField name => "duplicate field " ++ ticked name
  | refused message => message

inductive Problem where
  | malformed
  /-- The text ends inside a value. -/
  | unfinished
  /-- A value does not have the expected shape; its path is told unless it is the whole. -/
  | mismatch (path : Option String) (why : Mismatch)
  deriving DecidableEq, Repr

/-- The words for a problem. A malformed document has none here: only its kind is told. -/
def Problem.message : Problem → String
  | malformed => "malformed document"
  | unfinished => "unexpected end of document"
  | mismatch none why => why.message
  | mismatch (some path) why => path ++ ": " ++ why.message

end HelpMiner.Document
