import HelpMiner.Text.Basic

/-! Markup tokens: start tags with their attributes, end tags, and text. -/
namespace HelpMiner.Markup

/-- One token of a page. Tag and attribute names are in lower case, values and text are decoded. -/
inductive Token where
  | startTag (name : String) (attrs : List (String × String)) (selfClosing : Bool)
  | endTag (name : String)
  | text (content : String)
  deriving DecidableEq, Repr, Inhabited

namespace Token

/-- Value of the first attribute with this name, on a start tag. -/
def attr? (key : String) : Token → Option String
  | startTag _ attrs _ => (attrs.find? fun a => a.1 == key).map (·.2)
  | _ => none

def isStart (tag : String) : Token → Bool
  | startTag name _ _ => name == tag
  | _ => false

def isEnd (tag : String) : Token → Bool
  | endTag name => name == tag
  | _ => false

end Token

end HelpMiner.Markup
