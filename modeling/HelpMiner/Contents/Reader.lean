import HelpMiner.Contents.Document
import HelpMiner.Markup.Lexer

/-! Reading a table of contents, in either of its two layouts. -/
namespace HelpMiner.Contents

open Markup (Token)

/-- How a table of contents is laid out. -/
inductive Layout where
  /-- Objects with a name and a target among their parameters. -/
  | objects
  | links
  deriving DecidableEq, Repr, Inhabited

namespace Layout

def name : Layout → String
  | objects => "objects"
  | links => "links"

def ofName? (text : String) : Option Layout :=
  [objects, links].find? fun l => l.name.toList == Text.lower (Text.trim text.toList)

end Layout

/-- The parameters of an object that matter. -/
structure Node where
  name : Option String
  target : Option String
  deriving DecidableEq

structure Link where
  target : Option String
  text : List Char
  deriving DecidableEq

/-- A table of contents read in part: the open object and anchor, and the entries so far. -/
structure Reader where
  node : Option Node
  objects : List ContentsEntry
  link : Option Link
  links : List ContentsEntry
  deriving DecidableEq

namespace Node

def blank : Node := ⟨none, none⟩

def take (n : Node) (param : Token) : Node :=
  match param.attr? "name", param.attr? "value" with
  | some key, some value =>
    if Text.sameLetters "name".toList key.toList then { n with name := some value }
    else if Text.sameLetters "local".toList key.toList then { n with target := some value }
    else n
  | _, _ => n

/-- The entry of an object with a name and a target. -/
def entry? (n : Node) : Option ContentsEntry :=
  match n.name, n.target with
  | some name, some target => some ⟨name, target⟩
  | _, _ => none

end Node

def Link.entry? (l : Link) : Option ContentsEntry :=
  match l.target with
  | some target => if target.isEmpty then none else some ⟨String.ofList (Text.trim l.text), target⟩
  | none => none

namespace Reader

def initial : Reader := ⟨none, [], none, []⟩

def openTag (r : Reader) (name : String) (t : Token) : Reader :=
  if name == "object" then { r with node := some .blank }
  else if name == "param" then { r with node := r.node.map (·.take t) }
  else if name == "a" then { r with link := some ⟨t.attr? "href", []⟩ }
  else r

def closeTag (r : Reader) (name : String) : Reader :=
  if name == "object" then
    { r with node := none, objects := r.objects ++ (r.node.bind Node.entry?).toList }
  else if name == "a" then
    { r with link := none, links := r.links ++ (r.link.bind Link.entry?).toList }
  else r

def feed (r : Reader) (t : Token) : Reader :=
  match t with
  | .startTag name .. => r.openTag name t
  | .endTag name => r.closeTag name
  | .text content =>
    { r with link := r.link.map fun l => { l with text := l.text ++ content.toList } }

def entries (r : Reader) : Layout → List ContentsEntry
  | .objects => r.objects
  | .links => r.links

end Reader

def ofTokens (layout : Layout) (ts : List Token) : List ContentsEntry :=
  (ts.foldl Reader.feed .initial).entries layout

def parse (layout : Layout) (page : String) : List ContentsEntry :=
  ofTokens layout (Markup.tokenize page)

end HelpMiner.Contents
