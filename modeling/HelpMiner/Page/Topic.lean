import HelpMiner.Files.Action
import HelpMiner.Markup.Lexer
import HelpMiner.Page.Section

/-! Reading a help page: spans of a heading class open sections, and text and line breaks fill
them. -/
namespace HelpMiner

structure Topic where
  doc : Doc
  /-- The page has a heading. -/
  keep : Bool
  deriving DecidableEq

namespace Page

open Markup (Token)

/-- Classes of the spans that are headings. -/
def headingClasses : List String := ["ts14", "ts7"]

/-- A span, open or closing itself, with a heading class. -/
def isHeading (t : Token) : Bool :=
  t.isStart "span" && match t.attr? "class" with
    | some classes =>
      (Text.words classes.toList).any fun w => headingClasses.contains (String.ofList w)
    | none => false

/-- A span that has an end tag of its own. -/
def opensSpan : Token → Bool
  | .startTag name _ false => name == "span"
  | _ => false

/-- Blanks stripped from each stretch of text in a section. -/
def isEdgeBlank (c : Char) : Bool := c == ' ' || c == '\t' || c == '\x0b' || c == '\x0c'

/-- Where in a page the reader stands. -/
inductive Position where
  | start
  /-- In a heading: how many spans are open, and the text so far. -/
  | heading (depth : Nat) (text : List Char)
  /-- In the section of a heading: the text so far. -/
  | section (heading : String) (text : List Char)
  | finished
  deriving DecidableEq

/-- A page read in part. -/
structure Reader where
  position : Position
  doc : Doc
  keep : Bool
  deriving DecidableEq

namespace Reader

def initial : Reader := ⟨.start, .empty, false⟩

/-- The sections so far, with the one that is open. An open heading is a section without text. -/
def flushed (r : Reader) : Doc :=
  match r.position with
  | .section heading text =>
    r.doc.insert heading (String.ofList (normalizeChars heading text))
  | .heading _ text => r.doc.insert (String.ofList (Text.trim text)) ""
  | .start | .finished => r.doc

/-- Close the open section at the end of the body. -/
def close (r : Reader) : Reader := ⟨.finished, r.flushed, r.keep⟩

/-- Read a token inside a heading with `depth` open spans. -/
def feedHeading (r : Reader) (depth : Nat) (text : List Char) (t : Token) : Reader :=
  if opensSpan t then { r with position := .heading (depth + 1) text }
  else match t with
    | .endTag name =>
      if name == "span" then
        match depth with
        -- The end of the outermost span ends the heading.
        | 0 | 1 => { r with position := .section (String.ofList (Text.trim text)) [] }
        | d + 1 => { r with position := .heading d text }
      else if name == "body" then r.close
      else r
    | .text content => { r with position := .heading depth (text ++ content.toList) }
    | .startTag .. => r

def extend (r : Reader) (more : List Char) : Reader :=
  match r.position with
  | .section heading text => { r with position := .section heading (text ++ more) }
  | _ => r

def feedSection (r : Reader) (t : Token) : Reader :=
  if isHeading t then ⟨.heading 1 [], r.flushed, true⟩
  else match t with
    | .startTag name .. => if name == "br" then r.extend ['\n'] else r
    | .endTag name => if name == "body" then r.close else r
    | .text content => r.extend (Text.trimWhile isEdgeBlank content.toList ++ [' '])

def feed (r : Reader) (t : Token) : Reader :=
  match r.position with
  | .finished => r
  | .heading depth text => r.feedHeading depth text t
  | .start | .section .. => r.feedSection t

/-- The page as read; its end closes the open section. -/
def finish (r : Reader) : Topic := ⟨r.flushed, r.keep⟩

end Reader

end Page

namespace Topic

def ofTokens (ts : List Markup.Token) : Topic := (ts.foldl Page.Reader.feed .initial).finish

def parse (page : String) : Topic := ofTokens (Markup.tokenize page)

/-- The page of a command in its file. -/
def load (name : String) (p : Path) : Action Topic := do
  match (← get).text p with
  | .ok page => return parse page
  | .error .notFound => throw (.topicNotFound name p)
  | .error why => throw (.io p why)

end Topic

end HelpMiner
