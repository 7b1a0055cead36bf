import HelpMiner.Signature.Declaration
import HelpMiner.Page.Section

/-! The interface of a command as its documentation tells it. -/
namespace HelpMiner.Signature

/-- Sections that can hold the parameters. -/
inductive Source where
  | parameters
  | definition
  /-- Free text, read when there is nothing better. -/
  | syntaxText
  deriving DecidableEq, Repr

namespace Source

def heading : Source → String
  | parameters => "Parameters"
  | definition => "Definition"
  | syntaxText => "Syntax"

/-- The first of the sections that the documentation has, with its text. -/
def locate? (doc : Doc) : Option (Source × String) :=
  [parameters, definition, syntaxText].findSome? fun s =>
    (doc.get? s.heading).map fun text => (s, text)

end Source

structure Inference where
  entry : Entry
  /-- The section with the parameters, if there is one. -/
  source : Option Source
  /-- Lines, not empty, that are no declarations. -/
  dropped : List String
  deriving DecidableEq

def Inference.isUncertain (i : Inference) : Bool := i.source == some .syntaxText

/-- The kind of a command: records have their own names, and only functions are assigned. -/
def classify (name : String) (doc : Doc) : Kind :=
  if recordLead.toList.isPrefixOf name.toList then .datastruct
  else match doc.get? "Syntax" with
    | some text => if text.toList.contains '=' then .function else .subroutine
    | none => .unknown

def noDescription : String := "No description found"

def description (doc : Doc) : String :=
  match doc.get? "Description" with
  | some text => String.ofList (Text.trim text.toList)
  | none => noDescription

def normalizedLines (text : String) : List String :=
  (Text.cutLines text.toList).map fun line => String.ofList (normalizeChars line)

/-- The lines that are declarations, read, and the others that are not empty. -/
def readLines (limit : Nat) (lines : List String) : List Param × List String :=
  (lines.filterMap fun line => declaration? line limit,
    lines.filter fun line => (declaration? line limit).isNone && !line.isEmpty)

/-- The interface of the command with this documentation. The first line of a function's
    parameters is its return binding. -/
def infer (name : String) (doc : Doc) (limit : Nat) : Inference :=
  let kind := classify name doc
  let plain := Entry.plain (description doc) kind
  match Source.locate? doc with
  | none => ⟨plain, none, []⟩
  | some (source, text) =>
    let lines := normalizedLines text
    if kind == .function then
      let read := readLines limit lines.tail
      let returns := returnBinding (lines.headD "")
      ⟨{ plain with params := read.1, returns := returns }, some source, read.2⟩
    else
      let read := readLines limit lines
      ⟨{ plain with params := read.1 }, some source, read.2⟩

end HelpMiner.Signature
