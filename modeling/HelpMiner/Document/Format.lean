import HelpMiner.Document.Json.Reader
import HelpMiner.Document.Json.Writer
import HelpMiner.Document.Yaml.Reader
import HelpMiner.Document.Yaml.Writer
import HelpMiner.Files.Action

/-! The formats of documents, and the types that are kept in documents and their files. -/
namespace HelpMiner

inductive Format where
  | yaml
  | json
  deriving DecidableEq, Repr, Inhabited

namespace Format

/-- The name of a format, which is also the extension of its files. -/
def name : Format → String
  | yaml => "yaml"
  | json => "json"

def ofName? (text : String) : Option Format :=
  let t := Text.lower (Text.trim text.toList)
  if t == "yaml".toList || t == "yml".toList then some yaml
  else if t == "json".toList then some json
  else none

def ofName (text : String) : Except Error Format :=
  match ofName? text with
  | some f => .ok f
  | none => .error (.unsupportedFormat text)

end Format

/-- A type whose values are kept in documents. -/
class Documented (α : Type) where
  shape : Document.Shape
  toValue : α → Document.Value
  /-- The value that something of the shape stands for. -/
  ofValue? : Document.Value → Option α

namespace Format

open Document

def renderValue (f : Format) (v : Value) : String :=
  match f with
  | yaml => Yaml.render v
  | json => Json.render v

def render {α : Type} [Documented α] (f : Format) (a : α) : String :=
  f.renderValue (Documented.toValue a)

def failure : Format → Problem → Error
  | yaml => .yaml
  | json => .json

/-- The value in a document, or the problem with it. -/
def read {α : Type} [Documented α] (f : Format) (text : String) : Except Problem α := do
  let v ← match f with
    | yaml => Yaml.read (Documented.shape α) text
    | json => Json.read (Documented.shape α) text
  match Documented.ofValue? v with
  | some a => .ok a
  | none => .error .malformed

def parse {α : Type} [Documented α] (f : Format) (text : String) : Except Error α :=
  (f.read text).mapError f.failure

def save {α : Type} [Documented α] (f : Format) (p : Path) (a : α) : Action Unit :=
  Action.writeText p (f.render a)

def load {α : Type} [Documented α] (f : Format) (p : Path) : Action α := do
  Action.ofExcept (f.parse (← Action.readText p))

/-- The format of a file by its extension: YAML if that says nothing else. -/
def ofPath (p : Path) : Format :=
  match p.extension? with
  | some ext => if Text.sameLetters "json".toList ext.toList then json else yaml
  | none => yaml

end Format

namespace Document

def Value.ofTable {α : Type} [Documented α] (t : SortedTable α) : Value :=
  .map (t.entries.map fun e => (e.1, Documented.toValue e.2))

/-- The table of a map: the last of equal keys wins. -/
def Value.table? {α : Type} [Documented α] (v : Value) : Option (SortedTable α) := do
  let es ← (← v.members?).mapM fun m => (Documented.ofValue? m.2).map fun a => (m.1, a)
  some (SortedTable.ofList es)

end Document

instance {α : Type} [Documented α] : Documented (SortedTable α) where
  shape := .table .text (Documented.shape α)
  toValue := Document.Value.ofTable
  ofValue? := Document.Value.table?

end HelpMiner
