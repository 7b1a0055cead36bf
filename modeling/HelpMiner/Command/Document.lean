import HelpMiner.Command.Entry
import HelpMiner.Document.Format

/-! Entries in documents, and schemas in files. -/
namespace HelpMiner

open Document (Value Shape Fields)

def Kind.shape : Shape := .choice (Kind.all.map Kind.name)

def Kind.toValue (k : Kind) : Value := .text k.name

def Kind.ofValue? (v : Value) : Option Kind :=
  v.text?.bind fun s => Kind.all.find? fun k => k.name == s

def Param.toValue (p : Param) : Value := .texts [p.name, p.type]

def Param.ofValue? (v : Value) : Option Param :=
  match v.texts? with
  | some [name, type] => some ⟨name, type⟩
  | _ => none

def Param.listValue (ps : List Param) : Value := .list (ps.map toValue)

def Param.list? (v : Value) : Option (List Param) := v.items?.bind fun vs => vs.mapM ofValue?

instance : Documented Entry where
  shape := .record "CommandEntry" false (Fields.ofList [
    ("descr", .text, .required),
    ("sig", .list .textPair, .required),
    ("returns", .list .text, .required),
    ("cmdtype", Kind.shape, .required)])
  toValue e := .map [
    ("descr", .text e.description),
    ("sig", Param.listValue e.params),
    ("returns", .texts e.returns),
    ("cmdtype", e.kind.toValue)]
  ofValue? v := do
    let description ← (← v.member? "descr").text?
    let params ← Param.list? (← v.member? "sig")
    let returns ← (← v.member? "returns").texts?
    let kind ← Kind.ofValue? (← v.member? "cmdtype")
    some ⟨description, params, returns, kind⟩

namespace Schema

/-- The schema in a file, which has to be there. -/
def loadAs (f : Format) (p : Path) : Action Schema := do
  if (← get).isFile p then f.load p else throw (.schemaNotFound p)

def load (p : Path) : Action Schema := loadAs (.ofPath p) p

end Schema

end HelpMiner
