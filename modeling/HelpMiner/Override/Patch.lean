import HelpMiner.Command.Document

/-! Corrections of one entry, field by field. -/
namespace HelpMiner

open Document (Value Fields Missing)

/-- The fields of an entry that are replaced. -/
structure Patch where
  description : Option String
  params : Option (List Param)
  returns : Option (List String)
  kind : Option Kind
  deriving DecidableEq, Repr, Inhabited

namespace Patch

def empty : Patch := ⟨none, none, none, none⟩

def isEmpty (p : Patch) : Bool :=
  p.description.isNone && p.params.isNone && p.returns.isNone && p.kind.isNone

/-- An entry with the fields of the patch in place of its own. -/
def apply (p : Patch) (e : Entry) : Entry where
  description := p.description.getD e.description
  params := p.params.getD e.params
  returns := p.returns.getD e.returns
  kind := p.kind.getD e.kind

/-- The members of a patch: those that replace something. -/
def members (p : Patch) : List (String × Value) :=
  (p.description.toList.map fun s => ("descr", .text s)) ++
    (p.params.toList.map fun ps => ("sig", Param.listValue ps)) ++
    (p.returns.toList.map fun rs => ("returns", .texts rs)) ++
    (p.kind.toList.map fun k => ("cmdtype", k.toValue))

/-- The part of a value that stands for a member, or for its absence. -/
def part? {α : Type} (read : Value → Option α) (name : String) (v : Value) : Option (Option α) :=
  match v.member? name with
  | some m => m.optional? read
  | none => some none

end Patch

instance : Documented Patch where
  shape := .record "CommandOverride" true (Fields.ofList [
    ("descr", .optional .text, .default .null),
    ("sig", .optional (.list .textPair), .default .null),
    ("returns", .optional (.list .text), .default .null),
    ("cmdtype", .optional Kind.shape, .default .null)])
  toValue p := .map p.members
  ofValue? v := do
    let description ← Patch.part? Value.text? "descr" v
    let params ← Patch.part? Param.list? "sig" v
    let returns ← Patch.part? Value.texts? "returns" v
    let kind ← Patch.part? Kind.ofValue? "cmdtype" v
    some ⟨description, params, returns, kind⟩

end HelpMiner
