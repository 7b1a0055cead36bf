import HelpMiner.Document.Content
import HelpMiner.Document.Format
import Mathlib.Data.List.Nodup

/-! Values of a shape, as they are written and as they are read. A format is faithful if it reads
every value of every shape, and this is proved once for each format. -/
namespace HelpMiner.Document

/-- A field of a record, with the value that is written for it, if one is, and the value that is
    read. -/
structure Filled where
  name : String
  shape : Shape
  missing : Missing
  written : Option Value
  result : Value

namespace Filled

/-- A required field. -/
def required (name : String) (shape : Shape) (written result : Value) : Filled :=
  ⟨name, shape, .required, some written, result⟩

/-- The member of a map that is written for a field. -/
def member? (f : Filled) : Option (String × Value) := f.written.map fun v => (f.name, v)

/-- The members that are written for fields. -/
def members (fs : List Filled) : List (String × Value) := fs.filterMap member?

/-- The members that are read for fields. -/
def results (fs : List Filled) : List (String × Value) := fs.map fun f => (f.name, f.result)

/-- The fields as a record has them. -/
def fields (fs : List Filled) : Fields := .ofList (fs.map fun f => (f.name, f.shape, f.missing))

/-- What a reader has of fields once it has read their members. -/
def found (fs : List Filled) : List (String × Value) :=
  fs.filterMap fun f => f.written.map fun _ => (f.name, f.result)

/-- A field that is left out is read as what stands for it. -/
def OmittedRight (f : Filled) : Prop :=
  f.written = none → f.missing = .default f.result ∨ f.missing = .null ∧ f.result = .null

/-- What has been read has the value of a field exactly if one is written for it. -/
def FoundIn (f : Filled) (read : List (String × Value)) : Prop :=
  read.find? (fun m => m.1 == f.name) = f.written.map fun _ => (f.name, f.result)

theorem members_cons_of_none {f : Filled} (hw : f.written = none) (fs : List Filled) :
    members (f :: fs) = members fs := by
  simp [members, member?, hw]

theorem members_cons_of_some {f : Filled} {v : Value} (hw : f.written = some v)
    (fs : List Filled) : members (f :: fs) = (f.name, v) :: members fs := by
  simp [members, member?, hw]

theorem found_concat_of_none {f : Filled} (hw : f.written = none) (fs : List Filled) :
    found (fs ++ [f]) = found fs := by
  simp [found, hw]

theorem found_concat_of_some {f : Filled} {v : Value} (hw : f.written = some v)
    (fs : List Filled) : found (fs ++ [f]) = found fs ++ [(f.name, f.result)] := by
  simp [found, hw]

theorem exists_of_mem_found {m : String × Value} {fs : List Filled} (h : m ∈ found fs) :
    ∃ f ∈ fs, f.written ≠ none ∧ m = (f.name, f.result) := by
  obtain ⟨f, hf, hm⟩ := List.mem_filterMap.1 h
  obtain ⟨v, hv, rfl⟩ := Option.map_eq_some_iff.1 hm
  exact ⟨f, hf, by simp [hv], rfl⟩

/-- What has been read of a field is found by its name, since no other has that name. -/
theorem foundIn_found {fs : List Filled} (hnames : (fs.map name).Nodup) {f : Filled}
    (hf : f ∈ fs) : f.FoundIn (found fs) := by
  unfold FoundIn
  have hsame : ∀ g ∈ fs, g.name = f.name → g = f := fun g hg =>
    List.inj_on_of_nodup_map hnames hg hf
  cases hw : f.written with
  | none =>
    refine List.find?_eq_none.2 fun m hm => ?_
    obtain ⟨g, hg, hgw, rfl⟩ := exists_of_mem_found hm
    intro he
    exact hgw (hsame g hg (beq_iff_eq.1 he) ▸ hw)
  | some v =>
    have hmem : (f.name, f.result) ∈ found fs :=
      List.mem_filterMap.2 ⟨f, hf, by simp [hw]⟩
    cases hfind : (found fs).find? fun m => m.1 == f.name with
    | none => exact absurd (beq_self_eq_true _) (List.find?_eq_none.1 hfind _ hmem)
    | some m =>
      obtain ⟨g, hg, -, rfl⟩ := exists_of_mem_found (List.mem_of_find?_eq_some hfind)
      have he := List.find?_some hfind
      rw [hsame g hg (beq_iff_eq.1 he)]
      rfl

/-- What is made of a field is found by its name, since no other has that name. -/
theorem find?_map {α : Type} {key : α → String} {g : Filled → α} (hkey : ∀ f, key (g f) = f.name)
    {fs : List Filled} (hnames : (fs.map name).Nodup) {f : Filled} (hf : f ∈ fs) :
    (fs.map g).find? (fun r => key r == f.name) = some (g f) := by
  induction fs with
  | nil => cases hf
  | cons first fs ih =>
    rw [List.map_cons, List.nodup_cons] at hnames
    rcases List.mem_cons.1 hf with rfl | hf
    · exact List.find?_cons_of_pos (beq_iff_eq.2 (hkey _))
    · have hne : first.name ≠ f.name := fun he => hnames.1 (he ▸ List.mem_map_of_mem hf)
      rw [List.map_cons, List.find?_cons_of_neg (by simpa [hkey] using hne)]
      exact ih hnames.2 hf

/-- Nothing has been read of a field while those before it are read. -/
theorem any_found_eq_false {pre suf : List Filled} {f : Filled}
    (hnames : ((pre ++ f :: suf).map name).Nodup) :
    (found pre).any (fun m => m.1 == f.name) = false := by
  rw [List.map_append, List.map_cons, List.nodup_append] at hnames
  refine List.any_eq_false.2 fun m hm he => ?_
  obtain ⟨g, hg, -, rfl⟩ := exists_of_mem_found hm
  exact hnames.2.2 _ (List.mem_map_of_mem hg) _ List.mem_cons_self (beq_iff_eq.1 he)

end Filled

/-- A key that a table can have. -/
def Shape.HasKey : Shape → String → Prop
  | .choice names, key => key ∈ names
  | _, _ => True

/-- A value of a shape: as it is written, and as it is read. The number bounds the levels of a
    document that it takes. -/
inductive Stored : Nat → Shape → Value → Value → Prop
  | text {n : Nat} (s : String) : Stored n .text (.text s) (.text s)
  | path {n : Nat} (s : String) : Stored n .path (.text s) (.text s)
  | bool {n : Nat} (b : Bool) : Stored n .bool (.bool b) (.bool b)
  | unsigned {n k : Nat} {type : String} (hk : k < Nat.pow 2 64) :
      Stored n (.unsigned type) (.nat k) (.nat k)
  | absent {n : Nat} {inner : Shape} : Stored n (.optional inner) .null .null
  | present {n : Nat} {inner : Shape} {v w : Value} (hv : v ≠ .null) (h : Stored n inner v w) :
      Stored n (.optional inner) v w
  | list {n : Nat} {item : Shape} {ps : List (Value × Value)}
      (h : ∀ p ∈ ps, Stored n item p.1 p.2) :
      Stored (n + 1) (.list item) (.list (ps.map Prod.fst)) (.list (ps.map Prod.snd))
  | textPair {n : Nat} (a b : String) : Stored n .textPair (.texts [a, b]) (.texts [a, b])
  | table {n : Nat} {key value : Shape} {ps : List (String × Value × Value)}
      (hk : ∀ p ∈ ps, key.HasKey p.1) (h : ∀ p ∈ ps, Stored n value p.2.1 p.2.2) :
      Stored (n + 1) (.table key value) (.map (ps.map fun p => (p.1, p.2.1)))
        (.map (ps.map fun p => (p.1, p.2.2)))
  | sections {n : Nat} (ms : List (String × String)) :
      Stored n .sections (.map (ms.map fun m => (m.1, .text m.2)))
        (.map (ms.map fun m => (m.1, .text m.2)))
  | choice {n : Nat} {names : List String} {s : String} (hs : s ∈ names) :
      Stored n (.choice names) (.text s) (.text s)
  | selector {n : Nat} {read : String → Except String String} {s t : String}
      (hs : read s = .ok t) : Stored n (.selector read) (.text s) (.text t)
  | record {n : Nat} {name : String} {closed : Bool} {fs : List Filled}
      (hnames : (fs.map Filled.name).Nodup)
      (h : ∀ f ∈ fs, ∀ v, f.written = some v → Stored n f.shape v f.result)
      (homitted : ∀ f ∈ fs, f.OmittedRight) :
      Stored (n + 1) (.record name closed (Filled.fields fs)) (.map (Filled.members fs))
        (.map (Filled.results fs))
  | variant {n : Nat} {name tag : String} {variants : List Variant} {v : Variant}
      (hv : Variant.ofTag variants v.tag = .ok v) (hf : v.field = none) :
      Stored (n + 2) (.tagged name tag variants) (v.value tag none) (v.value tag none)
  | variantWith {n : Nat} {name tag field : String} {variants : List Variant} {v : Variant}
      (hv : Variant.ofTag variants v.tag = .ok v) (hf : v.field = some field) (hne : field ≠ tag)
      (s : String) :
      Stored (n + 2) (.tagged name tag variants) (v.value tag (some (field, s)))
        (v.value tag (some (field, s)))

end HelpMiner.Document
