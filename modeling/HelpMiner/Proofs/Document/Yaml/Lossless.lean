import HelpMiner.Document.Yaml.Reader
import HelpMiner.Proofs.Document.Stored
import HelpMiner.Proofs.Document.Yaml.Tree

/-! YAML documents are read as the values they were written for. -/
namespace HelpMiner.Document.Yaml

/-! ## Results -/

/-- A result is a value, whatever aliases can still be followed; none is. -/
def Gives {α : Type} (r : Result α) (a : α) : Prop := ∀ left, r left = .ok (a, left)

namespace Gives

variable {α β : Type} {a : α} {b : β} {r : Result α}

theorem pure (a : α) : Gives (Pure.pure a) a := fun _ => rfl

theorem bind {f : α → Result β} (h : Gives r a) (hf : Gives (f a) b) : Gives (r >>= f) b := by
  intro left
  simp only [Bind.bind, StateT.bind, Except.bind, h left, hf left]

theorem map (h : Gives r a) (f : α → β) : Gives (f <$> r) (f a) := by
  intro left
  simp only [Functor.map, StateT.map, Bind.bind, Except.bind, h left]
  rfl

theorem located (h : Gives r a) (p : Place) : Gives (located p r) a := by
  intro left
  rw [Yaml.located, h left]
  rfl

theorem lift {e : Except Mismatch α} (h : e = .ok a) : Gives (Yaml.lift e) a := by
  rw [h]
  exact fun _ => rfl

end Gives

/-- The node of a value is no alias. -/
theorem follow_nodeOf (t : Tree) (v : Value) : Gives (follow t (nodeOf v)) (nodeOf v) := by
  match v with
  | .null | .bool true | .bool false | .nat _ | .text _ | .list _ | .map _ => exact fun _ => rfl

/-! ## Scalars -/

variable (t : Tree) (depth : Nat) (p : Place)

theorem readText_text (expected s : String) :
    Gives (readText expected t p (nodeOf (.text s))) s :=
  (follow_nodeOf t (.text s)).bind (.pure s)

theorem readBool_bool (b : Bool) : Gives (readBool t p (nodeOf (.bool b))) (.bool b) := by
  refine (follow_nodeOf t (.bool b)).bind ?_
  cases b <;> exact .pure _

theorem based?_toDigits (n : Nat) : based? (Nat.toDigits 10 n) = none := by
  obtain ⟨c, ds, hds, -, hzero⟩ := Text.exists_toDigits_eq_cons n
  rw [hds]
  by_cases hc : c = '0'
  · rw [hc, (hzero hc).2]
    rfl
  · unfold based?
    split
    case h_4 => rfl
    all_goals
      rename_i heq
      exact absurd (List.cons.inj heq).1 hc

theorem hasLeadingZero_toDigits (n : Nat) : hasLeadingZero (Nat.toDigits 10 n) = false := by
  obtain ⟨c, ds, hds, hdigit, hzero⟩ := Text.exists_toDigits_eq_cons n
  have hsign : c ≠ '-' ∧ c ≠ '+' := by
    constructor <;>
      · rintro rfl
        cases hdigit
  rw [hds]
  unfold hasLeadingZero
  by_cases hc : c = '0'
  · rw [hc, (hzero hc).2]
    rfl
  · simp [hsign, hc]

theorem unsigned?_toDigits {n limit : Nat} (hn : n < limit) :
    unsigned? limit (Nat.toDigits 10 n) = some n := by
  obtain ⟨c, ds, hds, hdigit, -⟩ := Text.exists_toDigits_eq_cons n
  have hnatural : natural? 10 (Nat.toDigits 10 n) = some n := by
    rw [natural?, Text.digitsFrom?_toDigits (by decide) (by decide), hds]
    rfl
  have hplus : c ≠ '+' := by
    rintro rfl
    cases hdigit
  have hbased := based?_toDigits n
  have hleading := hasLeadingZero_toDigits n
  rw [hds] at hnatural hbased hleading ⊢
  unfold unsigned?
  simp [hplus, hbased, hleading, hnatural, hn]

theorem readUnsigned_nat (type : String) {n : Nat} (hn : n < Nat.pow 2 64) :
    Gives (readUnsigned type t p (nodeOf (.nat n))) (.nat n) := by
  have hfound : unsigned? (Nat.pow 2 64) (String.ofList (Nat.toDigits 10 n)).toList = some n := by
    rw [String.toList_ofList]
    exact unsigned?_toDigits hn
  refine (follow_nodeOf t (.nat n)).bind ?_
  simp only [nodeOf, isTyped, BEq.rfl, Bool.true_or, if_true, hfound]
  exact .pure _

theorem readChoice_text {names : List String} {s : String} (hs : s ∈ names) :
    Gives (readChoice names t p (nodeOf (.text s))) (.text s) := by
  have hknown : known names s = pure (.text s) := if_pos (List.contains_iff_mem.2 hs)
  have hchosen : chosen names p (nodeOf (.text s)) = located p (known names s) := rfl
  have hread : readChoice names t p (nodeOf (.text s)) = chosen names p (nodeOf (.text s)) := rfl
  rw [hread, hchosen, hknown]
  exact (Gives.pure _).located p

theorem isAmbiguous_of_plain {s : List Char} (h : Form.of s = .plain) : isAmbiguous s = false := by
  unfold Form.of at h
  split_ifs at h with _ _ hplain
  simp only [Bool.and_eq_true, Bool.not_eq_true'] at hplain
  exact hplain.1

theorem isNull_toDigits (n : Nat) : isNull (Nat.toDigits 10 n) = false := by
  obtain ⟨c, ds, hds, hdigit, -⟩ := Text.exists_toDigits_eq_cons n
  have hwords : ∀ w ∈ ["~", "null", "Null", "NULL"], w.toList.head?.any Char.isDigit = false := by
    decide
  refine List.any_eq_false.2 fun w hw he => ?_
  have hword := hwords w hw
  rw [beq_iff_eq.1 he, hds, List.head?_cons, Option.any_some, hdigit] at hword
  cases hword

/-- Only null is written so that it stands for nothing. -/
theorem isAbsent_of_ne_null {v : Value} (hv : v ≠ .null) : Gives (isAbsent (nodeOf v)) false := by
  match v with
  | .null => contradiction
  | .bool true | .bool false | .list _ | .map _ => exact .pure false
  | .nat n =>
    obtain ⟨c, ds, hds, -⟩ := Text.exists_toDigits_eq_cons n
    have habsent : (String.ofList (Nat.toDigits 10 n)).toList.isEmpty = false ∧
        isNull (String.ofList (Nat.toDigits 10 n)).toList = false := by
      rw [String.toList_ofList]
      exact ⟨hds ▸ rfl, isNull_toDigits n⟩
    rw [nodeOf, isAbsent]
    simp only [habsent, Bool.or_self]
    exact .pure false
  | .text s =>
    rw [nodeOf]
    cases hform : Form.of s.toList with
    | plain =>
      -- What stands without quotes is not one of the words for null.
      have hplain := isAmbiguous_of_plain hform
      simp only [isAmbiguous, Bool.or_eq_false_iff] at hplain
      rw [Form.style, isAbsent]
      simp only [hplain, Bool.or_self]
      exact .pure false
    | single | double | block => exact .pure false

/-! ## Lists and maps -/

theorem readPair_texts (a b : String) :
    Gives (readPair t p (nodeOf (.texts [a, b]))) (.texts [a, b]) := by
  refine (follow_nodeOf t (.texts [a, b])).bind (Gives.located ?_ p)
  exact (readText_text t _ _ a).bind ((readText_text t _ _ b).bind (.pure _))

variable {t depth p}

theorem readItems_itemNodes {read : Place → Node → Result Value} {ps : List (Value × Value)}
    (h : ∀ q ∈ ps, ∀ p, Gives (read p (nodeOf q.1)) q.2) (i : Nat) :
    Gives (readItems read p i (itemNodes (ps.map Prod.fst))) (ps.map Prod.snd) := by
  induction ps generalizing i with
  | nil => exact .pure []
  | cons q ps ih =>
    rw [List.forall_mem_cons] at h
    exact (h.1 _).bind ((ih h.2 (i + 1)).bind (.pure _))

theorem readMembers_memberNodes {key : Place → Node → Result String}
    {value : Place → Node → Result Value} {ps : List (String × Value × Value)}
    (hkey : ∀ q ∈ ps, ∀ p, Gives (key p (nodeOf (.text q.1))) q.1)
    (h : ∀ q ∈ ps, ∀ p, Gives (value p (nodeOf q.2.1)) q.2.2) :
    Gives (readMembers key value p (memberNodes (ps.map fun q => (q.1, q.2.1))))
      (ps.map fun q => (q.1, q.2.2)) := by
  induction ps with
  | nil => exact .pure []
  | cons q ps ih =>
    rw [List.forall_mem_cons] at hkey h
    exact (hkey.1 _).bind ((h.1 _).bind ((ih hkey.2 h.2).bind (.pure _)))

theorem readTable_map {expected : String} {key : Tree → Place → Node → Result String}
    {value : Reader} {ps : List (String × Value × Value)}
    (hkey : ∀ q ∈ ps, ∀ p, Gives (key t p (nodeOf (.text q.1))) q.1)
    (h : ∀ q ∈ ps, ∀ p, Gives (value t (depth - 1) p (nodeOf q.2.1)) q.2.2) :
    Gives (readTable expected key value t depth p (nodeOf (.map (ps.map fun q => (q.1, q.2.1)))))
      (.map (ps.map fun q => (q.1, q.2.2))) :=
  (follow_nodeOf t (.map _)).bind
    (Gives.located ((readMembers_memberNodes hkey h).map Value.map) p)

theorem readKey_of_hasKey {key : Shape} {k : String} (h : key.HasKey k) :
    Gives (readKey key t p (nodeOf (.text k))) k := by
  cases key with
  | choice names => exact (readChoice_text t p h).bind (.pure _)
  | _ => exact readText_text t p _ k

/-! ## Records -/

theorem fill_found {fs : List Filled} (homitted : ∀ f ∈ fs, f.OmittedRight)
    {found : List (String × Value)} (h : ∀ f ∈ fs, f.FoundIn found) :
    Gives (fill found (fieldReaders (Filled.fields fs))) (Filled.results fs) := by
  induction fs with
  | nil => exact .pure []
  | cons f fs ih =>
    rw [List.forall_mem_cons] at homitted h
    have hrest := ih homitted.2 h.2
    have hfill : ∀ {value : Result Value}, Gives value f.result →
        Gives (do return (f.name, ← value) :: (← fill found (fieldReaders (Filled.fields fs))))
          (Filled.results (f :: fs)) := fun hvalue => hvalue.bind (hrest.bind (.pure _))
    have hfind := h.1
    rw [Filled.FoundIn] at hfind
    simp only [Filled.fields, List.map_cons, Fields.ofList, fieldReaders, fill, hfind] at hfill ⊢
    cases hw : f.written with
    | some v => exact hfill (.pure _)
    | none =>
      rcases homitted.1 hw with hm | ⟨hm, hr⟩
      · simp only [hm]
        exact hfill (.pure _)
      · simp only [hm]
        exact hfill (hr ▸ .pure _)

theorem fieldReaders_fields (fs : List Filled) :
    fieldReaders (Filled.fields fs) = fs.map fun f => ⟨f.name, f.missing, reader f.shape⟩ := by
  unfold Filled.fields
  induction fs with
  | nil => rfl
  | cons f fs ih => rw [List.map_cons, List.map_cons, ← ih]; rfl

theorem find?_fieldReaders {fs : List Filled} (hnames : (fs.map Filled.name).Nodup) {f : Filled}
    (hf : f ∈ fs) :
    (fieldReaders (Filled.fields fs)).find? (fun r => r.name == f.name) =
      some ⟨f.name, f.missing, reader f.shape⟩ := by
  rw [fieldReaders_fields]
  exact @Filled.find?_map _ FieldReader.name _ (fun _ => rfl) fs hnames f hf

/-- The members that are left of a record are read, given those before them. -/
theorem readFields_memberNodes {closed : Bool} {fs : List Filled}
    (hnames : (fs.map Filled.name).Nodup)
    (h : ∀ f ∈ fs, ∀ v, f.written = some v →
      ∀ p, Gives (reader f.shape t depth p (nodeOf v)) f.result)
    {pre suf : List Filled} (hsplit : pre ++ suf = fs) :
    Gives (readFields closed (fieldReaders (Filled.fields fs)) t depth p (Filled.found pre)
      (memberNodes (Filled.members suf))) (Filled.found fs) := by
  induction suf generalizing pre with
  | nil =>
    rw [List.append_nil] at hsplit
    rw [hsplit]
    exact .pure _
  | cons f suf ih =>
    have hsplit' : pre ++ [f] ++ suf = fs := by rw [← hsplit, List.append_assoc]; rfl
    have hf : f ∈ fs := by simp [← hsplit]
    have hrest := ih hsplit'
    cases hw : f.written with
    | none =>
      rwa [Filled.members_cons_of_none hw, ← Filled.found_concat_of_none hw]
    | some v =>
      have hnew := Filled.any_found_eq_false (hsplit ▸ hnames)
      rw [Filled.found_concat_of_some hw] at hrest
      rw [Filled.members_cons_of_some hw, memberNodes, readFields]
      refine (readText_text t p _ f.name).bind ?_
      simp only [find?_fieldReaders hnames hf, hnew, Bool.false_eq_true, if_false]
      exact (h f hf v hw _).bind hrest

theorem readRecord_map {name : String} {closed : Bool} {fs : List Filled}
    (hnames : (fs.map Filled.name).Nodup) (homitted : ∀ f ∈ fs, f.OmittedRight)
    (h : ∀ f ∈ fs, ∀ v, f.written = some v →
      ∀ p, Gives (reader f.shape t (depth - 1) p (nodeOf v)) f.result) :
    Gives (readRecord name closed (fieldReaders (Filled.fields fs)) t depth p
      (nodeOf (.map (Filled.members fs)))) (.map (Filled.results fs)) := by
  have hfill := fill_found homitted fun f hf => Filled.foundIn_found hnames hf
  have hfields := @readFields_memberNodes t (depth - 1) p closed fs hnames h [] fs rfl
  exact (follow_nodeOf t (.map _)).bind (Gives.located (hfields.bind (hfill.map Value.map)) p)

/-! ## Tagged values -/

theorem plainFound_of_plain {s : List Char} (h : Form.of s = .plain) :
    plainFound s = .string (String.ofList s) := by
  have hplain := isAmbiguous_of_plain h
  simp only [isAmbiguous, Bool.or_eq_false_iff, Option.isSome_eq_false_iff,
    Option.isNone_iff_eq_none] at hplain
  simp only [plainFound, hplain, Bool.or_self, Bool.false_eq_true, if_false]

theorem content_text (t : Tree) (depth : Nat) (p : Place) (s : String) :
    Gives (content t depth p (nodeOf (.text s))) (.text s) := by
  have hscalar : scalarContent none (Form.of s.toList).style s = pure (.text s) := by
    rw [scalarContent, scalarMismatch]
    cases hform : Form.of s.toList with
    | plain =>
      simp only [Form.style, BEq.rfl, if_true, plainFound_of_plain hform, String.ofList_toList]
    | single | double | block => rfl
  have hcontent : content t depth p (nodeOf (.text s)) =
      located p (scalarContent none (Form.of s.toList).style s) := by
    rw [nodeOf]
    delta content
    cases depth <;> rfl
  rw [hcontent, hscalar]
  exact (Gives.pure _).located p

theorem readTagged_tag {tag : String} {variants : List Variant} {v : Variant}
    (hv : Variant.ofTag variants v.tag = .ok v) {ms : List (Node × Node)} {rest : Variant × Content}
    (h : Gives (readTagged tag variants t depth p (some v) [] ms) rest) :
    Gives (readTagged tag variants t depth p none []
      ((nodeOf (.text tag), nodeOf (.text v.tag)) :: ms)) rest := by
  rw [readTagged]
  refine (content_text t depth p tag).bind ?_
  simp only [BEq.rfl, if_true, Option.isSome_none, Bool.false_eq_true, if_false]
  exact (readText_text t _ _ v.tag).bind (((Gives.lift hv).located _).bind h)

theorem readTagged_field {tag field : String} (hne : field ≠ tag) (variants : List Variant)
    (v : Variant) (s : String) :
    Gives (readTagged tag variants t depth p (some v) []
      [(nodeOf (.text field), nodeOf (.text s))]) (v, .map [(.text field, .text s)]) := by
  rw [readTagged]
  refine (content_text t depth p field).bind ?_
  have hother : (field == tag) = false := beq_eq_false_iff_ne.2 hne
  simp only [hother, Bool.false_eq_true, if_false]
  exact (content_text t depth _ s).bind (.pure _)

theorem readVariant_map {name tag : String} {variants : List Variant} {v : Variant}
    (ms : List (String × Value)) {rest : Content} {w : Value}
    (h : Gives (readTagged tag variants t (depth - 1) p none [] (memberNodes ms)) (v, rest))
    (hread : v.read name tag rest = .ok w) :
    Gives (readVariant name tag variants t depth p (nodeOf (.map ms))) w :=
  (follow_nodeOf t (.map ms)).bind ((h.located p).bind (.lift hread))

/-! ## Documents -/

/-- The node of a value of a shape is read as it is to be read, at any place. -/
theorem reader_stored {n : Nat} {shape : Shape} {v w : Value} (h : Stored n shape v w) (t : Tree) :
    ∀ depth p, Gives (reader shape t depth p (nodeOf v)) w := by
  -- Written trees have no aliases, so following a node is the identity, and a level of depth is
  -- used up only where a value has values in it.
  induction h with
  | text s => exact fun depth p => (readText_text t p _ s).map Value.text
  | path s => exact fun depth p => (readText_text t p _ s).map Value.text
  | bool b => exact fun depth p => readBool_bool t p b
  | unsigned hk => exact fun depth p => readUnsigned_nat t p _ hk
  | absent =>
    intro depth p
    rw [reader]
    exact (follow_nodeOf t .null).bind (Gives.bind (.pure true) (.pure Value.null))
  | @present n inner v w hv h ih =>
    intro depth p
    rw [reader]
    exact (follow_nodeOf t v).bind ((isAbsent_of_ne_null hv).bind (ih depth p))
  | list h ih =>
    intro depth p
    rw [reader]
    have hitems := readItems_itemNodes (p := p) (fun q hq p => ih q hq (depth - 1) p) 0
    exact (follow_nodeOf t (.list _)).bind (Gives.located (hitems.map Value.list) p)
  | textPair a b => exact fun depth p => readPair_texts t p a b
  | table hk h ih =>
    intro depth p
    exact readTable_map (fun q hq p => readKey_of_hasKey (hk q hq))
      fun q hq p => ih q hq (depth - 1) p
  | sections ms =>
    -- A table of texts whose values are read without a shape of their own.
    intro depth p
    have htable := @readTable_map t depth p "a mapping from section heading to section text"
      (readText "a string") (fun t _ p n => .text <$> readText "a string" t p n)
      (ms.map fun m => (m.1, .text m.2, .text m.2)) (fun q _ p => readText_text t p _ q.1) (by
        intro q hq p
        obtain ⟨m, -, rfl⟩ := List.mem_map.1 hq
        exact (readText_text t p _ m.2).map Value.text)
    rw [List.map_map, List.map_map] at htable
    exact htable
  | choice hs => exact fun depth p => readChoice_text t p hs
  | @selector n read s u hs =>
    intro depth p
    rw [reader]
    exact (readText_text t p _ s).bind (.lift (by rw [hs]; rfl))
  | record hnames h homitted ih =>
    intro depth p
    exact readRecord_map hnames homitted fun f hf v hv p => ih f hf v hv (depth - 1) p
  | @variant n name tag variants v hv hf =>
    intro depth p
    have hend : Gives (readTagged tag variants t (depth - 1) p (some v) [] []) (v, .map []) :=
      .pure _
    exact readVariant_map [(tag, .text v.tag)] (readTagged_tag hv hend)
      (by simp [Variant.read, hf])
  | @variantWith n name tag field variants v hv hf hne s =>
    intro depth p
    exact readVariant_map [(tag, .text v.tag), (field, .text s)]
      (readTagged_tag hv (readTagged_field hne variants v s))
      (by simp [Variant.read, hf, Content.fieldIn, Content.isField, Content.asText, bind,
        Except.bind])

/-- A map in a document is read as the value that it was written for. -/
theorem read_render {n : Nat} {shape : Shape} {ms : List (String × Value)} {w : Value}
    (h : Stored n shape (.map ms) w) : read shape (render (.map ms)) = .ok w := by
  obtain ⟨t, ht, hroot⟩ := parse?_render ms
  have hread := reader_stored h t maxDepth .root (maxAliases t)
  rw [← hroot] at hread
  simp only [read, ht, hread]

end HelpMiner.Document.Yaml
