import HelpMiner.Build.Draft
import HelpMiner.Proofs.Command.Issue
import HelpMiner.Proofs.Signature.WellFormed
import HelpMiner.Proofs.Table.Ordered
import HelpMiner.Proofs.Table.Sorted

/-! The schema that documentation tells: every entry is well formed, each command is read on its own,
and what is written into the documentation is never read. -/
namespace HelpMiner.Build

open Signature (Inference infer classify Source SameInterface)

/-! ## One command -/

section One

variable (i : Inference) (name : String) (doc : Doc) (limit : Nat)

theorem get?_withReturns {heading : String} (h : heading ≠ returnsHeading) :
    (withReturns i doc).get? heading = doc.get? heading := by
  unfold withReturns
  split
  · rw [OrderedTable.get?_insert, if_neg h]
  · rfl

/-- A return binding that is written is never read. -/
theorem infer_withReturns : infer name (withReturns i doc) limit = infer name doc limit := by
  have hsame : SameInterface doc (withReturns i doc) := by
    intro heading hm
    -- The heading that is written is none of those that tell the interface.
    refine (get?_withReturns i doc ?_).symm
    rintro rfl
    exact absurd hm (by decide)
  have hdescription : Signature.description (withReturns i doc) = Signature.description doc := by
    unfold Signature.description
    rw [get?_withReturns i doc (by decide)]
  rw [Signature.infer_congr hsame, hdescription, ← Signature.infer_description name doc limit]

theorem withReturns_withReturns :
    withReturns i (withReturns i doc) = withReturns i doc := by
  unfold withReturns
  by_cases h : (i.entry.kind == .function && i.source.isSome) = true
  · simp only [h, if_true, OrderedTable.insert_insert]
  · simp only [h, if_false, Bool.false_eq_true]

theorem entryOf_wellFormed {c : Config} {name : String} {i : Inference} (h : i.entry.WellFormed) :
    (entryOf c name i).WellFormed := by
  unfold entryOf
  split
  · exact ⟨h.params, h.returns_length, h.returns_kind, h.returns⟩
  · exact h

end One

/-! ## All commands -/

section All

variable (c : Config) (docs : Docs)

theorem get?_inferAll (name : String) : (inferAll c docs).get? name =
    (docs.get? name).map fun doc => (doc, infer name doc c.nameLimit) :=
  SortedTable.get?_mapValues _ docs name

theorem entries_inferAll : (inferAll c docs).entries =
    docs.entries.map fun e => (e.1, e.2, infer e.1 e.2 c.nameLimit) := rfl

theorem get?_schema (name : String) : (Draft.ofDocs c docs).schema.get? name =
    (docs.get? name).map fun doc => entryOf c name (infer name doc c.nameLimit) := by
  unfold Draft.ofDocs
  rw [SortedTable.get?_mapValues, get?_inferAll, Option.map_map]
  rfl

theorem get?_docs (name : String) : (Draft.ofDocs c docs).docs.get? name =
    (docs.get? name).map fun doc => withReturns (infer name doc c.nameLimit) doc := by
  unfold Draft.ofDocs
  rw [SortedTable.get?_mapValues, get?_inferAll, Option.map_map]
  rfl

theorem keys_schema : (Draft.ofDocs c docs).schema.keys = docs.keys := by
  simp [Draft.ofDocs, inferAll]

theorem keys_docs : (Draft.ofDocs c docs).docs.keys = docs.keys := by
  simp [Draft.ofDocs, inferAll]

theorem uncertain_eq_filter : (Draft.ofDocs c docs).uncertain =
    (docs.entries.filter fun e => (infer e.1 e.2 c.nameLimit).isUncertain).map Prod.fst := by
  simp only [Draft.ofDocs]
  rw [entries_inferAll, List.filter_map, List.map_map]
  rfl

theorem uncertain_ascending : (Draft.ofDocs c docs).uncertain.Pairwise (· < ·) := by
  rw [uncertain_eq_filter]
  exact docs.map_filter_ascending _

theorem mem_uncertain_iff {name : String} : name ∈ (Draft.ofDocs c docs).uncertain ↔
    ∃ doc, docs.get? name = some doc ∧ (infer name doc c.nameLimit).isUncertain = true := by
  rw [uncertain_eq_filter]
  exact SortedTable.mem_map_filter

theorem dropped_eq_sum : (Draft.ofDocs c docs).dropped =
    (docs.entries.map fun e => (infer e.1 e.2 c.nameLimit).dropped.length).sum := by
  simp only [Draft.ofDocs]
  rw [entries_inferAll, List.foldl_map, List.sum_eq_foldl, List.foldl_map]

/-- Documentation with all return bindings is read as the documentation without them. -/
theorem inferAll_docs : inferAll c (Draft.ofDocs c docs).docs =
    (inferAll c docs).mapValues fun _ r => (withReturns r.2 r.1, r.2) := by
  unfold Draft.ofDocs inferAll
  simp only [SortedTable.mapValues_mapValues, infer_withReturns]

/-- A second reading finds what the first found, and writes nothing new. -/
theorem ofDocs_docs : Draft.ofDocs c (Draft.ofDocs c docs).docs = Draft.ofDocs c docs := by
  have hread := inferAll_docs c docs
  have hentries : (inferAll c (Draft.ofDocs c docs).docs).entries =
      (inferAll c docs).entries.map fun e => (e.1, withReturns e.2.2 e.2.1, e.2.2) :=
    congrArg SortedTable.entries hread
  -- All that a draft has of the documentation is what is read of it.
  generalize (Draft.ofDocs c docs).docs = written at hread hentries ⊢
  simp only [Draft.ofDocs, Draft.mk.injEq]
  refine ⟨?_, ?_, ?_, ?_⟩
  · rw [hread, SortedTable.mapValues_mapValues]
  · rw [hread, SortedTable.mapValues_mapValues]
    simp only [withReturns_withReturns]
  · rw [hentries, List.filter_map, List.map_map]
    rfl
  · rw [hentries, List.foldl_map]

end All

/-! ## One command after another -/

/-- The draft before any command is read. -/
def Draft.unread (docs : Docs) : Draft := ⟨.empty, docs, [], 0⟩

/-- Read one command, and change its documentation where it stands. -/
def Draft.visit (c : Config) (d : Draft) (name : String) : Draft :=
  match d.docs.get? name with
  | none => d
  | some doc =>
    let i := infer name doc c.nameLimit
    { schema := d.schema.insert name (entryOf c name i)
      docs := d.docs.insert name (withReturns i doc)
      uncertain := if i.isUncertain then d.uncertain ++ [name] else d.uncertain
      dropped := d.dropped + i.dropped.length }

/-- The draft after these commands: their documentation is changed, and no other. -/
structure Visited (c : Config) (docs : Docs) (es : List (String × Doc)) (d : Draft) : Prop where
  schema : ∀ name, d.schema.get? name =
    if name ∈ es.map Prod.fst then (Draft.ofDocs c docs).schema.get? name else none
  docs : ∀ name, d.docs.get? name =
    if name ∈ es.map Prod.fst then (Draft.ofDocs c docs).docs.get? name else docs.get? name
  uncertain : d.uncertain =
    (es.filter fun e => (infer e.1 e.2 c.nameLimit).isUncertain).map Prod.fst
  dropped : d.dropped = (es.map fun e => (infer e.1 e.2 c.nameLimit).dropped.length).sum

section Visits

variable {c : Config} {docs : Docs} {es : List (String × Doc)} {d : Draft}

/-- A command that is still to come is read from its own documentation, unchanged. -/
theorem Visited.visit {e : String × Doc} (h : Visited c docs es d) (he : e ∈ docs.entries)
    (hnew : e.1 ∉ es.map Prod.fst) : Visited c docs (es ++ [e]) (d.visit c e.1) := by
  have hdoc : docs.get? e.1 = some e.2 := SortedTable.get?_eq_some_iff.2 he
  -- No visit so far has changed the documentation of this command.
  have hfound : d.docs.get? e.1 = some e.2 := by rw [h.docs, if_neg hnew, hdoc]
  have hnames : ∀ name, name ∈ (es ++ [e]).map Prod.fst ↔ name = e.1 ∨ name ∈ es.map Prod.fst := by
    intro name
    rw [List.map_append, List.mem_append, List.map_singleton, List.mem_singleton, or_comm]
  unfold Draft.visit
  simp only [hfound]
  exact {
    schema := by
      intro name
      rw [SortedTable.get?_insert, h.schema, if_congr (hnames name) rfl rfl]
      by_cases hn : name = e.1
      · rw [if_pos hn, if_pos (.inl hn), hn, get?_schema, hdoc, Option.map_some]
      · rw [if_neg hn, if_congr (or_iff_right hn) rfl rfl]
    docs := by
      intro name
      rw [SortedTable.get?_insert, h.docs, if_congr (hnames name) rfl rfl]
      by_cases hn : name = e.1
      · rw [if_pos hn, if_pos (.inl hn), hn, get?_docs, hdoc, Option.map_some]
      · rw [if_neg hn, if_congr (or_iff_right hn) rfl rfl]
    uncertain := by
      cases hu : (infer e.1 e.2 c.nameLimit).isUncertain <;> simp [hu, h.uncertain]
    dropped := by
      rw [h.dropped, List.map_append, List.sum_append, List.map_singleton, List.sum_singleton] }

theorem Visited.foldl {rest : List (String × Doc)} (h : Visited c docs es d)
    (hrest : es ++ rest = docs.entries) :
    Visited c docs docs.entries ((rest.map Prod.fst).foldl (Draft.visit c) d) := by
  induction rest generalizing es d with
  | nil =>
    rw [List.append_nil] at hrest
    exact hrest ▸ h
  | cons e rest ih =>
    have he : e ∈ docs.entries := hrest ▸ List.mem_append_right es List.mem_cons_self
    have hnew : e.1 ∉ es.map Prod.fst := by
      have hnodup : (es.map Prod.fst ++ e.1 :: rest.map Prod.fst).Nodup := by
        rw [← List.map_cons, ← List.map_append, hrest]
        exact docs.keys_nodup
      exact fun hm => (List.nodup_append.1 hnodup).2.2 _ hm _ List.mem_cons_self rfl
    exact ih (h.visit he hnew) (by rw [List.append_assoc, List.singleton_append, hrest])

end Visits

/-- The draft is what reading the commands in their order builds, although each visit changes the
documentation that later visits read. -/
theorem foldl_visit (c : Config) (docs : Docs) :
    docs.keys.foldl (Draft.visit c) (Draft.unread docs) = Draft.ofDocs c docs := by
  have hstart : Visited c docs [] (Draft.unread docs) := {
    schema := fun _ => rfl
    docs := fun _ => rfl
    uncertain := rfl
    dropped := rfl }
  have hend := hstart.foldl (List.nil_append docs.entries)
  have hmissing : ∀ name, name ∉ docs.entries.map Prod.fst → docs.get? name = none :=
    fun name hn => SortedTable.get?_eq_none_iff.2 hn
  have hschema : (docs.keys.foldl (Draft.visit c) (Draft.unread docs)).schema =
      (Draft.ofDocs c docs).schema := by
    refine SortedTable.ext_get? fun name => (hend.schema name).trans ?_
    split
    · rfl
    · rename_i hn
      rw [get?_schema, hmissing name hn, Option.map_none]
  have hdocs : (docs.keys.foldl (Draft.visit c) (Draft.unread docs)).docs =
      (Draft.ofDocs c docs).docs := by
    refine SortedTable.ext_get? fun name => (hend.docs name).trans ?_
    split
    · rfl
    · rename_i hn
      rw [get?_docs, hmissing name hn, Option.map_none]
  have huncertain := hend.uncertain.trans (uncertain_eq_filter c docs).symm
  have hdropped := hend.dropped.trans (dropped_eq_sum c docs).symm
  exact (Draft.mk.injEq ..).mpr ⟨hschema, hdocs, huncertain, hdropped⟩

/-- The draft that documentation tells: what is known of a command follows from its own
documentation, which changes by its return binding alone. -/
structure Told (c : Config) (docs : Docs) (d : Draft) : Prop where
  names : d.schema.keys = docs.keys
  entry : ∀ name doc, docs.get? name = some doc →
    d.schema.get? name = some (
      if c.distributable then
        { (infer name doc c.nameLimit).entry with description := "Wrapper stub for " ++ name }
      else (infer name doc c.nameLimit).entry)
  uncertain_ascending : d.uncertain.Pairwise (· < ·)
  uncertain : ∀ name, name ∈ d.uncertain ↔ ∃ doc, docs.get? name = some doc ∧
    doc.get? "Parameters" = none ∧ doc.get? "Definition" = none ∧ doc.get? "Syntax" ≠ none
  dropped : d.dropped = (docs.entries.map fun e => (infer e.1 e.2 c.nameLimit).dropped.length).sum
  docs_names : d.docs.keys = docs.keys
  docs_function : ∀ name doc, docs.get? name = some doc → classify name doc = .function →
    Source.locate? doc ≠ none → ∃ after, d.docs.get? name = some after ∧
      OrderedTable.Sets "Returns" (infer name doc c.nameLimit).entry.returnsDeclaration doc after
  docs_other : ∀ name doc, docs.get? name = some doc →
    ¬ (classify name doc = .function ∧ Source.locate? doc ≠ none) → d.docs.get? name = some doc

theorem ofDocs_told (c : Config) (docs : Docs) : Told c docs (Draft.ofDocs c docs) where
  names := keys_schema c docs
  entry := by
    intro name doc hd
    rw [get?_schema, hd]
    rfl
  uncertain_ascending := uncertain_ascending c docs
  uncertain := by
    intro name
    simp only [mem_uncertain_iff, Signature.isUncertain_infer_iff]
  dropped := dropped_eq_sum c docs
  docs_names := keys_docs c docs
  docs_function := by
    intro name doc hd hk hs
    have hwritten : withReturns (infer name doc c.nameLimit) doc =
        doc.insert "Returns" (infer name doc c.nameLimit).entry.returnsDeclaration := by
      unfold withReturns
      rw [if_pos]
      · rfl
      · rw [Signature.infer_kind, Signature.infer_source, hk, Option.isSome_map]
        exact Option.isSome_iff_ne_none.2 hs
    refine ⟨_, ?_, OrderedTable.sets_insert doc "Returns" _⟩
    rw [get?_docs, hd, Option.map_some, hwritten]
  docs_other := by
    intro name doc hd hn
    have hunwritten : withReturns (infer name doc c.nameLimit) doc = doc := by
      unfold withReturns
      rw [if_neg]
      rw [Signature.infer_kind, Signature.infer_source, Option.isSome_map, Bool.and_eq_true,
        beq_iff_eq, Option.isSome_iff_ne_none]
      exact hn
    rw [get?_docs, hd, Option.map_some, hunwritten]

/-- Commands are read one after another, from documentation that is changed on the way. Yet each is
read on its own: what other commands say does not matter to it. Reading the documentation again,
with the return bindings in it, tells the same and changes nothing. -/
theorem ofDocs_separate_stable (c : Config) (docs : Docs) :
    docs.keys.foldl (Draft.visit c) (Draft.unread docs) = Draft.ofDocs c docs ∧
    Told c docs (Draft.ofDocs c docs) ∧
    (∀ others name, docs.get? name = others.get? name →
      (Draft.ofDocs c docs).schema.get? name = (Draft.ofDocs c others).schema.get? name ∧
      (Draft.ofDocs c docs).docs.get? name = (Draft.ofDocs c others).docs.get? name) ∧
    Draft.ofDocs c (Draft.ofDocs c docs).docs = Draft.ofDocs c docs := by
  refine ⟨foldl_visit c docs, ofDocs_told c docs, fun others name h => ⟨?_, ?_⟩,
    ofDocs_docs c docs⟩
  · rw [get?_schema, get?_schema, h]
  · rw [get?_docs, get?_docs, h]

/-- Documentation of a function: its return binding is told elsewhere, and prose follows its
parameters. -/
def fillDoc : Doc :=
  ⟨[("Syntax", "n = Fill(as)"), ("Returns", "See below."),
    ("Parameters", "n As Long\nbyVAL as( T_Row )\nNo. 3")], by decide⟩

/-- Documentation of one command. -/
def fillDocs : Docs := ⟨[("Fill", fillDoc)], List.pairwise_singleton _ _⟩

/-- Documentation of the same command and of another one. -/
def pairDocs : Docs := ⟨[("Close", ⟨[("Syntax", "Close n")], by decide⟩), ("Fill", fillDoc)],
  List.pairwise_pair.2 (by decide)⟩

/-- The return binding takes the place of the text that told it, whatever else there is. -/
theorem ofDocs_separate_stable_fill :
    (∃ after, (Draft.ofDocs .default fillDocs).docs.get? "Fill" = some after ∧
      OrderedTable.Sets "Returns" "n As Long" fillDoc after) ∧
    (Draft.ofDocs .default fillDocs).docs.get? "Fill" =
      (Draft.ofDocs .default pairDocs).docs.get? "Fill" := by
  have hr : (infer "Fill" fillDoc Config.default.nameLimit).entry.returnsDeclaration =
      "n As Long" := by decide +kernel
  obtain ⟨-, htold, hseparate, -⟩ := ofDocs_separate_stable .default fillDocs
  constructor
  · rw [← hr]
    exact htold.docs_function "Fill" fillDoc rfl (by decide) (by decide)
  · exact (hseparate pairDocs "Fill" (by decide)).2

/-! ## Well-formed entries -/

/-- Every entry that is read is well formed, and no check finds an empty parameter or too many parts
of a return binding in it. -/
theorem ofDocs_wellFormed (c : Config) (docs : Docs) :
    (∀ name entry, (Draft.ofDocs c docs).schema.get? name = some entry → entry.WellFormed) ∧
    ∀ limit, ∀ issue ∈ (Draft.ofDocs c docs).schema.check limit,
      (∀ command position, issue ≠ .emptyParameter command position) ∧
      ∀ command length, issue ≠ .malformedReturns command length := by
  have hall : ∀ name entry, (Draft.ofDocs c docs).schema.get? name = some entry →
      entry.WellFormed := by
    intro name entry h
    rw [get?_schema] at h
    obtain ⟨doc, -, rfl⟩ := Option.map_eq_some_iff.1 h
    exact entryOf_wellFormed (Signature.infer_wellFormed name doc c.nameLimit)
  refine ⟨hall, fun limit issue hi => ?_⟩
  obtain ⟨⟨name, entry⟩, he, hi⟩ := Schema.mem_check.1 hi
  have hw := hall name entry (SortedTable.get?_eq_some_iff.2 he)
  split at hi
  · rw [hi]
    simp
  · refine ⟨?_, ?_⟩
    · rintro command position rfl
      exact hw.not_emptyParameter hi
    · rintro command length rfl
      exact hw.not_malformedReturns hi

/-- The entry of a function with a reserved name and a line of prose. -/
theorem ofDocs_wellFormed_fill :
    (Draft.ofDocs .default fillDocs).schema.get? "Fill" =
      some ⟨"No description found", [⟨"as_", "T_Row"⟩], ["n", "Long"], .function⟩ ∧
    Entry.WellFormed ⟨"No description found", [⟨"as_", "T_Row"⟩], ["n", "Long"], .function⟩ := by
  have hentry : (Draft.ofDocs .default fillDocs).schema.get? "Fill" =
      some ⟨"No description found", [⟨"as_", "T_Row"⟩], ["n", "Long"], .function⟩ := by
    decide +kernel
  exact ⟨hentry, (ofDocs_wellFormed .default fillDocs).1 "Fill" _ hentry⟩

end HelpMiner.Build
