import HelpMiner.Build.Basic
import HelpMiner.Proofs.Build.Draft
import HelpMiner.Proofs.Command.Kinds
import HelpMiner.Proofs.Contents.Index
import HelpMiner.Proofs.Files.Action
import HelpMiner.Proofs.Override.Amend

/-! What becomes of the topics in a table of contents: each is kept or told to have no heading, and
each that is kept is in the schema, in the counts and in the renderings, once. -/
namespace HelpMiner.Build

open HelpMiner.Action (runOn)
open HelpMiner.Schema (mem_namesOfKind namesOfKind_ascending perm_kinds)

/-! ## The index -/

section Index

variable {dir : Path} {name : String}

theorem mem_topics_ofEntries {es : List ContentsEntry} :
    name ∈ (TopicIndex.ofEntries dir es).topics.keys ↔
      ∃ e ∈ es, isCommandName e.name = true ∧ e.name = name := by
  rw [TopicIndex.mem_keys_ofEntries, List.mem_map]
  constructor
  · rintro ⟨hc, e, he, rfl⟩
    exact ⟨e, he, hc, rfl⟩
  · rintro ⟨e, he, hc, rfl⟩
    exact ⟨hc, e, he, rfl⟩

end Index

/-! ## The pages -/

/-- The pages of an index, as they are when they can be read. -/
def pagesOf (page : Path → String) (index : TopicIndex) : List (String × Topic) :=
  index.topics.entries.map fun e => (e.1, Topic.parse (page e.2))

theorem map_fst_pagesOf (page : Path → String) (index : TopicIndex) :
    (pagesOf page index).map Prod.fst = index.topics.keys := by
  unfold pagesOf
  rw [List.map_map]
  rfl

section Pages

variable {pages : List (String × Topic)} {name : String}

theorem mem_keys_sortPages : name ∈ (sortPages pages).1.keys ↔
    ∃ topic, (name, topic) ∈ pages ∧ topic.keep = true := by
  unfold sortPages
  rw [SortedTable.mem_keys_ofList, List.map_map, List.mem_map]
  constructor
  · rintro ⟨⟨key, topic⟩, hm, rfl⟩
    obtain ⟨hp, hk⟩ := List.mem_filter.1 hm
    exact ⟨topic, hp, hk⟩
  · rintro ⟨topic, hp, hk⟩
    exact ⟨(name, topic), List.mem_filter.2 ⟨hp, hk⟩, rfl⟩

theorem mem_sortPages_snd : name ∈ (sortPages pages).2 ↔
    ∃ topic, (name, topic) ∈ pages ∧ topic.keep = false := by
  unfold sortPages
  rw [List.mem_map]
  constructor
  · rintro ⟨⟨key, topic⟩, hm, rfl⟩
    obtain ⟨hp, hk⟩ := List.mem_filter.1 hm
    exact ⟨topic, hp, by simpa using hk⟩
  · rintro ⟨topic, hp, hk⟩
    exact ⟨(name, topic), List.mem_filter.2 ⟨hp, by simpa using hk⟩, rfl⟩

variable (hnodup : (pages.map Prod.fst).Nodup)

include hnodup

theorem nodup_sortPages_snd : (sortPages pages).2.Nodup :=
  hnodup.sublist (List.filter_sublist.map Prod.fst)

/-- No page has a heading and has none. -/
theorem not_mem_sortPages_snd (h : name ∈ (sortPages pages).1.keys) :
    name ∉ (sortPages pages).2 := by
  intro hm
  obtain ⟨kept, hkept, hk⟩ := mem_keys_sortPages.1 h
  obtain ⟨dropped, hdropped, hd⟩ := mem_sortPages_snd.1 hm
  have hsame := List.inj_on_of_nodup_map hnodup hkept hdropped rfl
  rw [(Prod.mk.inj hsame).2, hd] at hk
  cases hk

theorem size_sortPages : (sortPages pages).1.size + (sortPages pages).2.length = pages.length := by
  have hkept : (((pages.filter fun e => e.2.keep).map fun e => (e.1, e.2.doc)).map
      Prod.fst).Nodup := by
    rw [List.map_map]
    exact hnodup.sublist (List.filter_sublist.map Prod.fst)
  unfold sortPages
  rw [SortedTable.size_ofList hkept, List.length_map, List.length_map]
  exact (List.length_eq_length_filter_add fun e : String × Topic => e.2.keep).symm

end Pages

/-! ## Renderings -/

/-- What a build takes from an extraction and from a schema with its overrides. -/
structure Assembled (c : Config) (x : Extraction) (s : Schema) (b : Build) : Prop where
  rawSchema : b.rawSchema = (Draft.ofDocs c x.docs).schema
  schema : b.schema = s
  docs : b.docs = publishedDocs c (Draft.ofDocs c x.docs).docs
  indexed : b.report.topicsIndexed = x.index.topics.size
  kept : b.report.topicsKept = b.docs.size
  withoutHeadings : b.report.withoutHeadings = x.withoutHeadings
  kindCounts : b.report.kindCounts = .ofSchema s

theorem exists_assembled {c : Config} {x : Extraction} (now : String) {table : OverrideTable}
    {r : Schema × Nat} (h : table.apply (Draft.ofDocs c x.docs).schema = .ok r) :
    ∃ b, ofExtraction c now table x = .ok b ∧ Assembled c x r.1 b := by
  unfold ofExtraction
  simp only [h]
  exact ⟨_, rfl, rfl, rfl, rfl, rfl, rfl, rfl, rfl⟩

theorem keys_publishedDocs (c : Config) (docs : Docs) : (publishedDocs c docs).keys = docs.keys := by
  unfold publishedDocs
  split
  · exact SortedTable.keys_mapValues _ docs
  · rfl

/-- Every indexed topic is kept or told to have no heading, and not both. -/
structure TopicsAccounted (es : List ContentsEntry) (page : Path → String) (x : Extraction)
    (b : Build) : Prop where
  indexed : ∀ name, name ∈ x.index.topics.keys ↔
    ∃ e ∈ es, isCommandName e.name = true ∧ e.name = name
  kept : ∀ name, name ∈ b.docs.keys ↔ ∃ path, (name, path) ∈ x.index.topics.entries ∧
    (Topic.parse (page path)).keep = true
  dropped : ∀ name, name ∈ b.report.withoutHeadings ↔ ∃ path,
    (name, path) ∈ x.index.topics.entries ∧ (Topic.parse (page path)).keep = false
  partition : ∀ name, name ∈ x.index.topics.keys ↔
    name ∈ b.docs.keys ∨ name ∈ b.report.withoutHeadings
  apart : ∀ name ∈ b.docs.keys, name ∉ b.report.withoutHeadings
  dropped_nodup : b.report.withoutHeadings.Nodup
  topicsIndexed : b.report.topicsIndexed = x.index.topics.size
  topicsKept : b.report.topicsKept = b.docs.size
  counts : b.report.topicsIndexed = b.report.topicsKept + b.report.withoutHeadings.length

/-- The schemas are about the kept topics, and the kinds are counted over them. -/
structure NamesAccounted (table : OverrideTable) (b : Build) : Prop where
  raw : b.rawSchema.keys = b.docs.keys
  final : b.schema.keys = b.docs.keys
  amended : OverrideTable.Amended table b.rawSchema b.schema
  kinds : ∀ k, b.report.kindCounts.get? k = some (b.schema.namesOfKind k).length
  sum : (b.report.kindCounts.toList.map Prod.snd).sum = b.report.topicsKept

section Build

variable {c : Config} {es : List ContentsEntry} {page : Path → String} {x : Extraction}
  {table : OverrideTable} {s : Schema} {b : Build}

theorem Assembled.keys_docs (h : Assembled c x s b) : b.docs.keys = x.docs.keys := by
  rw [h.docs, keys_publishedDocs, Build.keys_docs]

theorem exists_pagesOf (page : Path → String) (index : TopicIndex) (name : String) (keep : Bool) :
    (∃ topic, (name, topic) ∈ pagesOf page index ∧ topic.keep = keep) ↔
      ∃ path, (name, path) ∈ index.topics.entries ∧ (Topic.parse (page path)).keep = keep := by
  simp [pagesOf]

/-- The page of an indexed topic has a heading or has none. -/
theorem mem_topics_iff_keep (page : Path → String) (index : TopicIndex) (name : String) :
    name ∈ index.topics.keys ↔
      (∃ path, (name, path) ∈ index.topics.entries ∧ (Topic.parse (page path)).keep = true) ∨
      ∃ path, (name, path) ∈ index.topics.entries ∧ (Topic.parse (page path)).keep = false := by
  rw [← exists_or, OrderedTable.keys, List.mem_map]
  constructor
  · rintro ⟨⟨key, path⟩, hm, rfl⟩
    refine ⟨path, ?_⟩
    cases hk : (Topic.parse (page path)).keep with
    | true => exact Or.inl ⟨hm, rfl⟩
    | false => exact Or.inr ⟨hm, rfl⟩
  · rintro ⟨path, ⟨hm, -⟩ | ⟨hm, -⟩⟩
    · exact ⟨(name, path), hm, rfl⟩
    · exact ⟨(name, path), hm, rfl⟩

theorem nodup_pagesOf (page : Path → String) (index : TopicIndex) :
    ((pagesOf page index).map Prod.fst).Nodup := by
  rw [map_fst_pagesOf]
  exact index.topics.nodup

theorem Assembled.topics (h : Assembled c x s b)
    (hindex : x.index = TopicIndex.ofEntries c.htmlPath es)
    (hsorted : (x.docs, x.withoutHeadings) = sortPages (pagesOf page x.index)) :
    TopicsAccounted es page x b := by
  have hdocs : x.docs = (sortPages (pagesOf page x.index)).1 := congrArg Prod.fst hsorted
  have hheadless : x.withoutHeadings = (sortPages (pagesOf page x.index)).2 :=
    congrArg Prod.snd hsorted
  have hnodup := nodup_pagesOf page x.index
  have hkeys := h.keys_docs.trans (congrArg SortedTable.keys hdocs)
  have hwithout := h.withoutHeadings.trans hheadless
  have hkept : ∀ name, name ∈ b.docs.keys ↔ ∃ path, (name, path) ∈ x.index.topics.entries ∧
      (Topic.parse (page path)).keep = true := by
    intro name
    rw [hkeys, mem_keys_sortPages, exists_pagesOf]
  have hdropped : ∀ name, name ∈ b.report.withoutHeadings ↔ ∃ path,
      (name, path) ∈ x.index.topics.entries ∧ (Topic.parse (page path)).keep = false := by
    intro name
    rw [hwithout, mem_sortPages_snd, exists_pagesOf]
  have hsize : b.docs.size + b.report.withoutHeadings.length = x.index.topics.size := by
    have hdocsSize : b.docs.size = (sortPages (pagesOf page x.index)).1.size := by
      rw [← SortedTable.length_keys, hkeys, SortedTable.length_keys]
    have hpages : (pagesOf page x.index).length = x.index.topics.size := List.length_map _
    rw [hdocsSize, hwithout, size_sortPages hnodup, hpages]
  exact {
    indexed := fun name => by rw [hindex, mem_topics_ofEntries]
    kept := hkept
    dropped := hdropped
    partition := fun name => by rw [hkept, hdropped, ← mem_topics_iff_keep]
    apart := by
      intro name hm
      rw [hkeys] at hm
      rw [hwithout]
      exact not_mem_sortPages_snd hnodup hm
    dropped_nodup := by
      rw [hwithout]
      exact nodup_sortPages_snd hnodup
    topicsIndexed := h.indexed
    topicsKept := h.kept
    counts := by rw [h.indexed, h.kept, hsize] }

theorem Assembled.names (h : Assembled c x (table.patchAll (Draft.ofDocs c x.docs).schema).1 b)
    (hknown : ∀ name ∈ table.keys, name ∈ x.docs.keys) : NamesAccounted table b := by
  have hfinal : b.schema.keys = b.docs.keys := by
    rw [h.schema, OverrideTable.patchAll_keys, keys_schema, h.keys_docs]
  have hcounts : b.report.kindCounts = .ofSchema b.schema := by rw [h.kindCounts, h.schema]
  constructor
  · rw [h.rawSchema, keys_schema, h.keys_docs]
  · exact hfinal
  · rw [h.rawSchema, h.schema]
    apply OverrideTable.patchAll_amended
    rwa [keys_schema]
  · intro k
    rw [hcounts]
    cases k <;> rfl
  · have hlist : (KindCounts.ofSchema b.schema).toList.map Prod.snd =
        Kind.all.map fun k => (b.schema.namesOfKind k).length := rfl
    rw [hcounts, hlist, ← List.length_flatMap, (perm_kinds b.schema).length_eq, hfinal, h.kept,
      SortedTable.length_keys]

end Build

end HelpMiner.Build
