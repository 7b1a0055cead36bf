import HelpMiner.Contents.Index
import HelpMiner.Proofs.Files.Parent
import HelpMiner.Proofs.Table.Ordered

/-! The index of a table of contents has each command of it once, in order of first appearance, with
the page that it names last. Every page is under the directory of the pages. -/
namespace HelpMiner.TopicIndex

/-! ## The page of a target -/

/-- How a target names a page. -/
structure PageText (target page : String) : Prop where
  /-- The page stands before the anchor, with slashes only, and after any slashes in front. -/
  cut : ∃ file anchor slashes : List Char, target.toList = file ++ anchor ∧ '#' ∉ file ∧
    (∀ c ∈ anchor.head?, c = '#') ∧ (∀ c ∈ slashes, c = '/') ∧
    file.map (fun c => if c = '\\' then '/' else c) = slashes ++ page.toList
  no_anchor : '#' ∉ page.toList
  no_backslash : '\\' ∉ page.toList
  relative : Path.isAbsolute ⟨page⟩ = false

theorem toList_localPath (target : String) : (localPath target).text.toList =
    ((target.toList.takeWhile (· != '#')).map fun c => if c == '\\' then '/' else c).dropWhile
      (· == '/') := String.toList_ofList

theorem mem_localPath {target : String} {c : Char} (h : c ∈ (localPath target).text.toList) :
    c ≠ '#' ∧ c ≠ '\\' := by
  rw [toList_localPath] at h
  obtain ⟨d, hd, rfl⟩ := List.mem_map.1 ((List.dropWhile_suffix _).subset h)
  have hanchor : d ≠ '#' := by simpa using List.mem_takeWhile_imp hd
  by_cases hb : d = '\\'
  · simp [hb]
  · simp [hb, hanchor]

theorem isAbsolute_localPath (target : String) : (localPath target).isAbsolute = false := by
  unfold Path.isAbsolute
  rw [beq_eq_false_iff_ne, toList_localPath]
  intro hh
  have hstop := List.head?_dropWhile_not (· == '/')
    ((target.toList.takeWhile (· != '#')).map fun c => if c == '\\' then '/' else c)
  simp only [hh] at hstop
  cases hstop

theorem pageText_localPath (target : String) : PageText target (localPath target).text where
  cut := by
    let file := target.toList.takeWhile (· != '#')
    let slashed := file.map fun c => if c == '\\' then '/' else c
    refine ⟨file, target.toList.dropWhile (· != '#'), slashed.takeWhile (· == '/'),
      List.takeWhile_append_dropWhile.symm, ?_, ?_, ?_, ?_⟩
    · exact fun h => absurd (List.mem_takeWhile_imp h) (by decide)
    · intro c hc
      have hstop := List.head?_dropWhile_not (· != '#') target.toList
      rw [Option.mem_def.1 hc] at hstop
      simpa using hstop
    · intro c hc
      simpa using List.mem_takeWhile_imp hc
    · rw [toList_localPath, List.takeWhile_append_dropWhile]
      simp only [slashed, file, beq_iff_eq]
  no_anchor h := (mem_localPath h).1 rfl
  no_backslash h := (mem_localPath h).2 rfl
  relative := isAbsolute_localPath target

/-! ## The entries of an index -/

/-- The commands of a table of contents with their pages, in order and with repetitions. -/
def pages (dir : Path) (es : List ContentsEntry) : List (String × Path) :=
  (es.filter fun e => isCommandName e.name).map fun e => (e.name, dir.join (localPath e.target))

theorem foldl_add (dir : Path) (es : List ContentsEntry) (index : TopicIndex) :
    es.foldl (add dir) index =
      ⟨(pages dir es).foldl (fun t e => t.insert e.1 e.2) index.topics,
        index.bypassed ++ (es.map (·.name)).filter fun name => !isCommandName name⟩ := by
  induction es generalizing index with
  | nil => simp [pages]
  | cons e rest ih =>
    rw [List.foldl_cons, ih]
    by_cases hc : isCommandName e.name = true
    · simp [add, pages, hc]
    · simp [add, pages, hc]

theorem ofEntries_eq (dir : Path) (es : List ContentsEntry) :
    ofEntries dir es = ⟨.ofList (pages dir es),
      (es.map (·.name)).filter fun name => !isCommandName name⟩ := foldl_add dir es empty

theorem map_fst_pages (dir : Path) (es : List ContentsEntry) :
    (pages dir es).map Prod.fst = (es.map (·.name)).filter isCommandName := by
  unfold pages
  rw [List.map_map, List.filter_map]
  rfl

theorem keys_ofEntries (dir : Path) (es : List ContentsEntry) : (ofEntries dir es).topics.keys =
    ((es.map (·.name)).filter isCommandName).eraseDups := by
  rw [ofEntries_eq, OrderedTable.keys_ofList, map_fst_pages]

theorem mem_keys_ofEntries {dir : Path} {es : List ContentsEntry} {name : String} :
    name ∈ (ofEntries dir es).topics.keys ↔
      isCommandName name = true ∧ name ∈ es.map (·.name) := by
  rw [keys_ofEntries, List.mem_eraseDups, List.mem_filter, and_comm]

/-- The page of a command is that of the last entry with its name. -/
theorem exists_last_entry {dir : Path} {es : List ContentsEntry} {name : String} {path : Path}
    (h : (name, path) ∈ (ofEntries dir es).topics.entries) :
    ∃ before e after, es = before ++ e :: after ∧ e.name = name ∧ name ∉ after.map (·.name) ∧
      path = dir.join (localPath e.target) := by
  have hget := OrderedTable.get?_eq_some_iff.2 h
  rw [ofEntries_eq, OrderedTable.get?_ofList] at hget
  obtain ⟨front, back, hsplit, hback⟩ := exists_of_lastValue? hget
  obtain ⟨front', rest, hfilter, -, hrest⟩ := List.map_eq_append_iff.1 hsplit
  obtain ⟨e, back', rfl, he, rfl⟩ := List.map_eq_cons_iff.1 hrest
  obtain ⟨before, tail, rfl, -, htail⟩ := List.filter_eq_append_iff.1 hfilter
  obtain ⟨middle, after, rfl, -, hcommand, rfl⟩ := List.filter_eq_cons_iff.1 htail
  obtain ⟨rfl, rfl⟩ := Prod.mk.inj he
  refine ⟨before ++ middle, e, after, by simp, rfl, ?_, rfl⟩
  -- A later entry with this name would be a command too, and so have a later page.
  intro hm
  obtain ⟨x, hx, hname⟩ := List.mem_map.1 hm
  apply hback
  rw [List.map_map]
  exact List.mem_map.2 ⟨x, List.mem_filter.2 ⟨hx, by rwa [hname]⟩, hname⟩

/-- What an index is for a table of contents whose pages are under `dir`. -/
structure Indexes (dir : Path) (es : List ContentsEntry) (index : TopicIndex) : Prop where
  distinct : index.topics.keys.Nodup
  commands : ∀ name, name ∈ index.topics.keys ↔
    isCommandName name = true ∧ name ∈ es.map (·.name)
  order : index.topics.keys = ((es.map (·.name)).filter isCommandName).eraseDups
  bypassed : index.bypassed = (es.map (·.name)).filter fun name => !isCommandName name
  found : ∀ name path, (name, path) ∈ index.topics.entries ↔ index.topics.get? name = some path
  last : ∀ name path, (name, path) ∈ index.topics.entries → ∃ before e after page,
    es = before ++ e :: after ∧ e.name = name ∧ name ∉ after.map (·.name) ∧
      PageText e.target page ∧ path = dir.join ⟨page⟩
  inside : ∀ name path, (name, path) ∈ index.topics.entries →
    dir.text.toList <+: path.text.toList ∧ dir.components <+: path.components

theorem ofEntries_indexes (dir : Path) (es : List ContentsEntry) :
    Indexes dir es (ofEntries dir es) where
  distinct := (ofEntries dir es).topics.nodup
  commands _ := mem_keys_ofEntries
  order := keys_ofEntries dir es
  bypassed := by rw [ofEntries_eq]
  found _ _ := OrderedTable.get?_eq_some_iff.symm
  last := by
    intro name path hm
    obtain ⟨before, e, after, hes, hname, hafter, hpath⟩ := exists_last_entry hm
    exact ⟨before, e, after, _, hes, hname, hafter, pageText_localPath e.target, hpath⟩
  inside := by
    intro name path hm
    obtain ⟨-, e, -, -, -, -, rfl⟩ := exists_last_entry hm
    have hrel := isAbsolute_localPath e.target
    obtain ⟨rest, htext⟩ := dir.exists_text_join hrel
    refine ⟨?_, dir.components_prefix_join hrel⟩
    rw [htext, String.toList_append]
    exact List.prefix_append _ _

end HelpMiner.TopicIndex
