import HelpMiner.Proofs.Files.Writing
import HelpMiner.Proofs.Stub.Layout
import HelpMiner.Stub.File

/-! The stub directory after a run: a stub for each command that can be called, no stub of any other
command, and everything else as it was. -/
namespace HelpMiner.Stub

open HelpMiner.Action (runOn Apart Wrote Cleared)
open FileTree (Same)
open HelpMiner.Path (IsName)

variable (c : Config) (s : Schema)

/-! ## Which stubs there are -/

/-- The commands of a schema that can be called, ascending. -/
def callable : List String := (s.entries.filter fun e => e.2.kind.isCallable).map Prod.fst

/-- The file name of the stub of a command. -/
def fileName (command : String) : String := command ++ "." ++ c.stubExtension

theorem fileName_inj {m n : String} : fileName c m = fileName c n ↔ m = n := by simp [fileName]

theorem isSome_shape (e : Entry) : (Shape.ofEntry? e).isSome = e.kind.isCallable := by
  cases hk : e.kind.isCallable with
  | true =>
    obtain ⟨shape, hs, -⟩ := exists_policy "" hk
    rw [hs]
    rfl
  | false =>
    obtain ⟨description, params, returns, kind⟩ := e
    cases kind with
    | function => cases hk
    | subroutine => cases hk
    | datastruct => rfl
    | unknown => rfl

theorem isSome_source (n : String) (e : Entry) (columns : Nat) :
    (source? n e columns).isSome = e.kind.isCallable := by
  rw [source?, Option.isSome_map, isSome_shape]

theorem mem_callable {n : String} :
    n ∈ callable s ↔ ∃ e, s.get? n = some e ∧ e.kind.isCallable = true :=
  SortedTable.mem_map_filter

theorem exists_source {n : String} (h : n ∈ callable s) :
    ∃ e text, s.get? n = some e ∧ source? n e c.wrapColumns = some text := by
  obtain ⟨e, he, hk⟩ := (mem_callable s).1 h
  obtain ⟨text, hsource⟩ := Option.isSome_iff_exists.1 ((isSome_source n e c.wrapColumns).trans hk)
  exact ⟨e, text, he, hsource⟩

theorem callable_ascending : (callable s).Pairwise (· < ·) := s.map_filter_ascending _

theorem mem_skipped {n : String} :
    n ∈ skipped s ↔ ∃ e, s.get? n = some e ∧ e.kind.isCallable = false := by
  have hnone : ∀ e : Entry, (Shape.ofEntry? e).isNone = true ↔ e.kind.isCallable = false := by
    intro e
    rw [← isSome_shape, Option.isSome_eq_false_iff]
  unfold skipped
  simp only [← hnone]
  exact SortedTable.mem_map_filter

theorem mem_keys_of_callable {n : String} (h : n ∈ callable s) : n ∈ s.keys := by
  obtain ⟨e, he, -⟩ := (mem_callable s).1 h
  exact SortedTable.mem_keys_iff.2 ⟨e, he⟩

theorem no_slash_fileName (hnames : ∀ n ∈ s.keys, '/' ∉ n.toList)
    (hext : '/' ∉ c.stubExtension.toList) :
    ∀ command ∈ callable s, '/' ∉ (fileName c command).toList := by
  intro command hm
  have hname := hnames command (mem_keys_of_callable s hm)
  simp [fileName, hname, hext]

theorem map_fst_sources : (sources c s).map Prod.fst = (callable s).map c.stubPath := by
  unfold sources callable
  rw [List.map_filterMap, List.map_map]
  induction s.entries with
  | nil => rfl
  | cons e rest ih =>
    have hshape := isSome_shape e.2
    cases hs : Shape.ofEntry? e.2 with
    | none =>
      rw [hs] at hshape
      have hsource : source? e.1 e.2 c.wrapColumns = none := by simp [source?, hs]
      rw [List.filterMap_cons_none (by simp [hsource]),
        List.filter_cons_of_neg (by simp [← hshape]), ih]
    | some shape =>
      rw [hs] at hshape
      obtain ⟨text, hsource⟩ : ∃ text, source? e.1 e.2 c.wrapColumns = some text := by
        simp [source?, hs]
      rw [List.filterMap_cons_some (b := c.stubPath e.1) (by simp [hsource]),
        List.filter_cons_of_pos (by simp [← hshape]), List.map_cons, ih]
      rfl

theorem exists_command_of_mem_sources {e : Path × String} (he : e ∈ sources c s) :
    ∃ command ∈ callable s, e.1 = c.stubPath command := by
  have hpath := List.mem_map_of_mem (f := Prod.fst) he
  rw [map_fst_sources] at hpath
  obtain ⟨command, hm, hfst⟩ := List.mem_map.1 hpath
  exact ⟨command, hm, hfst.symm⟩

theorem mem_sources {p : Path} {text : String} : (p, text) ∈ sources c s ↔
    ∃ n e, s.get? n = some e ∧ source? n e c.wrapColumns = some text ∧ p = c.stubPath n := by
  unfold sources
  rw [List.mem_filterMap]
  constructor
  · rintro ⟨⟨n, e⟩, hm, hs⟩
    obtain ⟨body, hbody, hpair⟩ := Option.map_eq_some_iff.1 hs
    cases hpair
    exact ⟨n, e, SortedTable.get?_eq_some_iff.2 hm, hbody, rfl⟩
  · rintro ⟨n, e, he, hs, rfl⟩
    exact ⟨(n, e), SortedTable.get?_eq_some_iff.1 he, by simp [hs]⟩

/-! ## What is stale -/

section Stale

variable {c s} {t u : FileTree} {written removed : List Path}

/-- The names in a directory that `staleIn` keeps. -/
def staleNames (c : Config) (written : List Path) (t : FileTree) (names : List String) :
    List String :=
  names.filter fun n =>
    t.isFile (c.stubsPath.join ⟨n⟩) && isStub c (c.stubsPath.join ⟨n⟩) &&
      !written.any (c.stubsPath.join ⟨n⟩).same

theorem staleIn_eq_map (names : List String) : staleIn c written t names =
    (staleNames c written t names).map fun n => c.stubsPath.join ⟨n⟩ := by
  unfold staleIn staleNames
  rw [List.filter_map]
  rfl

/-- To look for stale stubs changes nothing. Without a directory there are none. -/
theorem stale_ok (h : runOn t (stale c written) = (.ok removed, u)) : u = t ∧
    (t.list c.stubsPath = .error .notFound ∧ removed = [] ∨
      ∃ nodes, t.list c.stubsPath = .ok nodes ∧ removed = staleIn c written t nodes.keys) := by
  unfold stale at h
  rw [Action.runOn_bind_ok (Action.runOn_get t)] at h
  split at h
  · rename_i hl
    cases h
    exact ⟨rfl, Or.inl ⟨hl, rfl⟩⟩
  · cases h
  · rename_i nodes hl
    cases h
    exact ⟨rfl, Or.inr ⟨nodes, hl, rfl⟩⟩

theorem stale_eq_nil (h : t.list c.stubsPath = .error .notFound ∨
    ∃ nodes, t.list c.stubsPath = .ok nodes ∧ staleIn c written t nodes.keys = []) :
    runOn t (stale c written) = (.ok [], t) := by
  unfold stale
  rw [Action.runOn_bind_ok (Action.runOn_get t)]
  obtain hl | ⟨nodes, hl, hnone⟩ := h
  · rw [hl]
    rfl
  · rw [hl]
    simp only [hnone]
    rfl

end Stale

/-! ## One run -/

/-- A file in the stub directory, as it was before a run, that ends like a stub and is none of a
command that can be called. -/
structure IsStale (c : Config) (s : Schema) (t after : FileTree) (n : String) : Prop where
  isName : IsName n
  here : ∃ place bytes, after.locate (c.stubsPath.join ⟨n⟩) = .ok place ∧
    t.at? place = some (.file bytes)
  isStub : isStub c ⟨n⟩ = true
  other : ∀ command ∈ callable s, n ≠ fileName c command

/-- A run with the tree in its middle: all stubs are written, none is removed. -/
structure Run (c : Config) (s : Schema) (t mid : FileTree) (names : List String)
    (after : FileTree) : Prop where
  wrote : Wrote (sources c s) t mid
  stale : mid.list c.stubsPath = .error .notFound ∧ names = [] ∨
    ∃ nodes, mid.list c.stubsPath = .ok nodes ∧
      names = staleNames c ((callable s).map c.stubPath) mid nodes.keys
  cleared : Cleared (names.map fun n => c.stubsPath.join ⟨n⟩) mid after

/-- A place that is as it was, apart from a new directory, holds the same file. -/
theorem file_iff_of_wrote {u v : FileTree} {place : Place} {bytes : ByteArray}
    (h : v.at? place = u.at? place ∨ u.at? place = none ∧ v.at? place = some .dir) :
    v.at? place = some (.file bytes) ↔ u.at? place = some (.file bytes) := by
  obtain hsame | ⟨hnone, hdir⟩ := h
  · rw [hsame]
  · simp [hnone, hdir]

/-! ## All stubs are written -/

section Written

variable {c s} {t mid : FileTree} (w : Wrote (sources c s) t mid)
  (hslash : ∀ command ∈ callable s, '/' ∉ (fileName c command).toList)

include w hslash in
theorem isName_fileName {command : String} (h : command ∈ callable s) :
    IsName (fileName c command) := by
  have hpath : c.stubPath command ∈ (sources c s).map Prod.fst := by
    rw [map_fst_sources]
    exact List.mem_map_of_mem h
  obtain ⟨e, he, hfst⟩ := List.mem_map.1 hpath
  have hends := w.endsInName e he
  rw [hfst] at hends
  exact Path.EndsInName.isName c.stubsPath (hslash command h) hends

include w hslash in
theorem any_same {n : String} (hn : IsName n) :
    ((callable s).map c.stubPath).any (c.stubsPath.join ⟨n⟩).same = true ↔
      ∃ command ∈ callable s, n = fileName c command := by
  rw [List.any_map, List.any_eq_true]
  constructor
  · rintro ⟨command, hm, hsame⟩
    have hname := isName_fileName w hslash hm
    exact ⟨command, hm, (Path.same_join_iff c.stubsPath hn hname).1 hsame⟩
  · rintro ⟨command, hm, rfl⟩
    exact ⟨command, hm, (Path.same_join_iff c.stubsPath hn hn).2 rfl⟩

theorem isStub_join {n : String} (hn : IsName n) :
    isStub c (c.stubsPath.join ⟨n⟩) = isStub c ⟨n⟩ := by
  unfold Stub.isStub
  rw [Path.extension?_join c.stubsPath hn]

include w hslash in
/-- A written path leads to a stub of the schema. -/
theorem exists_of_mem_sources {e : Path × String} (he : e ∈ sources c s) {u : FileTree}
    {place : Place} (hl : u.locate e.1 = .ok place) :
    ∃ command ∈ callable s, ∃ dir, u.base c.stubsPath = .ok dir ∧
      place = dir ++ [fileName c command] := by
  obtain ⟨command, hm, hpath⟩ := exists_command_of_mem_sources c s he
  rw [hpath] at hl
  obtain ⟨dir, hdir, -, hplace⟩ := FileTree.locate_join (isName_fileName w hslash hm) hl
  exact ⟨command, hm, dir, hdir, hplace⟩

include w hslash in
/-- No written path leads to another name in the stub directory. -/
theorem locate_ne_of_other {n : String} (hn : IsName n)
    (hother : ∀ command ∈ callable s, n ≠ fileName c command) {u : FileTree} {place : Place}
    (hl : u.locate (c.stubsPath.join ⟨n⟩) = .ok place) :
    ∀ e ∈ sources c s, u.locate e.1 ≠ .ok place := by
  intro e he hle
  obtain ⟨command, hm, dir, hdir, rfl⟩ := exists_of_mem_sources w hslash he hle
  obtain ⟨next, hnext, -, hplace⟩ := FileTree.locate_join hn hl
  exact hother command hm (FileTree.name_inj hplace).symm

variable (hproper : t.Proper) {nodes : SortedTable FileNode}
  (hlist : mid.list c.stubsPath = .ok nodes) {n : String}

include w hproper hlist in
theorem isName_of_mem_keys (hn : n ∈ nodes.keys) : IsName n := by
  obtain ⟨dir, -, -, rfl⟩ := FileTree.list_eq_ok.1 hlist
  exact w.proper hproper (dir ++ [n]) (FileTree.mem_keys_children.1 hn) n (by simp)

include w hslash hproper hlist in
/-- What is to be removed was there before the stubs were written, and is none of them. -/
theorem isStale_of_mem_staleNames
    (hn : n ∈ staleNames c ((callable s).map c.stubPath) mid nodes.keys) :
    c.stubsPath.text ≠ "" ∧ IsStale c s t mid n := by
  obtain ⟨hkey, hstale⟩ := List.mem_filter.1 hn
  have hname := isName_of_mem_keys w hproper hlist hkey
  simp only [Bool.and_eq_true, Bool.not_eq_true', ← Bool.not_eq_true] at hstale
  obtain ⟨⟨hfile, hstub⟩, hwritten⟩ := hstale
  rw [any_same w hslash hname, not_exists] at hwritten
  have hother : ∀ command ∈ callable s, n ≠ fileName c command :=
    fun command hm he => hwritten command ⟨hm, he⟩
  obtain ⟨place, bytes, hl, ha⟩ := FileTree.isFile_iff.1 hfile
  obtain ⟨dir, hdir, -, -⟩ := FileTree.list_eq_ok.1 hlist
  have hplain := w.at? place (locate_ne_of_other w hslash hname hother hl)
  refine ⟨(FileTree.locate_eq_ok.1 hdir).1.not_empty, hname, ?_, ?_, hother⟩
  · exact ⟨place, bytes, hl, (file_iff_of_wrote hplain).1 ha⟩
  · rwa [← isStub_join hname]

end Written

/-! ## What is stale is removed -/

namespace Run

variable {c s} {t mid after : FileTree} {names : List String} (r : Run c s t mid names after)
  (hproper : t.Proper) (hslash : ∀ command ∈ callable s, '/' ∉ (fileName c command).toList)

include r hproper hslash in
/-- What is removed was stale. -/
theorem isStale_of_mem_names {n : String} (hn : n ∈ names) :
    c.stubsPath.text ≠ "" ∧ IsStale c s t after n := by
  obtain ⟨-, rfl⟩ | ⟨nodes, hlist, rfl⟩ := r.stale
  · cases hn
  · obtain ⟨hempty, hname, ⟨place, bytes, hl, ha⟩, hstub, hother⟩ :=
      isStale_of_mem_staleNames r.wrote hslash hproper hlist hn
    exact ⟨hempty, hname, ⟨place, bytes, r.cleared.keepsDirs.locate hl, ha⟩, hstub, hother⟩

include r hslash in
/-- What was stale is removed, unless the path of the directory is empty. -/
theorem mem_names_of_isStale {n : String} (hempty : c.stubsPath.text ≠ "")
    (hstale : IsStale c s t after n) : n ∈ names := by
  obtain ⟨hname, ⟨place, bytes, hl, ha⟩, hstub, hother⟩ := hstale
  have hmid := r.cleared.keepsDirs_back.locate hl
  have hplain := r.wrote.at? place (locate_ne_of_other r.wrote hslash hname hother hmid)
  have hfile := (file_iff_of_wrote hplain).2 ha
  obtain ⟨dir, hbase, hd, rfl⟩ := FileTree.locate_join hname hmid
  have husable := (FileTree.locate_eq_ok.1 hmid).1.of_join hname.no_slash hempty
  have hlist : mid.list c.stubsPath = .ok (mid.children dir) :=
    FileTree.list_eq_ok.2 ⟨dir, FileTree.locate_of_base husable hbase hd, hd, rfl⟩
  obtain ⟨hnone, -⟩ | ⟨nodes, hnodes, rfl⟩ := r.stale
  · rw [hlist] at hnone
    cases hnone
  · rw [hlist] at hnodes
    cases hnodes
    have hwritten : ¬ ((callable s).map c.stubPath).any (c.stubsPath.join ⟨n⟩).same = true := by
      rw [any_same r.wrote hslash hname]
      rintro ⟨command, hm, he⟩
      exact hother command hm he
    refine List.mem_filter.2 ⟨FileTree.mem_keys_children.2 (by rw [hfile]; nofun), ?_⟩
    rw [isStub_join hname, hstub, FileTree.isFile_iff.2 ⟨_, bytes, hmid, hfile⟩,
      Bool.eq_false_of_not_eq_true hwritten]
    rfl

include r hproper hslash in
/-- A stub that was written is not removed. -/
theorem locate_ne_of_removed {e : Path × String} (he : e ∈ sources c s) {place : Place}
    (hl : after.locate e.1 = .ok place) :
    ∀ p ∈ names.map fun n => c.stubsPath.join ⟨n⟩, after.locate p ≠ .ok place := by
  intro p hp
  obtain ⟨n, hn, rfl⟩ := List.mem_map.1 hp
  obtain ⟨-, hstale⟩ := r.isStale_of_mem_names hproper hslash hn
  intro hremoved
  exact locate_ne_of_other r.wrote hslash hstale.isName hstale.other hremoved e he hl

include r hproper hslash in
theorem content {e : Path × String} (he : e ∈ sources c s) :
    ∃ place, after.locate e.1 = .ok place ∧ after.at? place = some (.file e.2.toUTF8) := by
  obtain ⟨place, hl, ha⟩ := r.wrote.content e he
  have hafter := r.cleared.keepsDirs.locate hl
  refine ⟨place, hafter, ?_⟩
  rw [r.cleared.at? place (r.locate_ne_of_removed hproper hslash he hafter), ha]

include r in
/-- A place to which no written and no removed path leads is as it was, unless it is a directory
that had to be made. -/
theorem untouched {place : Place} (hwritten : ∀ e ∈ sources c s, after.locate e.1 ≠ .ok place)
    (hremoved : ∀ n ∈ names, after.locate (c.stubsPath.join ⟨n⟩) ≠ .ok place) :
    after.at? place = t.at? place ∨ t.at? place = none ∧ after.at? place = some .dir := by
  rw [r.cleared.at? place]
  · exact r.wrote.at? place fun e he hl => hwritten e he (r.cleared.keepsDirs.locate hl)
  · intro p hp
    obtain ⟨n, hn, rfl⟩ := List.mem_map.1 hp
    exact hremoved n hn

include r in
/-- After a run there is nothing to remove. -/
theorem nothing_stale {again : FileTree} (hsame : Same after again) :
    runOn again (Stub.stale c ((callable s).map c.stubPath)) = (.ok [], again) := by
  apply stale_eq_nil
  obtain ⟨hlist, rfl⟩ | ⟨nodes, hlist, rfl⟩ := r.stale
  · left
    have hleft : Same mid after :=
      ⟨r.cleared.keepsDirs.current, fun place => r.cleared.at? place (List.forall_mem_nil _)⟩
    exact (hleft.trans hsame).list_notFound hlist
  · right
    have hkeeps := r.cleared.keepsDirs.trans hsame.keepsDirs
    obtain ⟨dir, hdir, hd, rfl⟩ := FileTree.list_eq_ok.1 hlist
    refine ⟨again.children dir,
      FileTree.list_eq_ok.2 ⟨dir, hkeeps.locate hdir, hkeeps.dir dir hd, rfl⟩, ?_⟩
    rw [staleIn_eq_map, List.map_eq_nil_iff]
    refine List.filter_eq_nil_iff.2 fun n hn hstale => ?_
    simp only [Bool.and_eq_true] at hstale
    obtain ⟨⟨hfile, hstub⟩, hwritten⟩ := hstale
    obtain ⟨place, bytes, hl, ha⟩ := FileTree.isFile_iff.1 hfile
    rw [hsame.locate] at hl
    rw [hsame.at?] at ha
    -- A stale stub was in the directory before the removal, and so it was removed.
    have hkey : n ∈ (mid.children dir).keys := by
      rw [FileTree.mem_keys_children, hsame.at?] at hn
      rw [FileTree.mem_keys_children, ← r.cleared.at?_of_ne_none hn]
      exact hn
    have hmid : mid.at? place = some (.file bytes) := by
      rw [← r.cleared.at?_of_ne_none (by rw [ha]; nofun), ha]
    have hmem : n ∈ staleNames c ((callable s).map c.stubPath) mid (mid.children dir).keys := by
      refine List.mem_filter.2 ⟨hkey, ?_⟩
      rw [FileTree.isFile_iff.2 ⟨place, bytes, r.cleared.keepsDirs_back.locate hl, hmid⟩, hstub,
        hwritten]
      rfl
    obtain ⟨other, hother, hnone⟩ := r.cleared.cleared _ (List.mem_map_of_mem hmem)
    rw [hl] at hother
    rw [← Except.ok.inj hother, ha] at hnone
    cases hnone

end Run

section Result

variable {c s} {t after : FileTree} {done : Summary}

theorem sources_apart (hslash : ∀ command ∈ callable s, '/' ∉ (fileName c command).toList) :
    (sources c s).Pairwise fun a b => Apart a.1 b.1 := by
  have hpaths : ((sources c s).map Prod.fst).Pairwise Apart := by
    rw [map_fst_sources, List.pairwise_map]
    refine (callable_ascending s).imp_of_mem fun {m n} hm hn hlt => ?_
    refine Action.apart_join (hslash m hm) (hslash n hn) fun he => ?_
    exact String.lt_irrefl n ((fileName_inj c).1 he ▸ hlt)
  exact List.pairwise_map.1 hpaths

/-- A run ends well if all its parts do: the writing, the look for stale stubs and their removal. -/
theorem writeAll_eq_ok : runOn t (writeAll c s) = (.ok done, after) ↔ ∃ mid removed,
    runOn t ((sources c s).forM fun e => Action.writeText e.1 e.2) = (.ok (), mid) ∧
      runOn mid (stale c ((callable s).map c.stubPath)) = (.ok removed, mid) ∧
      runOn mid (removed.forM Action.removeFile) = (.ok (), after) ∧
      done = ⟨(callable s).map c.stubPath, skipped s, removed⟩ := by
  constructor
  · intro h
    obtain ⟨_, mid, hwrite, h⟩ := Action.exists_of_bind_ok h
    simp only [map_fst_sources] at h
    obtain ⟨removed, u, hstale, h⟩ := Action.exists_of_bind_ok h
    obtain ⟨_, v, hremove, hdone⟩ := Action.exists_of_bind_ok h
    cases hdone
    obtain ⟨rfl, -⟩ := stale_ok hstale
    exact ⟨u, removed, hwrite, hstale, hremove, rfl⟩
  · rintro ⟨mid, removed, hwrite, hstale, hremove, rfl⟩
    unfold writeAll
    rw [Action.runOn_bind_ok hwrite]
    simp only [map_fst_sources]
    rw [Action.runOn_bind_ok hstale, Action.runOn_bind_ok hremove]
    rfl

/-- A run that ends well has written all stubs and then removed the stale ones. -/
theorem exists_run (hslash : ∀ command ∈ callable s, '/' ∉ (fileName c command).toList)
    (h : runOn t (writeAll c s) = (.ok done, after)) : ∃ mid names,
      runOn t ((sources c s).forM fun e => Action.writeText e.1 e.2) = (.ok (), mid) ∧
      Run c s t mid names after ∧ names.Pairwise (· < ·) ∧
      done = ⟨(callable s).map c.stubPath, skipped s, names.map fun n => c.stubsPath.join ⟨n⟩⟩ := by
  obtain ⟨mid, removed, hwrite, hstale, hremove, rfl⟩ := writeAll_eq_ok.1 h
  have hwrote := Action.wrote_forM (sources_apart hslash) hwrite
  have hcleared := Action.cleared_forM hremove
  obtain ⟨-, ⟨hlist, rfl⟩ | ⟨nodes, hlist, rfl⟩⟩ := stale_ok hstale
  · exact ⟨mid, [], hwrite, ⟨hwrote, Or.inl ⟨hlist, rfl⟩, hcleared⟩, List.Pairwise.nil, rfl⟩
  · rw [staleIn_eq_map] at hcleared ⊢
    exact ⟨mid, _, hwrite, ⟨hwrote, Or.inr ⟨nodes, hlist, rfl⟩, hcleared⟩,
      nodes.keys_ascending.filter _, rfl⟩

end Result

/-- The stub directory after a run on `t`, and what the run tells of it. -/
structure Exact (c : Config) (s : Schema) (t : FileTree) (done : Summary) (after : FileTree) :
    Prop where
  written : ∃ names : List String, names.Pairwise (· < ·) ∧
    (∀ n, n ∈ names ↔ ∃ e, s.get? n = some e ∧ e.kind.isCallable = true) ∧
    done.written = names.map c.stubPath
  content : ∀ n e, s.get? n = some e → e.kind.isCallable = true →
    ∃ text, source? n e c.wrapColumns = some text ∧ after.text (c.stubPath n) = .ok text
  skipped : done.skipped.Pairwise (· < ·) ∧
    ∀ n, n ∈ done.skipped ↔ ∃ e, s.get? n = some e ∧ e.kind.isCallable = false
  removed : ∃ names : List String, names.Pairwise (· < ·) ∧
    (∀ n, n ∈ names ↔ c.stubsPath.text ≠ "" ∧ IsStale c s t after n) ∧
    done.removed = names.map fun n => c.stubsPath.join ⟨n⟩
  gone : ∀ p ∈ done.removed, after.find p = .error .notFound
  /-- Files to which no written and no removed path leads are the same before and after. -/
  untouched : ∀ place, (∀ p ∈ done.written ++ done.removed, after.locate p ≠ .ok place) →
    ∀ bytes, after.at? place = some (.file bytes) ↔ t.at? place = some (.file bytes)

section Exact

variable {c s} {t mid after : FileTree} {names : List String} (r : Run c s t mid names after)
  (hproper : t.Proper) (hslash : ∀ command ∈ callable s, '/' ∉ (fileName c command).toList)

include r hproper hslash

theorem Run.exact (hascending : names.Pairwise (· < ·)) :
    Exact c s t ⟨(callable s).map c.stubPath, Stub.skipped s,
      names.map fun n => c.stubsPath.join ⟨n⟩⟩ after := by
  constructor
  · exact ⟨callable s, callable_ascending s, fun n => mem_callable s, rfl⟩
  · intro n e he hk
    obtain ⟨text, hsource⟩ :=
      Option.isSome_iff_exists.1 ((isSome_source n e c.wrapColumns).trans hk)
    have hmem : (c.stubPath n, text) ∈ sources c s :=
      (mem_sources c s).2 ⟨n, e, he, hsource, rfl⟩
    obtain ⟨place, hl, ha⟩ := r.content hproper hslash hmem
    exact ⟨text, hsource, FileTree.text_of_file hl ha⟩
  · exact ⟨s.map_filter_ascending _, fun n => mem_skipped s⟩
  · refine ⟨names, hascending, fun n => ?_, rfl⟩
    constructor
    · exact r.isStale_of_mem_names hproper hslash
    · rintro ⟨hempty, hstale⟩
      exact r.mem_names_of_isStale hslash hempty hstale
  · intro p hp
    obtain ⟨place, hl, ha⟩ := r.cleared.cleared p hp
    exact FileTree.find_of_none hl ha
  · -- A place that no path of the run leads to is neither written nor cleared.
    intro place hplace bytes
    apply file_iff_of_wrote
    apply r.untouched
    · intro e he
      have hpath := List.mem_map_of_mem (f := Prod.fst) he
      rw [map_fst_sources] at hpath
      exact hplace e.1 (List.mem_append_left _ hpath)
    · intro n hn
      exact hplace _ (List.mem_append_right _ (List.mem_map_of_mem hn))

/-- A second run writes what is there, and removes nothing. -/
theorem Run.again
    (hwrite : runOn t ((sources c s).forM fun e => Action.writeText e.1 e.2) = (.ok (), mid)) :
    ∃ last, runOn after (writeAll c s) =
      (.ok ⟨(callable s).map c.stubPath, Stub.skipped s, []⟩, last) ∧ Same after last := by
  obtain ⟨last, hagain, hsame⟩ := Action.forM_again hwrite r.cleared.keepsDirs fun e he =>
    r.content hproper hslash he
  exact ⟨last, writeAll_eq_ok.2 ⟨last, [], hagain, r.nothing_stale hsame, rfl, rfl⟩, hsame⟩

end Exact

/-- A run that ends well leaves the stub directory exact, and a second run removes nothing and
changes nothing. With an empty path for the stub directory nothing is ever removed. -/
theorem writeAll_exact {t after : FileTree} {done : Summary} (hproper : t.Proper)
    (hnames : ∀ n ∈ s.keys, '/' ∉ n.toList) (hext : '/' ∉ c.stubExtension.toList)
    (h : runOn t (writeAll c s) = (.ok done, after)) :
    Exact c s t done after ∧
      ∃ last, runOn after (writeAll c s) = (.ok ⟨done.written, done.skipped, []⟩, last) ∧
        Same after last := by
  have hslash := no_slash_fileName c s hnames hext
  obtain ⟨mid, names, hwrite, r, hascending, rfl⟩ := exists_run hslash h
  constructor
  · exact r.exact hproper hslash hascending
  · exact r.again hproper hslash hwrite

/-- The schema of one subroutine and one record. -/
def newSchema : Schema :=
  ⟨[("New", ⟨"B.", [], [], .subroutine⟩), ("T_ROW", ⟨"", [], [], .datastruct⟩)], by decide⟩

/-- A stub directory with the stub of a command that is gone, and a file of another sort. -/
def oldTree : FileTree where
  current := []
  nodes := [(["data"], .dir), (["data", "stubs"], .dir),
    (["data", "stubs", "Old.FRS"], .file "old".toUTF8),
    (["data", "stubs", "keep.txt"], .file "kept".toUTF8)]

/-- The stub of the command that is gone is removed, and no other file. -/
theorem writeAll_exact_old : ∃ after,
    let done : Summary := ⟨[⟨"data/stubs/New.frs"⟩], ["T_ROW"], [⟨"data/stubs/Old.FRS"⟩]⟩
    runOn oldTree (writeAll Config.default newSchema) = (.ok done, after) ∧
      Exact Config.default newSchema oldTree done after ∧
      ∃ last, runOn after (writeAll Config.default newSchema) =
        (.ok ⟨done.written, done.skipped, []⟩, last) ∧ Same after last := by
  have hproper : oldTree.Proper := FileTree.proper_of_nodes (by decide)
  have hdone : (runOn oldTree (writeAll Config.default newSchema)).1 =
      .ok ⟨[⟨"data/stubs/New.frs"⟩], ["T_ROW"], [⟨"data/stubs/Old.FRS"⟩]⟩ := by decide +kernel
  have hrun := Action.runOn_eq_of_fst hdone
  exact ⟨_, hrun, writeAll_exact Config.default newSchema hproper (by decide) (by decide) hrun⟩

/-! ## Stubs in the current directory -/

/-- Settings by which the stubs are in the current directory. -/
def hereConfig : Config := { Config.default with dataDir := ⟨""⟩, stubDir := ⟨""⟩ }

/-- A current directory with the stub of a command that is gone. -/
def hereTree : FileTree where
  current := []
  nodes := [(["Old.frs"], .file "old".toUTF8), (["keep.txt"], .file "kept".toUTF8)]

/-- In the current directory a new stub is written, but a stale one is not removed. -/
theorem old_stub_stays : ∃ after,
    runOn hereTree (writeAll hereConfig newSchema) =
      (.ok ⟨[⟨"New.frs"⟩], ["T_ROW"], []⟩, after) ∧
    IsStale hereConfig newSchema hereTree after "Old.frs" ∧
    after.text ⟨"Old.frs"⟩ = .ok "old" := by
  have hdone : (runOn hereTree (writeAll hereConfig newSchema)).1 =
      .ok ⟨[⟨"New.frs"⟩], ["T_ROW"], []⟩ := by decide +kernel
  have hlocate : (runOn hereTree (writeAll hereConfig newSchema)).2.locate
      (hereConfig.stubsPath.join ⟨"Old.frs"⟩) = .ok ["Old.frs"] := by decide +kernel
  have htext : (runOn hereTree (writeAll hereConfig newSchema)).2.text ⟨"Old.frs"⟩ =
      .ok "old" := by decide +kernel
  have hstale : IsStale hereConfig newSchema hereTree
      (runOn hereTree (writeAll hereConfig newSchema)).2 "Old.frs" := by
    constructor
    · decide
    · exact ⟨["Old.frs"], "old".toUTF8, hlocate, rfl⟩
    · decide +kernel
    · decide +kernel
  exact ⟨_, Action.runOn_eq_of_fst hdone, hstale, htext⟩

end HelpMiner.Stub
