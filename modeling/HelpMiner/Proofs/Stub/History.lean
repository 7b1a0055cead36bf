import HelpMiner.Proofs.Files.Room
import HelpMiner.Proofs.Files.Target
import HelpMiner.Proofs.Stub.Directory
import HelpMiner.Proofs.Text.Letter

/-! The stub directory after two runs: what the first of them has left there. -/
namespace HelpMiner.Stub

open HelpMiner.Action (runOn Wrote Room)
open FileTree (KeepsDirs Listable)
open HelpMiner.Path (IsName)

/-! ## Stubs that can be found again -/

/-- Settings by which a run can find the stubs of earlier runs: the path of their directory is not
empty, and the extension they are written with has no dot, so that it is what their paths have for
an extension. -/
structure FindsStubs (c : Config) : Prop where
  not_empty : c.stubsPath.text ≠ ""
  no_dot : '.' ∉ c.stubExtension.toList

section Found

variable {c : Config}

theorem isStub_fileName {n : String} (hname : IsName (fileName c n)) (hn : n ≠ "")
    (hdot : '.' ∉ c.stubExtension.toList) : isStub c ⟨fileName c n⟩ = true := by
  unfold isStub fileName
  rw [Path.extension?_name hname hn hdot]
  exact beq_self_eq_true _

/-- With a dot in the extension nothing is taken for a stub. -/
theorem no_dot_of_isStub {p : Path} (h : isStub c p = true) : '.' ∉ c.stubExtension.toList := by
  have hletter : ∀ d : Char, d.isAlpha = true → (d != '.') = true := by
    intro d hd
    rw [bne_iff_ne]
    rintro rfl
    cases hd
  unfold isStub at h
  split at h
  · rename_i ext hext
    have hplain : ∀ d ∈ ext.toList, (d != '.') = true := by
      intro d hd
      rw [bne_iff_ne]
      rintro rfl
      exact Path.no_dot_of_extension? hext hd
    have hlower := Text.all_lower hletter hplain
    rw [← beq_iff_eq.1 h] at hlower
    intro hm
    simpa using Text.all_of_lower hletter hlower '.' hm
  · cases h

end Found

/-! ## The files of one run -/

/-- The file at a place is the stub of a command in a directory. -/
structure IsStubOf (c : Config) (s : Schema) (dir : Place) (n : String) (place : Place)
    (bytes : ByteArray) : Prop where
  place : place = dir ++ [fileName c n]
  content : ∃ e text, s.get? n = some e ∧ source? n e c.wrapColumns = some text ∧
    bytes = text.toUTF8

section Files

variable {c : Config} {s : Schema} {t u : FileTree} {n : String} {place : Place}
  {bytes : ByteArray}

theorem IsStubOf.eq_fileName {dir : Place} (h : IsStubOf c s dir n place bytes) {m : String}
    (hm : place = dir ++ [m]) : m = fileName c n :=
  FileTree.name_inj (hm.symm.trans h.place)

theorem IsStubOf.mem_callable {dir : Place} (h : IsStubOf c s dir n place bytes) :
    n ∈ callable s := by
  obtain ⟨e, text, he, hsource, -⟩ := h.content
  refine (Stub.mem_callable s).2 ⟨e, he, ?_⟩
  rw [← isSome_source n e c.wrapColumns, hsource]
  rfl

variable (w : Wrote (sources c s) t u)
  (hslash : ∀ command ∈ callable s, '/' ∉ (fileName c command).toList)

include w hslash

theorem IsStubOf.here (h : IsStubOf c s (t.target c.stubsPath) n place bytes) :
    u.locate (c.stubPath n) = .ok place ∧ u.at? place = some (.file bytes) := by
  have hname := isName_fileName w hslash h.mem_callable
  obtain ⟨rfl, e, text, he, hsource, rfl⟩ := h
  obtain ⟨place, hl, ha⟩ := w.content _ ((mem_sources c s).2 ⟨n, e, he, hsource, rfl⟩)
  obtain rfl : place = u.target c.stubsPath ++ [fileName c n] :=
    FileTree.eq_target_append hname hl
  rw [w.keepsDirs.target] at hl ha
  exact ⟨hl, ha⟩

/-- After the writing there are the stubs of the schema, and the files in whose place no stub was
written. -/
theorem file_iff : u.at? place = some (.file bytes) ↔
    (∃ n, IsStubOf c s (t.target c.stubsPath) n place bytes) ∨
      (∀ n ∈ callable s, place ≠ t.target c.stubsPath ++ [fileName c n]) ∧
        t.at? place = some (.file bytes) := by
  have hother : (∀ n ∈ callable s, place ≠ t.target c.stubsPath ++ [fileName c n]) →
      (u.at? place = some (.file bytes) ↔ t.at? place = some (.file bytes)) := by
    intro hplace
    refine file_iff_of_wrote (w.at? place fun e he hl => ?_)
    obtain ⟨n, hn, hpath⟩ := exists_command_of_mem_sources c s he
    rw [hpath] at hl
    apply hplace n hn
    rw [← w.keepsDirs.target]
    exact FileTree.eq_target_append (isName_fileName w hslash hn) hl
  constructor
  · intro hu
    by_cases hplace : ∀ n ∈ callable s, place ≠ t.target c.stubsPath ++ [fileName c n]
    · exact Or.inr ⟨hplace, (hother hplace).1 hu⟩
    · left
      push Not at hplace
      obtain ⟨n, hn, hplace⟩ := hplace
      obtain ⟨e, text, he, hsource⟩ := exists_source c s hn
      have hstub : IsStubOf c s (t.target c.stubsPath) n place text.toUTF8 :=
        ⟨hplace, e, text, he, hsource, rfl⟩
      have hfile := (hstub.here w hslash).2
      rw [hu] at hfile
      cases hfile
      exact ⟨n, hstub⟩
  · rintro (⟨n, hstub⟩ | ⟨hplace, ht⟩)
    · exact (hstub.here w hslash).2
    · exact (hother hplace).2 ht

end Files

/-! ## A run from an empty directory -/

section Empty

variable {c : Config} {s : Schema} {t u : FileTree} {done : Summary} {place : Place}
  {bytes : ByteArray} (hproper : t.Proper) (hempty : t.HoldsNothing c.stubsPath)
  (hslash : ∀ command ∈ callable s, '/' ∉ (fileName c command).toList)

include hempty in
theorem ne_of_file (h : t.at? place = some (.file bytes)) (n : String) :
    place ≠ t.target c.stubsPath ++ [n] := by
  rintro rfl
  rw [hempty n] at h
  cases h

include hproper hempty hslash in
/-- Where nothing was in the directory, nothing is stale. -/
theorem stale_of_holdsNothing (w : Wrote (sources c s) t u) (hlist : Listable u c.stubsPath) :
    runOn u (stale c ((callable s).map c.stubPath)) = (.ok [], u) := by
  apply stale_eq_nil
  obtain hnone | ⟨nodes, hnodes⟩ := hlist
  · exact Or.inl hnone
  · refine Or.inr ⟨nodes, hnodes, ?_⟩
    rw [staleIn_eq_map, List.map_eq_nil_iff, List.eq_nil_iff_forall_not_mem]
    intro n hn
    obtain ⟨-, hname, ⟨place, bytes, hl, ha⟩, -, -⟩ :=
      isStale_of_mem_staleNames w hslash hproper hnodes hn
    apply ne_of_file hempty ha n
    rw [← w.keepsDirs.target]
    exact FileTree.eq_target_append hname hl

include hproper hempty hslash in
/-- A run from an empty directory writes the stubs of the schema, and removes nothing. -/
theorem writeAll_of_holdsNothing : runOn t (writeAll c s) = (.ok done, u) ↔
    runOn t ((sources c s).forM fun e => Action.writeText e.1 e.2) = (.ok (), u) ∧
      Listable u c.stubsPath ∧ done = ⟨(callable s).map c.stubPath, skipped s, []⟩ := by
  rw [writeAll_eq_ok]
  constructor
  · rintro ⟨mid, removed, hwrite, hstale, hremove, rfl⟩
    have hwrote := Action.wrote_forM (sources_apart hslash) hwrite
    have hlist : Listable mid c.stubsPath := by
      obtain ⟨-, ⟨hnone, -⟩ | ⟨nodes, hnodes, -⟩⟩ := stale_ok hstale
      · exact Or.inl hnone
      · exact Or.inr ⟨nodes, hnodes⟩
    rw [stale_of_holdsNothing hproper hempty hslash hwrote hlist] at hstale
    cases hstale
    cases hremove
    exact ⟨hwrite, hlist, rfl⟩
  · rintro ⟨hwrite, hlist, rfl⟩
    have hwrote := Action.wrote_forM (sources_apart hslash) hwrite
    exact ⟨u, [], hwrite, stale_of_holdsNothing hproper hempty hslash hwrote hlist, rfl, rfl⟩

include hempty hslash in
theorem file_iff_of_holdsNothing (w : Wrote (sources c s) t u) :
    u.at? place = some (.file bytes) ↔
      (∃ n, IsStubOf c s (t.target c.stubsPath) n place bytes) ∨
        t.at? place = some (.file bytes) := by
  rw [file_iff w hslash]
  apply or_congr_right
  rw [and_iff_right_iff_imp]
  exact fun ht n _ => ne_of_file hempty ht (fileName c n)

end Empty

/-! ## A run without the one before it -/

section Alone

variable {c : Config} {s next : Schema} {t mid after : FileTree}
  (hslash : ∀ command ∈ callable s, '/' ∉ (fileName c command).toList)
  (hnext : ∀ command ∈ callable next, '/' ∉ (fileName c command).toList)

include hslash hnext in
/-- Stubs that can be written after others can be written without them. -/
theorem exists_written
    (hwrite : runOn t ((sources c s).forM fun e => Action.writeText e.1 e.2) = (.ok (), mid))
    (hagain : runOn mid ((sources c next).forM fun e => Action.writeText e.1 e.2) = (.ok (), after))
    (hlist : Listable after c.stubsPath) :
    ∃ alone, runOn t ((sources c next).forM fun e => Action.writeText e.1 e.2) = (.ok (), alone) ∧
      Listable alone c.stubsPath := by
  have hfiles : ∀ e ∈ sources c next, ∃ n : String, '/' ∉ n.toList ∧
      e.1 = c.stubsPath.join ⟨n⟩ := by
    intro e he
    obtain ⟨command, hm, hpath⟩ := exists_command_of_mem_sources c next he
    exact ⟨fileName c command, hnext command hm, hpath⟩
  cases hs : sources c s with
  | nil =>
    rw [hs] at hwrite
    cases hwrite
    exact ⟨after, hagain, hlist⟩
  | cons first rest =>
    obtain ⟨command, hm, hpath⟩ :=
      exists_command_of_mem_sources c s (hs ▸ List.mem_cons_self : first ∈ sources c s)
    obtain ⟨path, text⟩ := first
    obtain rfl : path = c.stubsPath.join ⟨fileName c command⟩ := hpath
    -- The first stub shows that the directory is there or can be made, and that is all that the
    -- stubs of the second schema need.
    rw [hs] at hwrite
    obtain ⟨one, hone, hrest⟩ := Action.exists_of_forM_cons_ok hwrite
    obtain ⟨ready, hgrows, hkeeps, hroom, hmade⟩ := Action.exists_room (hslash command hm) hone
    have hmid := hkeeps.trans (Action.lastWrote_forM hrest).keepsDirs
    by_cases hnone : sources c next = []
    · rw [hnone]
      exact ⟨t, rfl, hgrows.listable hroom.listable⟩
    · obtain ⟨alone, halone, hgrown⟩ := hroom.exists_forM hfiles hmid hagain
      exact ⟨alone, hroom.forM_of_made hmade hfiles hnone halone, (hroom.mono hgrown).listable⟩

end Alone

/-! ## Two runs -/

section Two

variable {c : Config} {s next : Schema} {t mid u after : FileTree} {names : List String}
  {n : String} {place : Place} {bytes : ByteArray}

namespace Run

variable (r : Run c s t u names after) (hproper : t.Proper)
  (hslash : ∀ command ∈ callable s, '/' ∉ (fileName c command).toList)

include r hproper hslash

/-- Where something is removed, the stubs of earlier runs can be found. -/
theorem findsStubs_of_mem (hn : n ∈ names) : FindsStubs c := by
  obtain ⟨hempty, hstale⟩ := r.isStale_of_mem_names hproper hslash hn
  exact ⟨hempty, no_dot_of_isStub hstale.isStub⟩

theorem locate_removed (hn : n ∈ names) :
    after.locate (c.stubsPath.join ⟨n⟩) = .ok (t.target c.stubsPath ++ [n]) := by
  obtain ⟨-, hstale⟩ := r.isStale_of_mem_names hproper hslash hn
  obtain ⟨place, -, hl, -⟩ := hstale.here
  rw [hl, FileTree.eq_target_append hstale.isName hl, r.cleared.keepsDirs.target,
    r.wrote.keepsDirs.target]

/-- After a run there are the stubs of the schema, and the files that were not removed and in whose
place no stub was written. -/
theorem file_iff : after.at? place = some (.file bytes) ↔
    (∃ n, IsStubOf c s (t.target c.stubsPath) n place bytes) ∨
      (∀ n ∈ callable s, place ≠ t.target c.stubsPath ++ [fileName c n]) ∧
        (∀ n ∈ names, place ≠ t.target c.stubsPath ++ [n]) ∧
          t.at? place = some (.file bytes) := by
  have hgone : (∀ p ∈ names.map fun n => c.stubsPath.join ⟨n⟩, after.locate p ≠ .ok place) ↔
      ∀ n ∈ names, place ≠ t.target c.stubsPath ++ [n] := by
    simp only [List.forall_mem_map]
    refine forall₂_congr fun n hn => not_congr ?_
    rw [r.locate_removed hproper hslash hn, Except.ok.injEq, eq_comm]
  rw [r.cleared.file_iff, Stub.file_iff r.wrote hslash, hgone]
  constructor
  · rintro ⟨hkept, hstub | ⟨hother, ht⟩⟩
    · exact Or.inl hstub
    · exact Or.inr ⟨hother, hkept, ht⟩
  · rintro (⟨n, hstub⟩ | ⟨hother, hkept, ht⟩)
    · refine ⟨fun m hm hplace => ?_, Or.inl ⟨n, hstub⟩⟩
      obtain ⟨-, hstale⟩ := r.isStale_of_mem_names hproper hslash hm
      exact hstale.other n hstub.mem_callable (hstub.eq_fileName hplace)
    · exact ⟨hkept, Or.inr ⟨hother, ht⟩⟩

end Run

variable (hempty : t.HoldsNothing c.stubsPath)
  (hslash : ∀ command ∈ callable s, '/' ∉ (fileName c command).toList)
  (w : Wrote (sources c s) t mid) (r : Run c next mid u names after)

include hslash w r in
/-- A stub that can be found and that no command has any more is removed. -/
theorem fileName_mem_names (hfinds : FindsStubs c)
    (hnext : ∀ command ∈ callable next, '/' ∉ (fileName c command).toList)
    (hstub : IsStubOf c s (t.target c.stubsPath) n place bytes) (hn : n ≠ "")
    (hgone : n ∉ callable next) : fileName c n ∈ names := by
  have hname := isName_fileName w hslash hstub.mem_callable
  obtain ⟨hl, ha⟩ := hstub.here w hslash
  apply r.mem_names_of_isStale hnext hfinds.not_empty
  refine ⟨hname, ⟨place, bytes, ?_, ha⟩, isStub_fileName hname hn hfinds.no_dot, ?_⟩
  · exact (r.wrote.keepsDirs.trans r.cleared.keepsDirs).locate hl
  · intro command hm he
    exact hgone ((fileName_inj c).1 he ▸ hm)

include hempty hslash w r in
/-- What two runs leave is what the second leaves alone, and the stubs of the first that the second
neither writes nor removes. -/
theorem file_iff_of_two {alone : FileTree} (hproper : mid.Proper)
    (hnext : ∀ command ∈ callable next, '/' ∉ (fileName c command).toList)
    (walone : Wrote (sources c next) t alone) :
    after.at? place = some (.file bytes) ↔ alone.at? place = some (.file bytes) ∨
      ∃ n, n ∉ callable next ∧ fileName c n ∉ names ∧
        IsStubOf c s (t.target c.stubsPath) n place bytes := by
  rw [r.file_iff hproper hnext, w.keepsDirs.target, file_iff_of_holdsNothing hempty hslash w,
    file_iff_of_holdsNothing hempty hnext walone]
  constructor
  · rintro (hstub | ⟨hother, hkept, ⟨n, hstub⟩ | ht⟩)
    · exact Or.inl (Or.inl hstub)
    · exact Or.inr ⟨n, fun hn => hother n hn hstub.place,
        fun hn => hkept _ hn hstub.place, hstub⟩
    · exact Or.inl (Or.inr ht)
  · rintro ((hstub | ht) | ⟨n, hgone, hkept, hstub⟩)
    · exact Or.inl hstub
    · exact Or.inr ⟨fun m _ => ne_of_file hempty ht _, fun m _ => ne_of_file hempty ht m,
        Or.inr ht⟩
    · refine Or.inr ⟨fun m hm hplace => ?_, fun m hm hplace => ?_, Or.inl ⟨n, hstub⟩⟩
      · exact hgone ((fileName_inj c).1 (hstub.eq_fileName hplace) ▸ hm)
      · exact hkept (hstub.eq_fileName hplace ▸ hm)

end Two

/-- From an empty stub directory, two runs leave the files that the second leaves alone, if a run
can find the stubs of earlier runs. Otherwise the stubs of the first run for commands that can no
longer be called are left too, and no others. -/
theorem writeAll_twice {c : Config} {old new : Schema} {t mid after : FileTree}
    {before done : Summary} (hproper : t.Proper) (hempty : t.HoldsNothing c.stubsPath)
    (hext : '/' ∉ c.stubExtension.toList) (hold : ∀ n ∈ old.keys, n ≠ "" ∧ '/' ∉ n.toList)
    (hnew : ∀ n ∈ new.keys, '/' ∉ n.toList)
    (hfirst : runOn t (writeAll c old) = (.ok before, mid))
    (hsecond : runOn mid (writeAll c new) = (.ok done, after)) :
    ∃ alone, runOn t (writeAll c new) = (.ok { done with removed := [] }, alone) ∧
      (FindsStubs c → ∀ place bytes, after.at? place = some (.file bytes) ↔
        alone.at? place = some (.file bytes)) ∧
      (¬ FindsStubs c → ∀ place bytes, after.at? place = some (.file bytes) ↔
        alone.at? place = some (.file bytes) ∨
          ∃ n, n ∉ callable new ∧ IsStubOf c old (t.target c.stubsPath) n place bytes) := by
  have hslash := no_slash_fileName c old (fun n hn => (hold n hn).2) hext
  have hnext := no_slash_fileName c new hnew hext
  obtain ⟨hwrite, -, -⟩ := (writeAll_of_holdsNothing hproper hempty hslash).1 hfirst
  have hwrote := Action.wrote_forM (sources_apart hslash) hwrite
  obtain ⟨u, names, hagain, r, -, rfl⟩ := exists_run hnext hsecond
  have hlist : Listable u c.stubsPath := by
    obtain ⟨hnone, -⟩ | ⟨nodes, hnodes, -⟩ := r.stale
    · exact Or.inl hnone
    · exact Or.inr ⟨nodes, hnodes⟩
  obtain ⟨alone, halone, hlisted⟩ := exists_written hslash hnext hwrite hagain hlist
  have hiff : ∀ place bytes, after.at? place = some (.file bytes) ↔
      alone.at? place = some (.file bytes) ∨ ∃ n, n ∉ callable new ∧ fileName c n ∉ names ∧
        IsStubOf c old (t.target c.stubsPath) n place bytes := fun _ _ =>
    file_iff_of_two hempty hslash hwrote r (hwrote.proper hproper) hnext
      (Action.wrote_forM (sources_apart hnext) halone)
  refine ⟨alone, (writeAll_of_holdsNothing hproper hempty hnext).2 ⟨halone, hlisted, rfl⟩, ?_, ?_⟩
  · -- A stub that is left over would be stale in the second run, and so removed.
    intro hfinds place bytes
    rw [hiff, or_iff_left]
    rintro ⟨n, hgone, hkept, hstub⟩
    have hne := (hold n (mem_keys_of_callable old hstub.mem_callable)).1
    exact hkept (fileName_mem_names hslash hwrote r hfinds hnext hstub hne hgone)
  · -- The second run removes nothing.
    intro hfinds place bytes
    rw [hiff]
    refine or_congr_right (exists_congr fun n => and_congr_right fun _ => ?_)
    rw [and_iff_right_iff_imp]
    exact fun _ hn => hfinds (r.findsStubs_of_mem (hwrote.proper hproper) hnext hn)

/-- The schema of one subroutine that `newSchema` no longer has. -/
def oldSchema : Schema := ⟨[("Old", ⟨"A.", [], [], .subroutine⟩)], by decide⟩

/-- An empty stub directory, and a file elsewhere. -/
def emptyTree : FileTree where
  current := []
  nodes := [(["data"], .dir), (["data", "stubs"], .dir),
    (["data", "keep.txt"], .file "kept".toUTF8)]

theorem emptyTree_proper : emptyTree.Proper := FileTree.proper_of_nodes (by decide)

/-- The stub of the command that is gone is removed by the second run. -/
theorem writeAll_twice_old : ∃ mid after alone,
    runOn emptyTree (writeAll Config.default oldSchema) =
      (.ok ⟨[⟨"data/stubs/Old.frs"⟩], [], []⟩, mid) ∧
    runOn mid (writeAll Config.default newSchema) =
      (.ok ⟨[⟨"data/stubs/New.frs"⟩], ["T_ROW"], [⟨"data/stubs/Old.frs"⟩]⟩, after) ∧
    runOn emptyTree (writeAll Config.default newSchema) =
      (.ok ⟨[⟨"data/stubs/New.frs"⟩], ["T_ROW"], []⟩, alone) ∧
    ∀ place bytes, after.at? place = some (.file bytes) ↔
      alone.at? place = some (.file bytes) := by
  have hempty : emptyTree.HoldsNothing Config.default.stubsPath :=
    FileTree.holdsNothing_of_nodes (by decide)
  have hfinds : FindsStubs Config.default := ⟨by decide, by decide⟩
  have hold : (runOn emptyTree (writeAll Config.default oldSchema)).1 =
      .ok ⟨[⟨"data/stubs/Old.frs"⟩], [], []⟩ := by decide +kernel
  have hnew : (runOn (runOn emptyTree (writeAll Config.default oldSchema)).2
      (writeAll Config.default newSchema)).1 =
        .ok ⟨[⟨"data/stubs/New.frs"⟩], ["T_ROW"], [⟨"data/stubs/Old.frs"⟩]⟩ := by decide +kernel
  have hfirst := Action.runOn_eq_of_fst hold
  have hsecond := Action.runOn_eq_of_fst hnew
  obtain ⟨alone, halone, hsame, -⟩ := writeAll_twice emptyTree_proper hempty (by decide) (by decide)
    (by decide) hfirst hsecond
  exact ⟨_, _, alone, hfirst, hsecond, halone, hsame hfinds⟩

/-- Settings with a dot in the extension of stubs. -/
def dotConfig : Config := { Config.default with stubExtension := "frs.txt" }

/-- With a dot in the extension the stub of the command that is gone is left, though the second run
alone leaves no such file. -/
theorem dotted_stub_stays : emptyTree.Proper ∧ emptyTree.HoldsNothing dotConfig.stubsPath ∧
    ∃ mid after alone,
      runOn emptyTree (writeAll dotConfig oldSchema) =
        (.ok ⟨[⟨"data/stubs/Old.frs.txt"⟩], [], []⟩, mid) ∧
      runOn mid (writeAll dotConfig newSchema) =
        (.ok ⟨[⟨"data/stubs/New.frs.txt"⟩], ["T_ROW"], []⟩, after) ∧
      runOn emptyTree (writeAll dotConfig newSchema) =
        (.ok ⟨[⟨"data/stubs/New.frs.txt"⟩], ["T_ROW"], []⟩, alone) ∧
      after.isFile ⟨"data/stubs/Old.frs.txt"⟩ = true ∧
      alone.isFile ⟨"data/stubs/Old.frs.txt"⟩ = false := by
  have hempty : emptyTree.HoldsNothing dotConfig.stubsPath :=
    FileTree.holdsNothing_of_nodes (by decide)
  have hold : (runOn emptyTree (writeAll dotConfig oldSchema)).1 =
      .ok ⟨[⟨"data/stubs/Old.frs.txt"⟩], [], []⟩ := by decide +kernel
  have hnew : (runOn (runOn emptyTree (writeAll dotConfig oldSchema)).2
      (writeAll dotConfig newSchema)).1 =
        .ok ⟨[⟨"data/stubs/New.frs.txt"⟩], ["T_ROW"], []⟩ := by decide +kernel
  have halone : (runOn emptyTree (writeAll dotConfig newSchema)).1 =
      .ok ⟨[⟨"data/stubs/New.frs.txt"⟩], ["T_ROW"], []⟩ := by decide +kernel
  have hleft : (runOn (runOn emptyTree (writeAll dotConfig oldSchema)).2
      (writeAll dotConfig newSchema)).2.isFile ⟨"data/stubs/Old.frs.txt"⟩ = true := by
    decide +kernel
  have hnone : (runOn emptyTree (writeAll dotConfig newSchema)).2.isFile
      ⟨"data/stubs/Old.frs.txt"⟩ = false := by decide +kernel
  exact ⟨emptyTree_proper, hempty, _, _, _, Action.runOn_eq_of_fst hold,
    Action.runOn_eq_of_fst hnew, Action.runOn_eq_of_fst halone, hleft, hnone⟩

end HelpMiner.Stub
