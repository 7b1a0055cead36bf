import HelpMiner.Proofs.Files.Parent
import HelpMiner.Proofs.Files.Writing

/-! Room for files: where one file of a directory could be written, another can be, and what can be
written next to other files can be written without them. -/
namespace HelpMiner

open HelpMiner.Path (IsName step?)
open Text (cutWhere)

namespace FileTree

/-- What a path leads to can be listed, or is not there. -/
def Listable (t : FileTree) (p : Path) : Prop :=
  t.list p = .error .notFound ∨ ∃ nodes, t.list p = .ok nodes

variable {t u v : FileTree} {p : Path} {n : String} {place q dir : Place}

/-- A name that can be looked up next to one directory can be looked up in another. -/
theorem locate_join_of_base (hn : IsName n) (hv : v.locate (p.join ⟨n⟩) = .ok q)
    (hb : t.base p = .ok dir) (hd : t.at? dir = some .dir) :
    t.locate (p.join ⟨n⟩) = .ok (dir ++ [n]) := by
  obtain ⟨husable, hfold⟩ := locate_eq_ok.1 hv
  have hcut := Path.cutWhere_join p hn.no_slash
  have hshort : ¬ maxName < n.utf8ByteSize := by
    rw [hcut, List.foldlM_append, bind_eq_ok] at hfold
    obtain ⟨next, -, hend⟩ := hfold
    obtain ⟨last, hstep, -⟩ := bind_eq_ok.1 hend
    rw [follow_eq (at?_of_follow hstep), Path.step?_name hn] at hstep
    intro hlong
    simp only [if_pos hlong] at hstep
    cases hstep
  have hstep : t.follow dir n.toList = .ok (dir ++ [n]) := by
    rw [follow_eq hd, Path.step?_name hn]
    exact if_neg hshort
  rw [locate_eq_ok, hcut, List.foldlM_append, start_join hn.no_slash, bind_eq_ok]
  refine ⟨husable, dir, hb, ?_⟩
  rw [List.foldlM_cons, hstep]
  rfl

namespace Grows

variable (h : Grows t u)

include h

theorem follow (place : Place) (piece : List Char) :
    t.follow place piece = .error .notFound ∨ t.follow place piece = u.follow place piece := by
  obtain hsame | ⟨hnone, -⟩ := h.at? place
  · right
    unfold FileTree.follow
    rw [hsame]
  · left
    unfold FileTree.follow
    rw [hnone]

theorem foldlM (pieces : List (List Char)) (place : Place) :
    pieces.foldlM t.follow place = .error .notFound ∨
      pieces.foldlM t.follow place = pieces.foldlM u.follow place := by
  induction pieces generalizing place with
  | nil => exact Or.inr rfl
  | cons piece rest ih =>
    rw [List.foldlM_cons, List.foldlM_cons]
    obtain hnone | hsame := h.follow place piece
    · left
      rw [hnone]
      rfl
    · rw [← hsame]
      cases t.follow place piece with
      | error why => exact Or.inr rfl
      | ok next => exact ih next

/-- Before new directories were made a path led to the same place, or it was not there. -/
theorem locate (p : Path) :
    t.locate p = .error .notFound ∨ t.locate p = u.locate p := by
  unfold FileTree.locate
  rw [h.keepsDirs.start]
  cases piecesOf p with
  | error why => exact Or.inr rfl
  | ok pieces => exact h.foldlM pieces (t.start p)

theorem listable (hlist : Listable u p) : Listable t p := by
  unfold Listable list at hlist ⊢
  obtain hnone | hsame := h.locate p
  · left
    rw [hnone]
    rfl
  · rw [hsame]
    cases hl : u.locate p with
    | error why =>
      rw [hl] at hlist
      exact hlist
    | ok place =>
      rw [hl] at hlist
      simp only [ok_bind] at hlist ⊢
      obtain hplace | ⟨hnone, -⟩ := h.at? place
      · rw [hplace] at hlist
        cases ha : t.at? place with
        | none => exact Or.inl rfl
        | some node =>
          rw [ha] at hlist
          cases node with
          | file bytes => simp at hlist
          | dir => exact Or.inr ⟨_, rfl⟩
      · left
        rw [hnone]

end Grows

end FileTree

namespace Action

open FileTree (KeepsDirs Grows Listable Usable)

variable {t u v w : FileTree} {p : Path} {n : String} {text : String}

/-- The directory of a path is there, and nothing has to be made for a name in it. -/
structure Room (t : FileTree) (p : Path) : Prop where
  usable : p.text = "" ∨ Usable p
  here : ∃ dir, t.base p = .ok dir ∧ t.at? dir = some .dir
  made : ∀ n, IsName n → runOn t (makeParent (p.join ⟨n⟩)) = (.ok (), t)

theorem makeParent_join {m : String} (hm : IsName m) (hn : IsName n) :
    makeParent (p.join ⟨m⟩) = makeParent (p.join ⟨n⟩) := by
  unfold makeParent
  rw [p.parent?_join hm, p.parent?_join hn]

/-- Before a file is written room is made for it, and for any other name in its directory. -/
theorem exists_room (hslash : '/' ∉ n.toList)
    (h : runOn t (writeText (p.join ⟨n⟩) text) = (.ok (), u)) :
    ∃ mid, Grows t mid ∧ KeepsDirs mid u ∧ Room mid p ∧
      ∀ m, IsName m → runOn t (makeParent (p.join ⟨m⟩)) = (.ok (), mid) := by
  obtain ⟨hname, mid, place, hroom, hl, ha, rfl⟩ := writeText_ok h
  have hn := Path.EndsInName.isName p hslash hname
  have hmade : ∀ m, IsName m → runOn t (makeParent (p.join ⟨m⟩)) = (.ok (), mid) := by
    intro m hm
    rw [makeParent_join hm hn, hroom]
  obtain ⟨dir, hbase, hd, -⟩ := FileTree.locate_join hn hl
  refine ⟨mid, grows_makeParent hroom, KeepsDirs.putFile ha _, ⟨?_, ⟨dir, hbase, hd⟩, ?_⟩, hmade⟩
  · by_cases hempty : p.text = ""
    · exact Or.inl hempty
    · exact Or.inr ((FileTree.locate_eq_ok.1 hl).1.of_join hslash hempty)
  · intro m hm
    exact makeParent_again (hmade m hm) (KeepsDirs.refl mid)

namespace Room

variable (r : Room u p)

include r

theorem mono (hkeeps : KeepsDirs u v) : Room v p := by
  obtain ⟨dir, hbase, hd⟩ := r.here
  exact ⟨r.usable, ⟨dir, hkeeps.base hbase, hkeeps.dir dir hd⟩,
    fun n hn => makeParent_again (r.made n hn) hkeeps⟩

theorem listable : Listable u p := by
  obtain hempty | husable := r.usable
  · obtain rfl : p = ⟨""⟩ := congrArg Path.mk hempty
    exact Or.inl rfl
  · obtain ⟨dir, hbase, hd⟩ := r.here
    exact Or.inr ⟨_, FileTree.list_eq_ok.2
      ⟨dir, FileTree.locate_of_base husable hbase hd, hd, rfl⟩⟩

/-- A file that can be written where there are more directories can be written. -/
theorem exists_writeText (hslash : '/' ∉ n.toList) (hkeeps : KeepsDirs u v)
    (h : runOn v (writeText (p.join ⟨n⟩) text) = (.ok (), w)) :
    ∃ next, runOn u (writeText (p.join ⟨n⟩) text) = (.ok (), next) ∧ KeepsDirs u next ∧
      KeepsDirs next w := by
  obtain ⟨hname, mid, place, hroom, hl, ha, rfl⟩ := writeText_ok h
  have hn := Path.EndsInName.isName p hslash hname
  have hmid := hkeeps.trans (grows_makeParent hroom).keepsDirs
  obtain ⟨dir, hbase, hd⟩ := r.here
  have hlocate := FileTree.locate_join_of_base hn hl hbase hd
  obtain rfl : dir ++ [n] = place := Except.ok.inj ((hmid.locate hlocate).symm.trans hl)
  have hfree : u.at? (dir ++ [n]) ≠ some .dir := fun h => ha (hmid.dir _ h)
  have hne := FileTree.ne_root_of_at? ha
  refine ⟨u.put (dir ++ [n]) (.file text.toUTF8), ?_, KeepsDirs.putFile hfree _,
    hmid.current, fun q hq => ?_⟩
  · rw [writeText_eq, runOn_bind_ok (r.made n hn), runOn_change_ok, FileTree.write_eq_ok]
    exact ⟨hname, dir ++ [n], hlocate, hfree, rfl⟩
  · rw [FileTree.at?_put hne] at hq ⊢
    by_cases he : q = dir ++ [n]
    · rw [if_pos he] at hq
      cases hq
    · rw [if_neg he] at hq ⊢
      exact hmid.dir q hq

/-- Files that can be written where there are more directories can be written. -/
theorem exists_forM {files : List (Path × String)}
    (hfiles : ∀ e ∈ files, ∃ n : String, '/' ∉ n.toList ∧ e.1 = p.join ⟨n⟩)
    (hkeeps : KeepsDirs u v)
    (h : runOn v (files.forM fun e => writeText e.1 e.2) = (.ok (), w)) :
    ∃ last, runOn u (files.forM fun e => writeText e.1 e.2) = (.ok (), last) ∧
      KeepsDirs u last := by
  induction files generalizing u v with
  | nil => exact ⟨u, rfl, KeepsDirs.refl u⟩
  | cons e rest ih =>
    obtain ⟨mid, hfirst, hrest⟩ := exists_of_forM_cons_ok h
    obtain ⟨n, hslash, he⟩ := hfiles e List.mem_cons_self
    obtain ⟨path, body⟩ := e
    obtain rfl : path = p.join ⟨n⟩ := he
    obtain ⟨next, hnext, hgrown, hback⟩ := r.exists_writeText hslash hkeeps hfirst
    obtain ⟨last, hlast, hmore⟩ :=
      ih (r.mono hgrown) (fun x hx => hfiles x (List.mem_cons_of_mem _ hx)) hback hrest
    refine ⟨last, ?_, hgrown.trans hmore⟩
    change runOn u (writeText (p.join ⟨n⟩) body >>= fun _ =>
      rest.forM fun e => writeText e.1 e.2) = _
    rw [runOn_bind_ok hnext, hlast]

/-- Where room is made first, files are written as if it had been there. -/
theorem forM_of_made {files : List (Path × String)}
    (hmade : ∀ n, IsName n → runOn t (makeParent (p.join ⟨n⟩)) = (.ok (), u))
    (hfiles : ∀ e ∈ files, ∃ n : String, '/' ∉ n.toList ∧ e.1 = p.join ⟨n⟩) (hne : files ≠ [])
    (h : runOn u (files.forM fun e => writeText e.1 e.2) = (.ok (), w)) :
    runOn t (files.forM fun e => writeText e.1 e.2) = (.ok (), w) := by
  obtain ⟨⟨path, body⟩, rest, rfl⟩ := List.exists_cons_of_ne_nil hne
  obtain ⟨n, hslash, he⟩ := hfiles _ List.mem_cons_self
  obtain rfl : path = p.join ⟨n⟩ := he
  obtain ⟨mid, hfirst, -⟩ := exists_of_forM_cons_ok h
  have hn := Path.EndsInName.isName p hslash (writeText_ok hfirst).1
  have hsame : runOn t (writeText (p.join ⟨n⟩) body) = runOn u (writeText (p.join ⟨n⟩) body) := by
    rw [writeText_eq, runOn_bind_ok (hmade n hn), runOn_bind_ok (r.made n hn)]
  change runOn t (writeText (p.join ⟨n⟩) body >>= fun _ =>
    rest.forM fun e => writeText e.1 e.2) = _
  rw [runOn_bind, hsame, ← runOn_bind]
  exact h

end Room

end Action

end HelpMiner
