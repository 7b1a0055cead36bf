import HelpMiner.Proofs.Files.Tree

/-! What it does to a tree to make a directory, write a file and remove a file. Directories are never
lost, so paths lead where they led. -/
namespace HelpMiner.FileTree

open HelpMiner.Path (IsName step? EndsInName)
open Text (cutWhere)

/-! ## Trees that keep directories -/

/-- The directories of a tree are directories of another. -/
structure KeepsDirs (t u : FileTree) : Prop where
  current : u.current = t.current
  dir : ∀ place, t.at? place = some .dir → u.at? place = some .dir

namespace KeepsDirs

theorem refl (t : FileTree) : KeepsDirs t t := ⟨rfl, fun _ h => h⟩

theorem trans {t mid after : FileTree} (h : KeepsDirs t mid) (g : KeepsDirs mid after) :
    KeepsDirs t after :=
  ⟨g.current.trans h.current, fun place hd => g.dir place (h.dir place hd)⟩

variable {t u : FileTree} (h : KeepsDirs t u) {p : Path} {place q : Place}

include h

theorem follow {piece : List Char} (hf : t.follow place piece = .ok q) :
    u.follow place piece = .ok q := by
  have hd := at?_of_follow hf
  rw [follow_eq (h.dir place hd), ← follow_eq hd, hf]

theorem foldlM {pieces : List (List Char)} (hf : pieces.foldlM t.follow place = .ok q) :
    pieces.foldlM u.follow place = .ok q := by
  induction pieces generalizing place with
  | nil => exact hf
  | cons piece rest ih =>
    rw [List.foldlM_cons, bind_eq_ok] at hf ⊢
    obtain ⟨next, hstep, hrest⟩ := hf
    exact ⟨next, h.follow hstep, ih hrest⟩

theorem start : u.start p = t.start p := by
  unfold FileTree.start
  rw [h.current]

theorem locate (hl : t.locate p = .ok place) : u.locate p = .ok place := by
  obtain ⟨hu, hf⟩ := locate_eq_ok.1 hl
  rw [locate_eq_ok, h.start]
  exact ⟨hu, h.foldlM hf⟩

theorem base (hb : t.base p = .ok place) : u.base p = .ok place := by
  unfold FileTree.base
  rw [h.start]
  exact h.foldlM hb

theorem isDir (hd : t.isDir p = true) : u.isDir p = true := by
  obtain ⟨place, hl, ha⟩ := isDir_iff.1 hd
  exact isDir_iff.2 ⟨place, h.locate hl, h.dir place ha⟩

end KeepsDirs

/-- Trees with the same at every place. -/
structure Same (t u : FileTree) : Prop where
  current : u.current = t.current
  at? : ∀ place, u.at? place = t.at? place

namespace Same

variable {t u v : FileTree} (h : Same t u)

theorem refl (t : FileTree) : Same t t := ⟨rfl, fun _ => rfl⟩

include h

theorem trans (g : Same u v) : Same t v :=
  ⟨g.current.trans h.current, fun place => (g.at? place).trans (h.at? place)⟩

theorem keepsDirs : KeepsDirs t u := ⟨h.current, fun place hd => (h.at? place).trans hd⟩

theorem locate (p : Path) : u.locate p = t.locate p := by
  have hfollow : u.follow = t.follow := by
    funext place piece
    unfold follow
    rw [h.at?]
  unfold FileTree.locate start
  rw [hfollow, h.current]

theorem children (place : Place) : (u.children place).keys = (t.children place).keys := by
  apply SortedTable.eq_of_ascending (SortedTable.keys_ascending _) (SortedTable.keys_ascending _)
  intro n
  rw [mem_keys_children, mem_keys_children, h.at?]

theorem list_notFound {p : Path} (hl : t.list p = .error .notFound) :
    u.list p = .error .notFound := by
  unfold list at hl ⊢
  rw [h.locate]
  cases hp : t.locate p with
  | error why =>
    rw [hp] at hl
    exact hl
  | ok place =>
    rw [hp, ok_bind] at hl
    rw [ok_bind, h.at?]
    split at hl
    · cases hl
    · cases hl
    · rfl

end Same

/-- A tree of names that directories can hold. -/
def Proper (t : FileTree) : Prop := ∀ place, t.at? place ≠ none → ∀ n ∈ place, IsName n

theorem proper_of_nodes {t : FileTree} (h : ∀ n ∈ t.nodes, ∀ m ∈ n.1, IsName m) : t.Proper := by
  intro place hp m hm
  unfold at? at hp
  split at hp
  · rename_i hroot
    rw [hroot] at hm
    cases hm
  · rw [Ne, List.lookup_eq_none_iff, not_forall] at hp
    obtain ⟨⟨other, node⟩, hmem⟩ := hp
    simp only [not_forall, bne_iff_ne, ne_eq, not_not] at hmem
    obtain ⟨hmem, rfl⟩ := hmem
    exact h _ hmem m hm

theorem Proper.put {t : FileTree} (h : t.Proper) {place : Place} (hne : place ≠ [])
    (hp : ∀ n ∈ place, IsName n) (node : FileNode) : (t.put place node).Proper := by
  intro q hq
  rw [at?_put hne] at hq
  by_cases he : q = place
  · rwa [he]
  · rw [if_neg he] at hq
    exact h q hq

/-- A path that ends in a name leads to that name in a directory. -/
theorem exists_place_of_endsInName {t : FileTree} {p : Path} {place : Place} (hname : EndsInName p)
    (hl : t.locate p = .ok place) :
    ∃ dir n, IsName n ∧ p.fileName? = some n ∧ t.at? dir = some .dir ∧ place = dir ++ [n] := by
  obtain ⟨-, hfold⟩ := locate_eq_ok.1 hl
  obtain ⟨front, n, hn, hcut⟩ := hname
  have hfile := Path.fileName?_of_cutWhere hn hcut
  rw [hcut, List.foldlM_append, bind_eq_ok] at hfold
  obtain ⟨dir, -, hend⟩ := hfold
  obtain ⟨next, hstep, hend⟩ := bind_eq_ok.1 hend
  obtain rfl := Except.ok.inj hend
  exact ⟨dir, n, hn, hfile, at?_of_follow hstep, follow_name hn hstep⟩

theorem Proper.place {t : FileTree} (h : t.Proper) {p : Path} {place : Place}
    (hname : EndsInName p) (hl : t.locate p = .ok place) : ∀ n ∈ place, IsName n := by
  obtain ⟨dir, n, hn, -, hd, rfl⟩ := exists_place_of_endsInName hname hl
  intro m hm
  rcases List.mem_append.1 hm with hm | hm
  · exact h dir (by rw [hd]; nofun) m hm
  · rwa [List.mem_singleton.1 hm]

/-- A step leads to a place of proper names. -/
theorem Proper.follow {t : FileTree} (h : t.Proper) {place q : Place} {piece : List Char}
    (hslash : '/' ∉ piece) (hf : t.follow place piece = .ok q) : ∀ n ∈ q, IsName n := by
  have hd := at?_of_follow hf
  have hplace : ∀ n ∈ place, IsName n := h place (by simp [hd])
  rw [follow_eq hd] at hf
  split at hf
  · cases hf
    exact hplace
  · cases hf
    exact hplace
  · cases hf
    exact hplace
  · cases hf
    exact fun n hn => hplace n (List.mem_of_mem_dropLast hn)
  · rename_i m hm
    split at hf
    · cases hf
    · cases hf
      intro n hn
      rcases List.mem_append.1 hn with hn | hn
      · exact hplace n hn
      · rw [List.mem_singleton.1 hn]
        exact Path.isName_of_step? hm hslash

/-! ## One directory, one file -/

section Slot

variable {t u : FileTree} {p : Path} {place dir : Place} {last : List Char}

/-- The pieces of a path up to the last one that is not empty. -/
theorem exists_last_piece (pieces : List (List Char)) : (∀ piece ∈ pieces, piece = []) ∨
    ∃ front last empties, pieces = front ++ last :: empties ∧ last ≠ [] ∧
      ∀ piece ∈ empties, piece = [] := by
  induction pieces using List.reverseRecOn with
  | nil => exact Or.inl fun piece hp => absurd hp List.not_mem_nil
  | append_singleton init piece ih =>
    by_cases hpiece : piece = []
    · subst hpiece
      obtain hinit | ⟨front, last, empties, rfl, hne, hempties⟩ := ih
      · left
        intro x hx
        rcases List.mem_append.1 hx with hx | hx
        · exact hinit x hx
        · exact List.mem_singleton.1 hx
      · right
        refine ⟨front, last, empties ++ [[]], by simp, hne, ?_⟩
        intro x hx
        rcases List.mem_append.1 hx with hx | hx
        · exact hempties x hx
        · exact List.mem_singleton.1 hx
    · exact Or.inr ⟨init, piece, [], rfl, hpiece, fun x hx => absurd hx List.not_mem_nil⟩

section Pieces

variable {front empties : List (List Char)} (hu : Usable p) (hne : last ≠ [])
  (hempties : ∀ piece ∈ empties, piece = [])
  (hcut : cutWhere (· == '/') p.text.toList = front ++ last :: empties)

include hu hne hempties hcut

/-- The slot of a path is told by its last piece, slashes at the end apart. -/
theorem slot_of_pieces : t.slot p =
    front.foldlM t.follow (t.start p) >>= fun dir => .ok (dir, last) := by
  have hback : (front ++ last :: empties).reverse.dropWhile List.isEmpty =
      last :: front.reverse := by
    rw [List.reverse_append, List.reverse_cons, List.append_assoc, List.dropWhile_append_of_pos]
    · exact List.dropWhile_cons_of_neg (by simpa using hne)
    · intro piece hp
      rw [hempties piece (List.mem_reverse.1 hp)]
      rfl
  unfold slot
  rw [hu.piecesOf, hcut, ok_bind]
  simp only [hback, List.reverse_reverse]

theorem slot_eq_ok {piece : List Char} : t.slot p = .ok (dir, piece) ↔
    front.foldlM t.follow (t.start p) = .ok dir ∧ piece = last := by
  rw [slot_of_pieces hu hne hempties hcut, bind_eq_ok]
  constructor
  · rintro ⟨_, hfront, hslot⟩
    cases hslot
    exact ⟨hfront, rfl⟩
  · rintro ⟨hfront, rfl⟩
    exact ⟨dir, hfront, rfl⟩

end Pieces

section Slashes

variable (hu : Usable p) (hempty : ∀ piece ∈ cutWhere (· == '/') p.text.toList, piece = [])

include hu hempty

/-- A path of slashes leads to the root. -/
theorem start_of_slashes : t.start p = [] := by
  obtain ⟨c, rest, htext⟩ : ∃ c rest, p.text.toList = c :: rest := by
    apply List.exists_cons_of_ne_nil
    exact fun hnil => hu.not_empty (String.toList_eq_nil_iff.1 hnil)
  have habs : p.isAbsolute = true := by
    unfold Path.isAbsolute
    by_cases hc : (c == '/') = true
    · simpa [htext] using hc
    · have hfirst := Text.cutWhere_cons_of_neg (p := (· == '/')) (Bool.eq_false_of_not_eq_true hc) rest
      rw [htext, hfirst] at hempty
      exact absurd (hempty _ List.mem_cons_self) (List.cons_ne_nil _ _)
  unfold start
  rw [if_pos habs]

theorem slot_of_slashes : t.slot p = .ok ([], []) := by
  have hback : (cutWhere (· == '/') p.text.toList).reverse.dropWhile List.isEmpty = [] := by
    rw [List.dropWhile_eq_nil_iff]
    intro piece hp
    rw [hempty piece (List.mem_reverse.1 hp)]
    rfl
  unfold slot
  rw [hu.piecesOf, ok_bind]
  simp only [hback]

end Slashes

theorem usable_of_slot (h : t.slot p = .ok (dir, last)) : Usable p := by
  unfold slot at h
  obtain ⟨pieces, hp, -⟩ := bind_eq_ok.1 h
  exact (piecesOf_eq_ok.1 hp).1

theorem no_slash_of_mem_pieces (h : last ∈ cutWhere (· == '/') p.text.toList) : '/' ∉ last := by
  intro hm
  simpa using Text.of_mem_cutWhere h '/' hm

/-- Where a path leads when there is a directory in its slot. -/
theorem slot_cases (hs : t.slot p = .ok (dir, last)) (hf : t.follow dir last = .ok place) :
    place = [] ∨ '/' ∉ last ∧
      ∀ u, KeepsDirs t u → u.at? place = some .dir → u.locate p = .ok place := by
  have hu := usable_of_slot hs
  obtain hempty | ⟨front, piece, empties, hcut, hne, hempties⟩ :=
    exists_last_piece (cutWhere (· == '/') p.text.toList)
  · left
    rw [slot_of_slashes hu hempty] at hs
    cases hs
    rw [follow_empty (at?_root t)] at hf
    exact (Except.ok.inj hf).symm
  · right
    obtain ⟨hfront, rfl⟩ := (slot_eq_ok hu hne hempties hcut).1 hs
    constructor
    · exact no_slash_of_mem_pieces (p := p) (by simp [hcut])
    · intro u hkeeps hplace
      rw [locate_eq_ok, hcut, List.foldlM_append, hkeeps.start, bind_eq_ok]
      refine ⟨hu, dir, hkeeps.foldlM hfront, ?_⟩
      rw [List.foldlM_cons, hkeeps.follow hf]
      exact foldlM_empty_of_dir hempties hplace

/-- A path that leads somewhere leads there from its slot. -/
theorem exists_slot (h : t.locate p = .ok place) :
    ∃ dir last, t.slot p = .ok (dir, last) ∧ t.follow dir last = .ok place := by
  obtain ⟨hu, hfold⟩ := locate_eq_ok.1 h
  obtain hempty | ⟨front, last, empties, hcut, hne, hempties⟩ :=
    exists_last_piece (cutWhere (· == '/') p.text.toList)
  · have hplace := foldlM_empty hempty hfold
    rw [start_of_slashes hu hempty] at hplace
    rw [hplace]
    exact ⟨[], [], slot_of_slashes hu hempty, follow_empty (at?_root t)⟩
  · rw [hcut, List.foldlM_append, bind_eq_ok] at hfold
    obtain ⟨dir, hfront, hback⟩ := hfold
    obtain ⟨next, hstep, hend⟩ := bind_eq_ok.1 hback
    rw [foldlM_empty hempties hend]
    exact ⟨dir, last, (slot_eq_ok hu hne hempties hcut).2 ⟨hfront, rfl⟩, hstep⟩

theorem KeepsDirs.put {node : FileNode} (hp : place ≠ [])
    (hn : t.at? place = some .dir → node = .dir) : KeepsDirs t (t.put place node) := by
  refine ⟨rfl, fun q hd => ?_⟩
  rw [at?_put hp]
  by_cases hq : q = place
  · rw [if_pos hq, hn (hq ▸ hd)]
  · rwa [if_neg hq]

theorem ne_root_of_at? (h : t.at? place ≠ some .dir) : place ≠ [] := by
  rintro rfl
  exact h (at?_root t)

theorem KeepsDirs.putFile (ha : t.at? place ≠ some .dir) (bytes : ByteArray) :
    KeepsDirs t (t.put place (.file bytes)) :=
  KeepsDirs.put (ne_root_of_at? ha) fun hd => absurd hd ha

/-- A new directory is where its path leads, and nothing was there. -/
theorem makeDir_ok (h : t.makeDir p = .ok u) : ∃ place, t.at? place = none ∧
    u = t.put place .dir ∧ u.locate p = .ok place ∧ (t.Proper → ∀ n ∈ place, IsName n) := by
  unfold makeDir at h
  obtain ⟨⟨dir, last⟩, hs, h⟩ := bind_eq_ok.1 h
  obtain ⟨place, hf, h⟩ := bind_eq_ok.1 h
  split at h
  · cases h
  · rename_i ha
    obtain rfl := Except.ok.inj h
    have hne : place ≠ [] := by
      apply ne_root_of_at?
      rw [ha]
      nofun
    have hkeeps : KeepsDirs t (t.put place .dir) := KeepsDirs.put hne fun _ => rfl
    have hplace : (t.put place .dir).at? place = some .dir := by rw [at?_put hne, if_pos rfl]
    obtain hroot | ⟨hslash, hlocate⟩ := slot_cases hs hf
    · exact absurd hroot hne
    · exact ⟨place, ha, rfl, hlocate _ hkeeps hplace, fun hproper => hproper.follow hslash hf⟩

/-- A directory is not made again. -/
theorem makeDir_of_isDir (h : t.isDir p = true) : t.makeDir p = .error .occupied := by
  obtain ⟨place, hl, ha⟩ := isDir_iff.1 h
  obtain ⟨dir, last, hs, hf⟩ := exists_slot hl
  unfold makeDir
  rw [hs, ok_bind]
  dsimp only
  rw [hf, ok_bind, ha]

/-- A step to another place than the directory and the one it is in is a name. -/
theorem exists_name_of_follow (hf : t.follow dir last = .ok place) (hhere : place ≠ dir)
    (hup : place ≠ dir.dropLast) : ∃ n, step? last = some (.name n) := by
  rw [follow_eq (at?_of_follow hf)] at hf
  split at hf
  · exact absurd (Except.ok.inj hf).symm hhere
  · exact absurd (Except.ok.inj hf).symm hhere
  · exact absurd (Except.ok.inj hf).symm hhere
  · exact absurd (Except.ok.inj hf).symm hup
  · rename_i n hn
    exact ⟨n, hn⟩

/-- A path that ends in no slash ends in its last piece. -/
theorem exists_cutWhere_last (hu : Usable p) (hlast : p.text.toList.getLast? ≠ some '/') :
    ∃ front last, last ≠ [] ∧ cutWhere (· == '/') p.text.toList = front ++ [last] := by
  obtain hnil | ⟨init, c, htext⟩ := List.eq_nil_or_concat p.text.toList
  · exact absurd (String.toList_eq_nil_iff.1 hnil) hu.not_empty
  · rw [List.concat_eq_append] at htext
    have hc : (c == '/') = false := by
      rw [htext, List.getLast?_concat] at hlast
      rw [beq_eq_false_iff_ne]
      exact fun h => hlast (congrArg some h)
    obtain ⟨front, last, -, hcut⟩ := Text.exists_cutWhere_concat (p := (· == '/')) hc init
    exact ⟨front, last ++ [c], by simp, by rw [htext, hcut]⟩

/-- A path that ends in no slash leads where its last piece leads from its slot. -/
theorem locate_iff_slot {front : List (List Char)} (hu : Usable p) (hne : last ≠ [])
    (hcut : cutWhere (· == '/') p.text.toList = front ++ [last]) : t.locate p = .ok place ↔
      ∃ dir, t.slot p = .ok (dir, last) ∧ t.follow dir last = .ok place := by
  have hslot : ∀ dir, t.slot p = .ok (dir, last) ↔
      front.foldlM t.follow (t.start p) = .ok dir ∧ last = last := fun _ =>
    slot_eq_ok hu hne (List.forall_mem_nil _) hcut
  rw [locate_eq_ok, hcut, List.foldlM_append, bind_eq_ok]
  constructor
  · rintro ⟨-, dir, hfront, hend⟩
    obtain ⟨next, hstep, hend⟩ := bind_eq_ok.1 hend
    obtain rfl := Except.ok.inj hend
    exact ⟨dir, (hslot dir).2 ⟨hfront, rfl⟩, hstep⟩
  · rintro ⟨dir, hs, hf⟩
    refine ⟨hu, dir, ((hslot dir).1 hs).1, ?_⟩
    rw [List.foldlM_cons, hf]
    rfl

/-- A file is written where its path leads, if the path ends in a name and leads to no directory. -/
theorem write_eq_ok {bytes : ByteArray} : t.write p bytes = .ok u ↔ EndsInName p ∧
    ∃ place, t.locate p = .ok place ∧ t.at? place ≠ some .dir ∧ u = t.put place (.file bytes) := by
  unfold write
  rw [bind_eq_ok]
  constructor
  · -- The guards of a writing exclude a dot, two dots and a slash at the end: a name is left.
    rintro ⟨⟨dir, last⟩, hs, h⟩
    obtain ⟨place, hf, h⟩ := bind_eq_ok.1 h
    split at h
    · cases h
    · rename_i hguard
      simp only [Bool.or_eq_true, beq_iff_eq, not_or] at hguard
      obtain ⟨⟨hhere, hup⟩, hslash⟩ := hguard
      have hu := usable_of_slot hs
      obtain ⟨front, piece, hne, hcut⟩ := exists_cutWhere_last hu hslash
      obtain ⟨-, rfl⟩ := (slot_eq_ok hu hne (List.forall_mem_nil _) hcut).1 hs
      have hl := (locate_iff_slot hu hne hcut).2 ⟨dir, hs, hf⟩
      have hlast : '/' ∉ last := no_slash_of_mem_pieces (p := p) (by simp [hcut])
      obtain ⟨n, hn⟩ := exists_name_of_follow hf hhere hup
      constructor
      · refine ⟨front, n, Path.isName_of_step? hn hlast, ?_⟩
        rw [hcut, Path.eq_toList_of_step? hn]
      · split at h
        · cases h
        · rename_i ha
          exact ⟨place, hl, ha, (Except.ok.inj h).symm⟩
  · rintro ⟨hname, place, hl, ha, rfl⟩
    have hslash := hname.getLast?_ne
    obtain ⟨front, n, hn, hcut⟩ := hname
    obtain ⟨dir, hs, hf⟩ := (locate_iff_slot (locate_eq_ok.1 hl).1 hn.toList_ne.1 hcut).1 hl
    obtain rfl := follow_name hn hf
    refine ⟨(dir, n.toList), hs, bind_eq_ok.2 ⟨dir ++ [n], hf, ?_⟩⟩
    have hup : dir ++ [n] ≠ dir.dropLast := by
      intro he
      have hlength := congrArg List.length he
      simp only [List.length_append, List.length_singleton, List.length_dropLast] at hlength
      omega
    rw [if_neg (by simp [hslash, hup])]
    split
    · rename_i hd
      exact absurd hd ha
    · rfl

theorem removeFile_eq_ok : t.removeFile p = .ok u ↔ ∃ place bytes, t.locate p = .ok place ∧
    t.at? place = some (.file bytes) ∧ u = t.without (· == place) := by
  unfold removeFile
  rw [bind_eq_ok]
  constructor
  · rintro ⟨place, hl, h⟩
    split at h
    · rename_i bytes ha
      exact ⟨place, bytes, hl, ha, (Except.ok.inj h).symm⟩
    · cases h
    · cases h
  · rintro ⟨place, bytes, hl, ha, rfl⟩
    refine ⟨place, hl, ?_⟩
    rw [ha]

end Slot

/-! ## Trees that grow -/

/-- New directories, and no other change. -/
structure Grows (t u : FileTree) : Prop where
  current : u.current = t.current
  at? : ∀ place, u.at? place = t.at? place ∨ t.at? place = none ∧ u.at? place = some .dir
  proper : t.Proper → u.Proper

namespace Grows

theorem refl (t : FileTree) : Grows t t := ⟨rfl, fun _ => Or.inl rfl, id⟩

theorem keepsDirs {t u : FileTree} (h : Grows t u) : KeepsDirs t u := by
  refine ⟨h.current, fun place hd => ?_⟩
  obtain hsame | ⟨hnone, -⟩ := h.at? place
  · rw [hsame, hd]
  · rw [hnone] at hd
    cases hd

theorem trans {t mid after : FileTree} (h : Grows t mid) (g : Grows mid after) : Grows t after := by
  refine ⟨g.current.trans h.current, fun place => ?_, fun ht => g.proper (h.proper ht)⟩
  obtain hsame | ⟨hnone, hdir⟩ := h.at? place
  · rw [← hsame]
    exact g.at? place
  · exact Or.inr ⟨hnone, g.keepsDirs.dir place hdir⟩

theorem makeDir {t u : FileTree} {p : Path} (h : t.makeDir p = .ok u) : Grows t u := by
  obtain ⟨place, hnone, rfl, -, hproper⟩ := makeDir_ok h
  have hne : place ≠ [] := ne_root_of_at? (by rw [hnone]; nofun)
  refine ⟨rfl, fun q => ?_, fun ht => ht.put hne (hproper ht) .dir⟩
  rw [at?_put hne]
  by_cases hq : q = place
  · right
    rw [if_pos hq, hq]
    exact ⟨hnone, rfl⟩
  · left
    rw [if_neg hq]

end Grows

end HelpMiner.FileTree
