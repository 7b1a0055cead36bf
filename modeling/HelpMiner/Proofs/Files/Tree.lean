import HelpMiner.Files.Tree
import HelpMiner.Proofs.Files.Path
import HelpMiner.Proofs.Table.Sorted

/-! Where paths lead in a tree of files, and what stays where it is when the tree changes. -/
namespace HelpMiner.FileTree

open HelpMiner.Path (IsName step?)
open Text (cutWhere)

/-- Work in two parts gives a result if both parts do. -/
theorem bind_eq_ok {ε α β : Type} {x : Except ε α} {f : α → Except ε β} {b : β} :
    x >>= f = .ok b ↔ ∃ a, x = .ok a ∧ f a = .ok b := by
  cases x with
  | error e => simp [bind, Except.bind]
  | ok a => simp [bind, Except.bind]

theorem ok_bind {ε α β : Type} (a : α) (f : α → Except ε β) : Except.ok a >>= f = f a := rfl

/-! ## Places -/

/-- Equal places have the same last name. -/
theorem name_inj {dir next : Place} {m n : String} (h : dir ++ [m] = next ++ [n]) : m = n :=
  List.singleton_inj.1 (List.append_inj' h rfl).2

theorem lookup_filter (p : Place → Bool) (nodes : List (Place × FileNode)) (q : Place) :
    (nodes.filter fun n => !p n.1).lookup q = if p q then none else nodes.lookup q := by
  induction nodes with
  | nil => simp
  | cons n rest ih =>
    obtain ⟨place, node⟩ := n
    rw [List.filter_cons]
    by_cases hq : q = place
    · subst hq
      by_cases hp : p q = true
      · simp [hp, ih]
      · simp [hp]
    · by_cases hp : p place = true
      · simp [hp, ih, List.lookup_cons, beq_eq_false_iff_ne.2 hq]
      · simp [hp, ih, List.lookup_cons, beq_eq_false_iff_ne.2 hq]

@[simp] theorem at?_root (t : FileTree) : t.at? [] = some .dir := if_pos rfl

theorem at?_put {place : Place} (hp : place ≠ []) (t : FileTree) (node : FileNode) (q : Place) :
    (t.put place node).at? q = if q = place then some node else t.at? q := by
  have hnodes : (t.put place node).nodes =
      (place, node) :: t.nodes.filter fun n => !(n.1 == place) := rfl
  unfold at?
  rw [hnodes]
  by_cases hq : q = []
  · subst hq
    rw [if_pos rfl, if_neg (Ne.symm hp), if_pos rfl]
  · rw [if_neg hq, if_neg hq, List.lookup_cons, lookup_filter (· == place)]
    by_cases he : q = place
    · simp [he]
    · simp [he, beq_eq_false_iff_ne.2 he]

theorem at?_without {place : Place} (hp : place ≠ []) (t : FileTree) (q : Place) :
    (t.without (· == place)).at? q = if q = place then none else t.at? q := by
  have hnodes : (t.without (· == place)).nodes = t.nodes.filter fun n => !(n.1 == place) := rfl
  unfold at?
  rw [hnodes]
  by_cases hq : q = []
  · subst hq
    rw [if_pos rfl, if_neg (Ne.symm hp), if_pos rfl]
  · rw [if_neg hq, if_neg hq, lookup_filter (· == place)]
    by_cases he : q = place
    · simp [he]
    · simp [he]

/-- The names in a directory are those of the places in it. -/
theorem mem_keys_children {t : FileTree} {dir : Place} {n : String} :
    n ∈ (t.children dir).keys ↔ t.at? (dir ++ [n]) ≠ none := by
  have hne : dir ++ [n] ≠ [] := List.concat_ne_nil n dir
  unfold children at?
  rw [if_neg hne, SortedTable.mem_keys_ofList, Ne, List.lookup_eq_none_iff]
  simp only [List.mem_map, List.mem_filterMap]
  constructor
  · rintro ⟨⟨name, node⟩, ⟨⟨place, other⟩, hm, hs⟩, rfl⟩ hnone
    split at hs
    · rename_i last hl
      split at hs
      · rename_i hd
        cases hs
        have hplace : dir ++ [name] = place := by
          rw [← beq_iff_eq.1 hd]
          exact List.dropLast_append_getLast? name hl
        exact absurd hplace (by simpa using hnone _ hm)
      · cases hs
    · cases hs
  · intro hsome
    simp only [not_forall] at hsome
    obtain ⟨⟨place, node⟩, hm, hs⟩ := hsome
    obtain rfl : dir ++ [n] = place := by simpa using hs
    exact ⟨(n, node), ⟨_, hm, by simp⟩, rfl⟩

/-! ## Walking -/

section Walk

variable {t u : FileTree} {place q : Place} {piece : List Char}

/-- A step can be taken from a directory only. -/
theorem at?_of_follow (h : t.follow place piece = .ok q) : t.at? place = some .dir := by
  unfold follow at h
  split at h
  · cases h
  · cases h
  · rename_i hd
    exact hd

theorem follow_eq (h : t.at? place = some .dir) (piece : List Char) : t.follow place piece =
    match step? piece with
    | none | some .root | some .here => .ok place
    | some .up => .ok place.dropLast
    | some (.name n) =>
      if maxName < n.utf8ByteSize then .error .nameTooLong else .ok (place ++ [n]) := by
  unfold follow
  split
  · rename_i hnone
    cases h.symm.trans hnone
  · rename_i hfile
    cases h.symm.trans hfile
  · rfl

theorem follow_empty (h : t.at? place = some .dir) : t.follow place [] = .ok place := by
  rw [follow_eq h]
  rfl

theorem follow_name {n : String} (hn : IsName n) (h : t.follow place n.toList = .ok q) :
    q = place ++ [n] := by
  rw [follow_eq (at?_of_follow h), Path.step?_name hn] at h
  simp only at h
  split at h
  · cases h
  · cases h
    rfl

/-- Slashes at the end lead nowhere else. -/
theorem foldlM_empty {pieces : List (List Char)} (he : ∀ piece ∈ pieces, piece = [])
    (h : pieces.foldlM t.follow place = .ok q) : q = place := by
  induction pieces with
  | nil =>
    cases h
    rfl
  | cons piece rest ih =>
    obtain rfl := he piece List.mem_cons_self
    rw [List.foldlM_cons] at h
    obtain ⟨next, hf, hrest⟩ := bind_eq_ok.1 h
    have hnext : next = place := by
      rw [follow_empty (at?_of_follow hf)] at hf
      exact (Except.ok.inj hf).symm
    rw [hnext] at hrest
    exact ih (fun x hx => he x (List.mem_cons_of_mem _ hx)) hrest

theorem foldlM_empty_of_dir {pieces : List (List Char)} (he : ∀ piece ∈ pieces, piece = [])
    (h : t.at? place = some .dir) : pieces.foldlM t.follow place = .ok place := by
  induction pieces with
  | nil => rfl
  | cons piece rest ih =>
    obtain rfl := he piece List.mem_cons_self
    rw [List.foldlM_cons, follow_empty h]
    exact ih fun x hx => he x (List.mem_cons_of_mem _ hx)

end Walk

/-! ## Looking up -/

/-- A path that can be looked up. -/
structure Usable (p : Path) : Prop where
  not_empty : p.text ≠ ""
  no_zero : '\x00' ∉ p.text.toList
  short : p.text.utf8ByteSize ≤ maxPath

theorem piecesOf_eq_ok {p : Path} {pieces : List (List Char)} :
    piecesOf p = .ok pieces ↔ Usable p ∧ cutWhere (· == '/') p.text.toList = pieces := by
  unfold piecesOf
  constructor
  · intro h
    split at h
    · cases h
    · rename_i hempty
      split at h
      · cases h
      · rename_i hzero
        split at h
        · cases h
        · rename_i hlong
          refine ⟨⟨?_, ?_, Nat.not_lt.1 hlong⟩, Except.ok.inj h⟩
          · simpa using hempty
          · simpa using hzero
  · rintro ⟨⟨hempty, hzero, hshort⟩, rfl⟩
    rw [if_neg (by simpa using hempty), if_neg (by simpa using hzero), if_neg (Nat.not_lt.2 hshort)]

theorem Usable.piecesOf {p : Path} (h : Usable p) :
    piecesOf p = .ok (cutWhere (· == '/') p.text.toList) :=
  piecesOf_eq_ok.2 ⟨h, rfl⟩

section Locate

variable {t : FileTree} {p : Path} {place dir : Place} {n : String}

theorem locate_eq_ok : t.locate p = .ok place ↔
    Usable p ∧ (cutWhere (· == '/') p.text.toList).foldlM t.follow (t.start p) = .ok place := by
  unfold locate
  rw [bind_eq_ok]
  constructor
  · rintro ⟨pieces, hp, hf⟩
    obtain ⟨hu, rfl⟩ := piecesOf_eq_ok.1 hp
    exact ⟨hu, hf⟩
  · rintro ⟨hu, hf⟩
    exact ⟨_, hu.piecesOf, hf⟩

theorem find_eq_ok {node : FileNode} :
    t.find p = .ok node ↔ ∃ place, t.locate p = .ok place ∧ t.at? place = some node := by
  unfold find
  cases hl : t.locate p with
  | error why => simp [bind, Except.bind]
  | ok place => cases ha : t.at? place with
    | none => simp [bind, Except.bind, ha]
    | some other => simp [bind, Except.bind, ha]

theorem find_of_none (hl : t.locate p = .ok place) (ha : t.at? place = none) :
    t.find p = .error .notFound := by
  unfold find
  rw [hl, ok_bind, ha]

theorem isFile_iff : t.isFile p = true ↔
    ∃ place bytes, t.locate p = .ok place ∧ t.at? place = some (.file bytes) := by
  have hfind : t.isFile p = true ↔ ∃ bytes, t.find p = .ok (.file bytes) := by
    unfold isFile
    split
    · rename_i bytes hf
      exact iff_of_true rfl ⟨bytes, hf⟩
    · rename_i hf
      simpa using hf
  rw [hfind]
  constructor
  · rintro ⟨bytes, hf⟩
    obtain ⟨place, hl, ha⟩ := find_eq_ok.1 hf
    exact ⟨place, bytes, hl, ha⟩
  · rintro ⟨place, bytes, hl, ha⟩
    exact ⟨bytes, find_eq_ok.2 ⟨place, hl, ha⟩⟩

theorem isDir_iff : t.isDir p = true ↔
    ∃ place, t.locate p = .ok place ∧ t.at? place = some .dir := by
  rw [← find_eq_ok]
  unfold isDir
  split
  · rename_i hf
    exact iff_of_true rfl hf
  · rename_i hf
    simpa using hf

theorem list_eq_ok {nodes : SortedTable FileNode} : t.list p = .ok nodes ↔
    ∃ place, t.locate p = .ok place ∧ t.at? place = some .dir ∧ nodes = t.children place := by
  unfold list
  rw [bind_eq_ok]
  constructor
  · rintro ⟨place, hl, h⟩
    split at h
    · rename_i ha
      exact ⟨place, hl, ha, (Except.ok.inj h).symm⟩
    · cases h
    · cases h
  · rintro ⟨place, hl, ha, rfl⟩
    refine ⟨place, hl, ?_⟩
    rw [ha]

/-- A file with the bytes of a text is read as that text. -/
theorem text_of_file {s : String} (hl : t.locate p = .ok place)
    (ha : t.at? place = some (.file s.toUTF8)) : t.text p = .ok s := by
  have hbytes : t.bytes p = .ok s.toUTF8 := by
    unfold bytes
    rw [find_eq_ok.2 ⟨place, hl, ha⟩]
    rfl
  have hutf8 : String.fromUTF8? s.toUTF8 = some s := by
    simp only [String.fromUTF8?, Option.dite_none_right_eq_some, Option.some.injEq]
    exact ⟨s.isValidUTF8, rfl⟩
  unfold text
  rw [hbytes, ok_bind, hutf8]

/-! ## Joined names -/

/-- The directory that a name is seen from which is joined to a path. -/
def base (t : FileTree) (p : Path) : Except Trouble Place := p.lead.foldlM t.follow (t.start p)

theorem locate_of_base (hu : Usable p) (hb : t.base p = .ok dir) (hd : t.at? dir = some .dir) :
    t.locate p = .ok dir := by
  obtain ⟨empties, hempties, hcut⟩ := p.exists_cutWhere_eq_lead hu.not_empty
  rw [locate_eq_ok, hcut, List.foldlM_append, bind_eq_ok]
  exact ⟨hu, dir, hb, foldlM_empty_of_dir hempties hd⟩

theorem Usable.of_join (hn : '/' ∉ n.toList) (hp : p.text ≠ "") (h : Usable (p.join ⟨n⟩)) :
    Usable p := by
  obtain ⟨rest, htext⟩ := p.exists_text_join (Path.not_isAbsolute hn)
  have hzero := h.no_zero
  have hshort := h.short
  rw [htext, String.toList_append, List.mem_append, not_or] at hzero
  rw [htext, String.utf8ByteSize_append] at hshort
  exact ⟨hp, hzero.1, by omega⟩

theorem start_join (hn : '/' ∉ n.toList) : t.start (p.join ⟨n⟩) = t.start p := by
  unfold start
  rw [Path.isAbsolute_join p hn]

/-- A joined name is looked up in the directory. -/
theorem locate_join (hn : IsName n) (h : t.locate (p.join ⟨n⟩) = .ok place) :
    ∃ dir, t.base p = .ok dir ∧ t.at? dir = some .dir ∧ place = dir ++ [n] := by
  obtain ⟨-, hfold⟩ := locate_eq_ok.1 h
  rw [Path.cutWhere_join p hn.no_slash, List.foldlM_append, start_join hn.no_slash] at hfold
  obtain ⟨dir, hlead, hlast⟩ := bind_eq_ok.1 hfold
  have hstep : t.follow dir n.toList = .ok place := by
    obtain ⟨q, hq, rfl⟩ : ∃ q, t.follow dir n.toList = .ok q ∧ q = place := by
      simpa [List.foldlM, bind_eq_ok] using hlast
    exact hq
  exact ⟨dir, hlead, at?_of_follow hstep, follow_name hn hstep⟩

end Locate

end HelpMiner.FileTree
