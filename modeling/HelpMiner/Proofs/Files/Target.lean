import HelpMiner.Proofs.Files.Change

/-! Where a path leads by its steps alone, whether the way is there or not. -/
namespace HelpMiner.FileTree

open HelpMiner.Path (IsName step?)
open Text (cutWhere)

/-- Go along one piece of a path, whatever is on the way. -/
def walk (place : Place) (piece : List Char) : Place :=
  match step? piece with
  | none | some .root | some .here => place
  | some .up => place.dropLast
  | some (.name n) => place ++ [n]

/-- The place that a path leads to once all directories on the way are there. -/
def target (t : FileTree) (p : Path) : Place :=
  (cutWhere (· == '/') p.text.toList).foldl walk (t.start p)

/-- There is nothing in the directory that a path leads to, nor where that directory would be. -/
def HoldsNothing (t : FileTree) (p : Path) : Prop := ∀ n, t.at? (t.target p ++ [n]) = none

theorem holdsNothing_of_nodes {t : FileTree} {p : Path}
    (h : ∀ n ∈ t.nodes, n.1.dropLast ≠ t.target p) : t.HoldsNothing p := by
  intro n
  unfold at?
  rw [if_neg (List.concat_ne_nil n _), List.lookup_eq_none_iff]
  intro e he
  rw [bne_iff_ne]
  intro hplace
  exact h e he (by rw [← hplace, List.dropLast_concat])

variable {t u : FileTree} {p : Path} {place q : Place}

theorem walk_empty (place : Place) : walk place [] = place := rfl

/-- A step that can be taken is the one that the piece tells. -/
theorem eq_walk_of_follow {piece : List Char} (h : t.follow place piece = .ok q) :
    q = walk place piece := by
  rw [follow_eq (at?_of_follow h)] at h
  unfold walk
  cases hstep : step? piece with
  | none =>
    rw [hstep] at h
    exact (Except.ok.inj h).symm
  | some step =>
    rw [hstep] at h
    cases step with
    | root => exact (Except.ok.inj h).symm
    | here => exact (Except.ok.inj h).symm
    | up => exact (Except.ok.inj h).symm
    | name n =>
      simp only at h
      split at h
      · cases h
      · exact (Except.ok.inj h).symm

theorem eq_foldl_walk {pieces : List (List Char)} (h : pieces.foldlM t.follow place = .ok q) :
    q = pieces.foldl walk place := by
  induction pieces generalizing place with
  | nil => exact (Except.ok.inj h).symm
  | cons piece rest ih =>
    rw [List.foldlM_cons] at h
    obtain ⟨next, hstep, hrest⟩ := bind_eq_ok.1 h
    rw [List.foldl_cons, ← eq_walk_of_follow hstep]
    exact ih hrest

/-- Slashes at the end lead nowhere else. -/
theorem foldl_walk_empty {pieces : List (List Char)} (he : ∀ piece ∈ pieces, piece = [])
    (place : Place) : pieces.foldl walk place = place := by
  induction pieces with
  | nil => rfl
  | cons piece rest ih =>
    rw [he piece List.mem_cons_self, List.foldl_cons, walk_empty]
    exact ih fun x hx => he x (List.mem_cons_of_mem _ hx)

theorem target_eq_lead (t : FileTree) (p : Path) : t.target p = p.lead.foldl walk (t.start p) := by
  by_cases hp : p.text = ""
  · obtain rfl : p = ⟨""⟩ := congrArg Path.mk hp
    rfl
  · obtain ⟨empties, hempties, hcut⟩ := p.exists_cutWhere_eq_lead hp
    rw [target, hcut, List.foldl_append, foldl_walk_empty hempties]

/-- A joined name leads to that name in the directory. -/
theorem eq_target_append {n : String} (hn : IsName n) (h : t.locate (p.join ⟨n⟩) = .ok place) :
    place = t.target p ++ [n] := by
  obtain ⟨dir, hbase, -, rfl⟩ := locate_join hn h
  rw [target_eq_lead, ← eq_foldl_walk hbase]

theorem KeepsDirs.target (h : KeepsDirs t u) (p : Path) : u.target p = t.target p := by
  unfold FileTree.target
  rw [h.start]

end HelpMiner.FileTree
