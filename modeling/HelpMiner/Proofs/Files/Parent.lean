import HelpMiner.Proofs.Files.Path

/-! The parent of a path has all steps of the path but the last. -/
namespace HelpMiner.Path

open Text (cutWhere)

/-! ## Steps by pieces -/

/-- The step that the first piece of a path stands for, unless the path is empty. -/
def firstStep (piece : List Char) : Component :=
  if piece = [] then .root
  else if piece = ['.'] then .here
  else if piece = ['.', '.'] then .up
  else .name (String.ofList piece)

theorem step?_eq_firstStep {piece : List Char} (hempty : piece ≠ []) (hhere : piece ≠ ['.']) :
    step? piece = some (firstStep piece) := by
  unfold step? firstStep
  rw [if_neg hempty, if_neg hhere]
  by_cases hup : piece = ['.', '.']
  · simp [hup]
  · simp [hempty, hhere, hup]

theorem cutWhere_slash_eq {p : Path} (hne : p.text ≠ "") :
    ∃ first rest, cutWhere (· == '/') p.text.toList = first :: rest ∧
      (p.isAbsolute = true ↔ first = []) := by
  obtain ⟨first, rest, hcut⟩ :=
    List.exists_cons_of_ne_nil (Text.cutWhere_ne_nil (· == '/') p.text.toList)
  refine ⟨first, rest, hcut, ?_⟩
  unfold isAbsolute
  cases htext : p.text.toList with
  | nil => exact absurd (String.toList_eq_nil_iff.1 htext) hne
  | cons c more =>
    rw [htext] at hcut
    by_cases hc : c = '/'
    · rw [Text.cutWhere_cons_of_pos (by simp [hc])] at hcut
      simp [hc, (List.cons.inj hcut).1.symm]
    · rw [Text.cutWhere_cons_of_neg (by simp [hc])] at hcut
      simp [hc, (List.cons.inj hcut).1.symm]

theorem no_slash_of_mem_cut {p : Path} {pieces : List (List Char)}
    (h : cutWhere (· == '/') p.text.toList = pieces) : ∀ piece ∈ pieces, '/' ∉ piece := by
  intro piece hp hm
  rw [← h] at hp
  exact absurd (Text.of_mem_cutWhere hp '/' hm) (by decide)

/-- All pieces after the first count by their steps alone. -/
theorem components_eq {p : Path} (hne : p.text ≠ "") {first : List Char} {rest : List (List Char)}
    (h : cutWhere (· == '/') p.text.toList = first :: rest) :
    p.components = firstStep first :: rest.filterMap step? := by
  obtain ⟨_, _, hcut, habs⟩ := cutWhere_slash_eq hne
  obtain ⟨rfl, rfl⟩ := List.cons.inj (h.symm.trans hcut)
  unfold components
  simp only [h]
  by_cases hroot : first = []
  · have hstep : step? first = none := by rw [hroot]; rfl
    rw [if_pos (habs.2 hroot), List.filterMap_cons_none hstep, hroot]
    rfl
  · rw [if_neg (mt habs.1 hroot)]
    by_cases hhere : first = ['.']
    · have hstep : step? first = none := by rw [hhere]; rfl
      rw [if_pos (by simp [hhere]), List.filterMap_cons_none hstep, hhere]
      rfl
    · rw [if_neg (by simpa using hhere),
        List.filterMap_cons_some (step?_eq_firstStep hroot hhere)]

theorem components_empty : components ⟨""⟩ = [] := by decide

theorem firstStep_name {n : String} (h : IsName n) : firstStep n.toList = .name n := by
  have hstep := step?_eq_firstStep h.toList_ne.1 h.toList_ne.2.1
  rw [step?_name h] at hstep
  exact (Option.some.inj hstep).symm

theorem lead_ne_nil {p : Path} (hne : p.text ≠ "") : p.lead ≠ [] := by
  unfold lead
  rw [if_neg (by simpa using hne)]
  split
  · rename_i hlast
    obtain ⟨init, hinit⟩ := List.getLast?_eq_some_iff.1 (beq_iff_eq.1 hlast)
    rw [hinit, Text.cutWhere_append_cons (by decide),
      List.dropLast_append_of_ne_nil (by simp [cutWhere])]
    exact List.append_ne_nil_of_left_ne_nil (Text.cutWhere_ne_nil _ _) _
  · exact Text.cutWhere_ne_nil _ _

theorem text_join_ne {p q : Path} (hp : p.text ≠ "") (hq : q.isAbsolute = false) :
    (p.join q).text ≠ "" := by
  obtain ⟨rest, htext⟩ := p.exists_text_join hq
  rw [htext]
  exact fun h => hp (String.append_eq_empty_iff.1 h).1

/-- The steps of a joined path follow those of the directory, if that is not the empty path. -/
theorem components_join_relative {p q : Path} (hp : p.text ≠ "") (hq : q.isAbsolute = false) :
    (p.join q).components =
      p.components ++ (cutWhere (· == '/') q.text.toList).filterMap step? := by
  obtain ⟨first, more, hlead⟩ := List.exists_cons_of_ne_nil (lead_ne_nil hp)
  obtain ⟨empties, hempties, hcut⟩ := exists_cutWhere_eq_lead p hp
  have hnone : empties.filterMap step? = [] := by
    apply List.filterMap_eq_nil_iff.2
    intro piece hm
    rw [hempties piece hm]
    rfl
  have hjoined := cutWhere_join_relative p hq
  rw [hlead, List.cons_append] at hcut hjoined
  rw [components_eq (text_join_ne hp hq) hjoined, components_eq hp hcut, List.filterMap_append,
    List.filterMap_append, hnone, List.append_nil]
  rfl

theorem join_empty {q : Path} (hq : q.isAbsolute = false) : join ⟨""⟩ q = q := by
  unfold join
  rw [if_neg (by rw [hq]; exact Bool.false_ne_true)]
  simp

/-- A joined path begins with the steps of the directory. -/
theorem components_prefix_join (p : Path) {q : Path} (hq : q.isAbsolute = false) :
    p.components <+: (p.join q).components := by
  by_cases hp : p.text = ""
  · obtain rfl : p = ⟨""⟩ := congrArg Path.mk hp
    rw [components_empty]
    exact List.nil_prefix
  · rw [components_join_relative hp hq]
    exact List.prefix_append _ _

/-- A joined name is one step more. -/
theorem components_join (p : Path) {n : String} (h : IsName n) :
    (p.join ⟨n⟩).components = p.components ++ [.name n] := by
  have hrel : isAbsolute ⟨n⟩ = false := not_isAbsolute h.no_slash
  have hcut : cutWhere (· == '/') n.toList = [n.toList] := cutWhere_name h.no_slash
  by_cases hp : p.text = ""
  · obtain rfl : p = ⟨""⟩ := congrArg Path.mk hp
    have hne : n ≠ "" := fun hn => h.toList_ne.1 (String.toList_eq_nil_iff.2 hn)
    rw [join_empty hrel, components_eq hne hcut, components_empty, firstStep_name h]
    rfl
  · rw [components_join_relative hp hrel, hcut, List.filterMap_cons_some (step?_name h)]
    rfl

/-! ## The parent -/

/-- Whether a piece between slashes is no step. -/
def isIdle (piece : List Char) : Bool := (step? piece).isNone

theorem filterMap_dropWhile_isIdle (pieces : List (List Char)) :
    (pieces.dropWhile isIdle).filterMap step? = pieces.filterMap step? := by
  induction pieces with
  | nil => rfl
  | cons piece rest ih =>
    by_cases h : isIdle piece = true
    · rw [List.dropWhile_cons_of_pos h, ih,
        List.filterMap_cons_none (Option.isNone_iff_eq_none.1 h)]
    · rw [List.dropWhile_cons_of_neg h]

/-- Idle pieces at the end of a path do not matter. -/
theorem filterMap_rdropWhile_isIdle (pieces : List (List Char)) :
    (pieces.dropWhile isIdle).reverse.filterMap step? = pieces.reverse.filterMap step? := by
  rw [List.filterMap_reverse, List.filterMap_reverse, filterMap_dropWhile_isIdle]

theorem components_ofPieces {first : List Char} {rest : List (List Char)}
    (hslash : ∀ piece ∈ first :: rest, '/' ∉ piece) (hne : first ≠ [] ∨ rest ≠ []) :
    (ofPieces (first :: rest)).components = firstStep first :: rest.filterMap step? := by
  have hcut : cutWhere (· == '/') (ofPieces (first :: rest)).text.toList = first :: rest := by
    unfold ofPieces
    rw [String.toList_ofList]
    apply Text.cutWhere_intercalate (by decide) (List.cons_ne_nil _ _)
    intro piece hp c hc
    rw [beq_eq_false_iff_ne]
    rintro rfl
    exact hslash piece hp hc
  have htext : (ofPieces (first :: rest)).text ≠ "" := by
    intro hempty
    rw [hempty] at hcut
    have hnil : first = [] ∧ rest = [] := by simpa [cutWhere, eq_comm] using hcut
    exact hne.elim (fun h => h hnil.1) fun h => h hnil.2
  exact components_eq htext hcut

/-- The path of the first piece and the pieces `before` the last step, which stand in reverse
order, without the idle ones at the end. -/
def frontPath (first : List Char) (before : List (List Char)) : Path :=
  if first = [] ∧ before.dropWhile isIdle = [] then ⟨"/"⟩
  else ofPieces (first :: (before.dropWhile isIdle).reverse)

theorem components_frontPath {first : List Char} {before : List (List Char)}
    (hslash : ∀ piece ∈ first :: before, '/' ∉ piece) :
    (frontPath first before).components = firstStep first :: (before.filterMap step?).reverse := by
  rw [← List.filterMap_reverse, ← filterMap_rdropWhile_isIdle]
  unfold frontPath
  split
  · rename_i hroot
    rw [hroot.1, hroot.2]
    rfl
  · rename_i hkept
    apply components_ofPieces
    · intro piece hp
      obtain rfl | hp := List.mem_cons.1 hp
      · exact hslash piece List.mem_cons_self
      · have hm := (List.dropWhile_suffix isIdle).subset (List.mem_reverse.1 hp)
        exact hslash piece (List.mem_cons_of_mem first hm)
    · rw [Ne, Ne, List.reverse_eq_nil_iff, ← Decidable.not_and_iff_not_or_not]
      exact hkept

section Parent

variable {p : Path} {first : List Char} {rest : List (List Char)}
  (hcut : cutWhere (· == '/') p.text.toList = first :: rest)
include hcut

theorem parent?_of_idle (h : rest.reverse.dropWhile isIdle = []) (hroot : first ≠ []) :
    p.parent? = some ⟨""⟩ := by
  unfold parent?
  change rest.reverse.dropWhile (fun piece => (step? piece).isNone) = [] at h
  rw [hcut]
  simp [h, hroot]

theorem parent?_of_step {last : List Char} {before : List (List Char)}
    (h : rest.reverse.dropWhile isIdle = last :: before) :
    p.parent? = some (frontPath first before) := by
  have hidle : (fun piece => (step? piece).isNone) = isIdle := rfl
  unfold parent? frontPath
  rw [hcut, hidle]
  simp only [h]
  split
  · rename_i hnil
    rw [List.reverse_eq_nil_iff] at hnil
    by_cases hroot : first = [] <;> simp [hroot, hnil]
  · rename_i hkept
    have hne : before.dropWhile isIdle ≠ [] := fun h => hkept (List.reverse_eq_nil_iff.2 h)
    rw [if_neg fun h => hne h.2]

end Parent

theorem text_ne_empty {p : Path} (h : p.components ≠ []) : p.text ≠ "" := by
  intro hempty
  obtain rfl : p = ⟨""⟩ := congrArg Path.mk hempty
  exact h components_empty

/-- A path whose last step is not the root has a parent, with the steps before the last. -/
theorem exists_parent? {p : Path} {steps : List Component} {s : Component}
    (h : p.components = steps ++ [s]) (hs : s ≠ .root) :
    ∃ dir, p.parent? = some dir ∧ dir.components = steps := by
  have hne : p.text ≠ "" := by
    apply text_ne_empty
    rw [h]
    exact List.append_ne_nil_of_right_ne_nil steps (List.cons_ne_nil s [])
  obtain ⟨first, rest, hcut, -⟩ := cutWhere_slash_eq hne
  have hslash := no_slash_of_mem_cut hcut
  have hback : rest.filterMap step? =
      ((rest.reverse.dropWhile isIdle).filterMap step?).reverse := by
    rw [filterMap_dropWhile_isIdle, List.filterMap_reverse, List.reverse_reverse]
  rw [components_eq hne hcut, hback] at h
  cases hlast : rest.reverse.dropWhile isIdle with
  | nil =>
    -- Only the first piece is a step, so the parent has none.
    rw [hlast] at h
    change [] ++ [firstStep first] = steps ++ [s] at h
    obtain ⟨rfl, hfirst⟩ := List.append_inj' h rfl
    have hroot : first ≠ [] := by
      rintro rfl
      exact hs (List.singleton_inj.1 hfirst).symm
    exact ⟨⟨""⟩, parent?_of_idle hcut hlast hroot, components_empty⟩
  | cons last before =>
    obtain ⟨t, ht⟩ : ∃ t, step? last = some t := by
      have hidle := List.head_dropWhile_not isIdle (l := rest.reverse) (by simp [hlast])
      simp only [hlast, List.head_cons, isIdle, Option.isNone_eq_false_iff] at hidle
      exact Option.isSome_iff_exists.1 hidle
    have hfront : ∀ piece ∈ first :: before, '/' ∉ piece := by
      intro piece hp
      obtain rfl | hp := List.mem_cons.1 hp
      · exact hslash piece List.mem_cons_self
      · have hm : piece ∈ rest.reverse.dropWhile isIdle := hlast ▸ List.mem_cons_of_mem last hp
        have hrest := List.mem_reverse.1 ((List.dropWhile_suffix isIdle).subset hm)
        exact hslash piece (List.mem_cons_of_mem first hrest)
    rw [hlast, List.filterMap_cons_some ht, List.reverse_cons, ← List.cons_append] at h
    obtain ⟨rfl, -⟩ := List.append_inj' h rfl
    exact ⟨_, parent?_of_step hcut hlast, components_frontPath hfront⟩

/-- All names in a directory have the same parent. -/
theorem parent?_join (p : Path) {n : String} (h : IsName n) : (p.join ⟨n⟩).parent? =
    match p.lead with
    | [] => some ⟨""⟩
    | first :: more => some (frontPath first more.reverse) := by
  have hcut := cutWhere_join p h.no_slash
  cases hlead : p.lead with
  | nil =>
    rw [hlead, List.nil_append] at hcut
    exact parent?_of_idle hcut rfl h.toList_ne.1
  | cons first more =>
    have hstep : ¬ isIdle n.toList = true := by
      rw [isIdle, step?_name h]
      exact Bool.false_ne_true
    rw [hlead, List.cons_append] at hcut
    apply parent?_of_step hcut
    rw [List.reverse_append, List.reverse_singleton, List.singleton_append,
      List.dropWhile_cons_of_neg hstep]

/-! ## Directly in a directory -/

theorem isName_of_firstStep {piece : List Char} {n : String} (h : firstStep piece = .name n)
    (hslash : '/' ∉ piece) : IsName n := by
  have hempty : piece ≠ [] := by
    rintro rfl
    cases h
  have hhere : piece ≠ ['.'] := by
    rintro rfl
    cases h
  have hstep := step?_eq_firstStep hempty hhere
  rw [h] at hstep
  exact isName_of_step? hstep hslash

/-- The names among the steps of a path are names that a directory can hold. -/
theorem isName_of_mem_components {p : Path} {n : String} (h : .name n ∈ p.components) :
    IsName n := by
  have hne := text_ne_empty (List.ne_nil_of_mem h)
  obtain ⟨first, rest, hcut, -⟩ := cutWhere_slash_eq hne
  rw [components_eq hne hcut] at h
  obtain h | h := List.mem_cons.1 h
  · exact isName_of_firstStep h.symm (no_slash_of_mem_cut hcut first List.mem_cons_self)
  · obtain ⟨piece, hp, hstep⟩ := List.mem_filterMap.1 h
    exact isName_of_step? hstep
      (no_slash_of_mem_cut hcut piece (List.mem_cons_of_mem first hp))

theorem isName_of_fileName? {p : Path} {n : String} (h : p.fileName? = some n) : IsName n := by
  unfold fileName? at h
  split at h
  · rename_i m hlast
    obtain rfl := Option.some.inj h
    exact isName_of_mem_components (List.mem_of_getLast? hlast)
  · cases h

/-- The path `p` leads to `n` directly in the directory. -/
structure DirectlyIn (p dir : Path) (n : String) : Prop where
  parent : ∃ q, p.parent? = some q ∧ q.same dir = true
  name : p.fileName? = some n

/-- A joined text leads directly into the directory just if it is one name. -/
theorem directlyIn_join_iff (dir : Path) (n : String) :
    DirectlyIn (dir.join ⟨n⟩) dir n ↔ IsName n := by
  constructor
  · intro h
    exact isName_of_fileName? h.name
  · intro h
    obtain ⟨q, hq, hsteps⟩ := exists_parent? (components_join dir h) (by simp)
    exact ⟨⟨q, hq, beq_iff_eq.2 hsteps⟩, fileName?_join dir h⟩

end HelpMiner.Path
