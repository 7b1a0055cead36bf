import HelpMiner.Files.Path
import HelpMiner.Proofs.Text.Blank

/-! Paths of what a directory holds: the path of the directory with one more name. -/
namespace HelpMiner.Path

open Text (cutWhere)

/-- A name that a directory can hold. -/
structure IsName (n : String) : Prop where
  not_step : n ∉ ["", ".", ".."]
  no_slash : '/' ∉ n.toList

instance (n : String) : Decidable (IsName n) :=
  decidable_of_iff (n ∉ ["", ".", ".."] ∧ '/' ∉ n.toList) ⟨fun h => ⟨h.1, h.2⟩, fun h => ⟨h.1, h.2⟩⟩

theorem IsName.toList_ne {n : String} (h : IsName n) :
    n.toList ≠ [] ∧ n.toList ≠ ['.'] ∧ n.toList ≠ ['.', '.'] := by
  have hne := h.not_step
  simp only [List.mem_cons, List.not_mem_nil, or_false, not_or, ← String.toList_inj] at hne
  exact hne

/-- With a character other than a dot, a text is no step of another sort. -/
theorem IsName.of_char {n : String} {c : Char} (hslash : '/' ∉ n.toList) (hc : c ∈ n.toList)
    (hdot : c ≠ '.') : IsName n := by
  have hdots : ∀ m ∈ ["", ".", ".."], ∀ d ∈ m.toList, d = '.' := by simp
  exact ⟨fun hstep => hdot (hdots n hstep c hc), hslash⟩

theorem step?_name {n : String} (h : IsName n) : step? n.toList = some (.name n) := by
  obtain ⟨hempty, hhere, hup⟩ := h.toList_ne
  have hplain : ¬ (n.toList == [] || n.toList == ['.']) = true := by
    rw [Bool.or_eq_true, beq_iff_eq, beq_iff_eq, not_or]
    exact ⟨hempty, hhere⟩
  have hdown : ¬ (n.toList == ['.', '.']) = true := by
    rw [beq_iff_eq]
    exact hup
  unfold step?
  rw [if_neg hplain, if_neg hdown, String.ofList_toList]

theorem eq_toList_of_step? {piece : List Char} {n : String} (h : step? piece = some (.name n)) :
    piece = n.toList := by
  unfold step? at h
  split at h
  · cases h
  · split at h
    · cases h
    · cases h
      exact String.toList_ofList.symm

theorem isName_of_step? {piece : List Char} {n : String} (h : step? piece = some (.name n))
    (hp : '/' ∉ piece) : IsName n := by
  have hpiece := eq_toList_of_step? h
  unfold step? at h
  split at h
  · cases h
  · rename_i hhere
    split at h
    · cases h
    · rename_i hup
      refine ⟨?_, by rwa [← hpiece]⟩
      simp only [Bool.or_eq_true, beq_iff_eq, not_or] at hhere hup
      simp only [List.mem_cons, List.not_mem_nil, or_false, not_or, ← String.toList_inj, ← hpiece]
      exact ⟨hhere.1, hhere.2, hup⟩

theorem cutWhere_name {n : String} (hn : '/' ∉ n.toList) :
    cutWhere (· == '/') n.toList = [n.toList] := by
  apply Text.cutWhere_piece
  intro c hc
  rw [beq_eq_false_iff_ne]
  rintro rfl
  exact hn hc

/-- A path with a name after its last slash. -/
def EndsInName (p : Path) : Prop :=
  ∃ front n, IsName n ∧ cutWhere (· == '/') p.text.toList = front ++ [n.toList]

/-- The name after the last slash is the file name. -/
theorem fileName?_of_cutWhere {p : Path} {n : String} {front : List (List Char)} (hn : IsName n)
    (hcut : cutWhere (· == '/') p.text.toList = front ++ [n.toList]) : p.fileName? = some n := by
  have hsteps : (front ++ [n.toList]).filterMap step? = front.filterMap step? ++ [.name n] := by
    rw [List.filterMap_append, List.filterMap_cons_some (step?_name hn), List.filterMap_nil]
  have hlast : p.components.getLast? = some (.name n) := by
    unfold components
    simp only [hcut, hsteps]
    split
    · rw [← List.cons_append, List.getLast?_concat]
    · split
      · rw [← List.cons_append, List.getLast?_concat]
      · exact List.getLast?_concat
  unfold fileName?
  rw [hlast]

theorem fileName?_name {n : String} (hn : IsName n) : fileName? ⟨n⟩ = some n := by
  have hcut : cutWhere (· == '/') n.toList = [] ++ [n.toList] := cutWhere_name hn.no_slash
  exact fileName?_of_cutWhere hn hcut

/-- No extension has a dot. -/
theorem no_dot_of_extension? {p : Path} {ext : String} (h : p.extension? = some ext) :
    '.' ∉ ext.toList := by
  unfold extension? at h
  split at h
  · cases h
  · rename_i n _
    dsimp only at h
    split at h
    · obtain rfl := Option.some.inj h
      rw [String.toList_ofList, List.mem_reverse]
      intro hm
      simpa using List.mem_takeWhile_imp hm
    · cases h

/-- The extension of a name is what follows a dot in it, if that has no dot and does not come
first. -/
theorem extension?_name {stem ext : String} (hn : IsName (stem ++ "." ++ ext)) (hstem : stem ≠ "")
    (hdot : '.' ∉ ext.toList) : extension? ⟨stem ++ "." ++ ext⟩ = some ext := by
  have hback : (stem ++ "." ++ ext).toList.reverse =
      ext.toList.reverse ++ '.' :: stem.toList.reverse := by simp
  have hplain : ∀ c ∈ ext.toList.reverse, (c != '.') = true := by
    intro c hc
    rw [bne_iff_ne]
    rintro rfl
    exact hdot (List.mem_reverse.1 hc)
  have htake : (ext.toList.reverse ++ '.' :: stem.toList.reverse).takeWhile (· != '.') =
      ext.toList.reverse := by
    rw [List.takeWhile_append_of_pos hplain, List.takeWhile_cons_of_neg (by simp),
      List.append_nil]
  have hpos : 0 < stem.toList.length := by
    rw [List.length_pos_iff]
    exact fun h => hstem (String.toList_eq_nil_iff.1 h)
  unfold extension?
  rw [fileName?_name hn]
  simp only [hback, htake, List.reverse_reverse, String.ofList_toList]
  rw [if_pos (by simpa using hpos)]

theorem fileName?_eq_of_same {p q : Path} (h : p.same q = true) : p.fileName? = q.fileName? := by
  unfold fileName?
  rw [beq_iff_eq.1 h]

theorem EndsInName.getLast?_ne {p : Path} (h : EndsInName p) : p.text.toList.getLast? ≠ some '/' := by
  intro hlast
  obtain ⟨front, n, hn, hcut⟩ := h
  obtain ⟨init, hinit⟩ := List.getLast?_eq_some_iff.1 hlast
  rw [hinit, Text.cutWhere_append_cons (by decide)] at hcut
  have hempty := (List.append_inj' hcut rfl).2
  exact hn.toList_ne.1 (List.head_eq_of_cons_eq hempty).symm

/-- The pieces of a path to which one more piece is joined. -/
def lead (p : Path) : List (List Char) :=
  if p.text.isEmpty then []
  else if p.text.toList.getLast? == some '/' then (cutWhere (· == '/') p.text.toList).dropLast
  else cutWhere (· == '/') p.text.toList

section Join

variable (p : Path) {n : String}

theorem not_isAbsolute (hn : '/' ∉ n.toList) : isAbsolute ⟨n⟩ = false := by
  unfold isAbsolute
  rw [beq_eq_false_iff_ne]
  exact fun hh => hn (List.mem_of_mem_head? hh)

/-- The pieces of a joined path follow those of the directory. -/
theorem cutWhere_join_relative {q : Path} (hq : q.isAbsolute = false) :
    cutWhere (· == '/') (p.join q).text.toList = p.lead ++ cutWhere (· == '/') q.text.toList := by
  unfold join lead
  rw [if_neg (by rw [hq]; exact Bool.false_ne_true)]
  by_cases hempty : p.text.isEmpty = true
  · obtain rfl : p = ⟨""⟩ := by
      obtain ⟨text⟩ := p
      simpa using hempty
    simp
  · by_cases hlast : p.text.toList.getLast? = some '/'
    · obtain ⟨init, hinit⟩ := List.getLast?_eq_some_iff.1 hlast
      have hcut : cutWhere (· == '/') (init ++ ['/']) = cutWhere (· == '/') init ++ [[]] :=
        Text.cutWhere_append_cons (by decide) init []
      have hjoined : cutWhere (· == '/') (init ++ '/' :: q.text.toList) =
          cutWhere (· == '/') init ++ cutWhere (· == '/') q.text.toList :=
        Text.cutWhere_append_cons (by decide) _ _
      simp [hempty, hinit, hcut, hjoined]
    · have hjoined : cutWhere (· == '/') (p.text.toList ++ '/' :: q.text.toList) =
          cutWhere (· == '/') p.text.toList ++ cutWhere (· == '/') q.text.toList :=
        Text.cutWhere_append_cons (by decide) _ _
      simp [hempty, hlast, hjoined]

/-- A joined name is the last piece. -/
theorem cutWhere_join (hn : '/' ∉ n.toList) :
    cutWhere (· == '/') (p.join ⟨n⟩).text.toList = p.lead ++ [n.toList] := by
  rw [cutWhere_join_relative p (not_isAbsolute hn), cutWhere_name hn]

theorem EndsInName.isName (hn : '/' ∉ n.toList) (h : EndsInName (p.join ⟨n⟩)) : IsName n := by
  obtain ⟨front, m, hm, hcut⟩ := h
  rw [cutWhere_join p hn] at hcut
  have hlast := List.head_eq_of_cons_eq (List.append_inj' hcut rfl).2
  rwa [String.toList_inj.1 hlast]

/-- Slashes at the end of a path stand between it and a joined name. -/
theorem exists_cutWhere_eq_lead (hp : p.text ≠ "") : ∃ empties : List (List Char),
    (∀ piece ∈ empties, piece = []) ∧ cutWhere (· == '/') p.text.toList = p.lead ++ empties := by
  have hempty : ¬ p.text.isEmpty = true := by simpa using hp
  unfold lead
  rw [if_neg hempty]
  by_cases hlast : p.text.toList.getLast? = some '/'
  · obtain ⟨init, hinit⟩ := List.getLast?_eq_some_iff.1 hlast
    have hcut : cutWhere (· == '/') (init ++ ['/']) = cutWhere (· == '/') init ++ [[]] :=
      Text.cutWhere_append_cons (by decide) init []
    exact ⟨[[]], by simp, by simp [hinit, hcut]⟩
  · exact ⟨[], by simp, by simp [hlast]⟩

/-- A joined path begins with the path of the directory. -/
theorem exists_text_join {q : Path} (hq : q.isAbsolute = false) :
    ∃ rest, (p.join q).text = p.text ++ rest := by
  unfold join
  rw [if_neg (by rw [hq]; exact Bool.false_ne_true)]
  split
  · exact ⟨q.text, rfl⟩
  · exact ⟨"/" ++ q.text, String.append_assoc⟩

theorem isAbsolute_join (hn : '/' ∉ n.toList) : (p.join ⟨n⟩).isAbsolute = p.isAbsolute := by
  have hrel := not_isAbsolute hn
  unfold join
  rw [if_neg (by rw [hrel]; exact Bool.false_ne_true)]
  obtain ⟨text⟩ := p
  cases htext : text.toList with
  | nil =>
    obtain rfl : text = "" := String.toList_eq_nil_iff.1 htext
    simpa [isAbsolute] using hrel
  | cons c rest =>
    unfold isAbsolute
    split <;> simp [htext]

/-- The joined name is the last step, and the other steps are those of the directory. -/
theorem exists_components_join :
    ∃ steps, ∀ n, IsName n → (p.join ⟨n⟩).components = steps ++ [.name n] := by
  let steps := p.lead.filterMap step?
  refine ⟨if p.isAbsolute then .root :: steps
    else if p.lead.head? == some ['.'] then .here :: steps else steps, fun n h => ?_⟩
  have hsteps : (p.lead ++ [n.toList]).filterMap step? = steps ++ [.name n] := by
    rw [List.filterMap_append, List.filterMap_cons_some (step?_name h), List.filterMap_nil]
  have hhead : ((p.lead ++ [n.toList]).head? == some ['.']) = (p.lead.head? == some ['.']) := by
    cases p.lead with
    | nil =>
      have hhere := h.toList_ne.2.1
      simpa using hhere
    | cons piece rest => rfl
  unfold components
  rw [cutWhere_join p h.no_slash, isAbsolute_join p h.no_slash]
  simp only [hsteps, hhead]
  split
  · rfl
  · split
    · rfl
    · rfl

theorem fileName?_join (h : IsName n) : (p.join ⟨n⟩).fileName? = some n :=
  fileName?_of_cutWhere h (cutWhere_join p h.no_slash)

theorem exists_cutWhere_join (q : Path) : ∃ front,
    cutWhere (· == '/') (p.join q).text.toList = front ++ cutWhere (· == '/') q.text.toList := by
  cases hq : q.isAbsolute with
  | true =>
    refine ⟨[], ?_⟩
    unfold join
    rw [if_pos hq, List.nil_append]
  | false => exact ⟨p.lead, cutWhere_join_relative p hq⟩

/-- What a text ends in, slashes and lone dots apart, the file name of the joined path ends in. -/
theorem exists_fileName?_join (stem : String) : ∃ last, ∀ ending : String, '/' ∉ ending.toList →
    (∃ c ∈ ending.toList, c ≠ '.') →
      (p.join ⟨stem ++ ending⟩).fileName? = some (last ++ ending) := by
  obtain hnil | ⟨front, last, hstem⟩ :=
    List.eq_nil_or_concat (cutWhere (· == '/') stem.toList)
  · exact absurd hnil (Text.cutWhere_ne_nil _ _)
  rw [List.concat_eq_append] at hstem
  have hlast : '/' ∉ last := by
    intro hm
    have hpiece : last ∈ cutWhere (· == '/') stem.toList := by simp [hstem]
    have hcut := Text.of_mem_cutWhere hpiece '/' hm
    simp at hcut
  refine ⟨String.ofList last, fun ending hslash ⟨c, hc, hdot⟩ => ?_⟩
  have hending : ∀ d ∈ ending.toList, (d == '/') = false := by
    intro d hd
    rw [beq_eq_false_iff_ne]
    rintro rfl
    exact hslash hd
  have hname : (String.ofList last ++ ending).toList = last ++ ending.toList := by simp
  obtain ⟨lead, hjoin⟩ := exists_cutWhere_join p ⟨stem ++ ending⟩
  have hcut : cutWhere (· == '/') (p.join ⟨stem ++ ending⟩).text.toList =
      (lead ++ front) ++ [(String.ofList last ++ ending).toList] := by
    rw [hjoin, String.toList_append, Text.cutWhere_append_piece hending hstem, hname,
      List.append_assoc]
  have hn : IsName (String.ofList last ++ ending) := by
    refine IsName.of_char ?_ (hname ▸ List.mem_append_right last hc) hdot
    rw [hname, List.mem_append, not_or]
    exact ⟨hlast, hslash⟩
  exact fileName?_of_cutWhere hn hcut

/-- The directory has no part in the extension. -/
theorem extension?_join (h : IsName n) : (p.join ⟨n⟩).extension? = extension? ⟨n⟩ := by
  unfold extension?
  rw [fileName?_join p h, fileName?_name h]

theorem same_join_iff {m n : String} (hm : IsName m) (hn : IsName n) :
    (p.join ⟨m⟩).same (p.join ⟨n⟩) = true ↔ m = n := by
  obtain ⟨steps, hsteps⟩ := exists_components_join p
  unfold same
  rw [hsteps m hm, hsteps n hn, beq_iff_eq]
  simp

end Join

end HelpMiner.Path
