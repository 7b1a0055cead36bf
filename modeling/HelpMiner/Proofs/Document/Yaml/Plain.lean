import HelpMiner.Document.Yaml.Scalar
import HelpMiner.Proofs.Document.Yaml.Cursor
import Mathlib.Data.List.Basic
import Mathlib.Data.List.TakeWhile
import Mathlib.Data.Nat.Init

/-! Plain scalars are read as their texts, up to a colon or the end of the line. -/
namespace HelpMiner.Document.Yaml

/-- A text that is at its end or begins with neither a blank nor a break. -/
def AtInk (t : List Char) : Prop := ∀ x more, t = x :: more → isBlank x = false ∧ isBreak x = false

/-! ## Gaps -/

theorem gap_ink (margin : Nat) {fuel : Nat} (hfuel : 0 < fuel) (g : Gap) {c : Cursor}
    (h : AtInk c.rest) : gap margin fuel g c = some (g, c) := by
  obtain ⟨fuel, rfl⟩ : ∃ n, fuel = n + 1 := ⟨fuel - 1, by omega⟩
  unfold gap
  cases hrest : c.rest with
  | nil => rfl
  | cons x more =>
    obtain ⟨hblank, hbreak⟩ := h x more hrest
    simp [hblank, hbreak]

theorem gap_blank (margin fuel : Nat) (b : List Char) {c : Cursor} {x : Char} {more : List Char}
    (hrest : c.rest = x :: more) (hx : isBlank x = true) :
    gap margin (fuel + 1) (.blanks b) c = gap margin fuel (.blanks (b ++ [x])) (c.past [x]) := by
  rw [gap, hrest]
  simp [hx, Gap.hasBreak, Gap.addBlank, Cursor.skip_one_eq_past c (isBreak_of_isBlank hx)]

theorem gap_space (margin fuel : Nat) (first more : List Char) {c : Cursor} {rest : List Char}
    (hrest : c.rest = ' ' :: rest) :
    gap margin (fuel + 1) (.breaks first more) c =
      gap margin fuel (.breaks first more) (c.past [' ']) := by
  rw [gap, hrest]
  simp [isBlank, Gap.addBlank, Cursor.skip_one_eq_past c (show isBreak ' ' = false from rfl)]

/-- The line breaks that a text has as they are. -/
def IsPlainBreak (x : Char) : Prop := x = '\n' ∨ x = '\u2028' ∨ x = '\u2029'

theorem IsPlainBreak.isBreak {x : Char} (h : IsPlainBreak x) : isBreak x = true := by
  rcases h with rfl | rfl | rfl <;> rfl

theorem IsPlainBreak.ne_return {x : Char} (h : IsPlainBreak x) : x ≠ '\r' := by
  rcases h with rfl | rfl | rfl <;> decide

theorem lineBreak_eq {c : Cursor} {x : Char} {rest : List Char} (hrest : c.rest = x :: rest)
    (hx : IsPlainBreak x) : c.lineBreak = [x] := by
  unfold Cursor.lineBreak
  rw [hrest]
  rcases hx with rfl | rfl | rfl <;> rfl

theorem gap_break (margin fuel : Nat) (g : Gap) {c : Cursor} {x : Char} {rest : List Char}
    (hrest : c.rest = x :: rest) (hx : IsPlainBreak x) :
    gap margin (fuel + 1) g c = gap margin fuel (g.addBreak [x]) (c.past [x]) := by
  have hblank : isBlank x = false := by rcases hx with rfl | rfl | rfl <;> rfl
  rw [gap, hrest]
  simp [hblank, hx.isBreak, lineBreak_eq hrest hx,
    Cursor.skipLine_eq_past hrest hx.isBreak hx.ne_return]

theorem gap_blanks (margin : Nat) {sp : List Char} (hsp : ∀ x ∈ sp, isBlank x = true)
    {fuel : Nat} (hfuel : sp.length < fuel) (b : List Char) {c : Cursor} {t : List Char}
    (hrest : c.rest = sp ++ t) (ht : AtInk t) :
    gap margin fuel (.blanks b) c = some (.blanks (b ++ sp), c.past sp) := by
  induction sp generalizing fuel b c with
  | nil =>
    rw [List.nil_append] at hrest
    rw [gap_ink margin hfuel _ (hrest ▸ ht), List.append_nil, Cursor.past_nil]
  | cons x sp ih =>
    rw [List.forall_mem_cons] at hsp
    rw [List.length_cons] at hfuel
    obtain ⟨fuel, rfl⟩ : ∃ n, fuel = n + 1 := ⟨fuel - 1, by omega⟩
    have hnext : (c.past [x]).rest = sp ++ t := Cursor.rest_past_of_eq hrest
    rw [gap_blank margin fuel b hrest hsp.1, ih hsp.2 (by omega) _ hnext, List.append_assoc,
      Cursor.past_cons c]
    rfl

theorem gap_spaces (margin : Nat) (n : Nat) {fuel : Nat} (hfuel : n < fuel)
    (first more : List Char) {c : Cursor} {t : List Char} (hrest : c.rest = spaces n ++ t)
    (ht : AtInk t) :
    gap margin fuel (.breaks first more) c = some (.breaks first more, c.past (spaces n)) := by
  induction n generalizing fuel c with
  | zero => exact gap_ink margin hfuel _ (hrest ▸ ht)
  | succ n ih =>
    obtain ⟨fuel, rfl⟩ : ∃ n, fuel = n + 1 := ⟨fuel - 1, by omega⟩
    have hcons : spaces (n + 1) = ' ' :: spaces n := rfl
    rw [hcons, List.cons_append] at hrest
    have hnext : (c.past [' ']).rest = spaces n ++ t := Cursor.rest_past_of_eq hrest
    rw [gap_space margin fuel first more hrest, ih (by omega) hnext, hcons,
      Cursor.past_cons c ' ' (spaces n)]

/-- The rest of a line that has nothing more on it, and the spaces of the next line. -/
theorem gap_line (margin : Nat) {n fuel : Nat} (hfuel : n + 1 < fuel) {c : Cursor} {t : List Char}
    (hrest : c.rest = '\n' :: (spaces n ++ t)) (ht : AtInk t) :
    gap margin fuel (.blanks []) c = some (.breaks ['\n'] [], c.past ('\n' :: spaces n)) := by
  obtain ⟨fuel, rfl⟩ : ∃ n, fuel = n + 1 := ⟨fuel - 1, by omega⟩
  have hnext : (c.past ['\n']).rest = spaces n ++ t := Cursor.rest_past_of_eq hrest
  rw [gap_break margin fuel _ hrest (Or.inl rfl)]
  exact (gap_spaces margin n (by omega) ['\n'] [] hnext ht).trans 
    (by rw [Cursor.past_cons c '\n' (spaces n)])

/-! ## Stretches -/

/-- What follows a plain scalar: a colon before a gap, or the next line, which is indented by less
    than `margin`. Given are also what the reader moves past, and whether a line ends in it. -/
inductive PlainEnd (margin : Nat) : List Char → List Char → Bool → Prop
  | colon {t : List Char} (h : atGap t = true) : PlainEnd margin (':' :: t) [] false
  | line {n : Nat} {t : List Char} (hn : n < margin) (ht : AtInk t) :
      PlainEnd margin ('\n' :: (spaces n ++ t)) ('\n' :: spaces n) true

/-- A text of which every stretch is plain, also at its front: it is on one line, and no indicator
    stands in it. -/
structure Stretches (s : List Char) : Prop where
  breaks : ∀ x ∈ s, isBreak x = false
  front : ∀ t, s = ':' :: t → atGap t = false
  inside : badInside s = false

theorem Stretches.tail {x : Char} {s : List Char} (h : Stretches (x :: s)) : Stretches s where
  breaks := (List.forall_mem_cons.1 h.breaks).2
  front := by
    rintro t rfl
    have hinside := h.inside
    simp only [badInside, beq_self_eq_true, Bool.true_and, Bool.or_eq_false_iff] at hinside
    exact hinside.1.1
  inside := by
    cases s with
    | nil => rfl
    | cons y s =>
      have hinside := h.inside
      simp only [badInside, Bool.or_eq_false_iff] at hinside
      exact hinside.2

theorem Stretches.of_append {s t : List Char} (h : Stretches (s ++ t)) : Stretches t := by
  induction s with
  | nil => exact h
  | cons x s ih => exact ih h.tail

/-- No comment begins after a blank. -/
theorem Stretches.ne_comment {sp t : List Char} (h : Stretches (sp ++ t)) (hne : sp ≠ [])
    (hsp : ∀ x ∈ sp, isBlank x = true) : t.head? ≠ some '#' := by
  intro ht
  obtain ⟨t, rfl⟩ : ∃ u, t = '#' :: u := by
    cases t with
    | nil => cases ht
    | cons y u => exact ⟨u, by rw [Option.some.inj ht]⟩
  rw [← List.dropLast_concat_getLast hne, List.append_assoc] at h
  have hinside := h.of_append.inside
  simp [badInside, hsp _ (List.getLast_mem hne)] at hinside

theorem plainStretch_append {margin : Nat} {tail moved : List Char} {newLine : Bool}
    (hend : PlainEnd margin tail moved newLine) {s : List Char} (hs : Stretches s) :
    plainStretch false (s ++ tail) = some (s.takeWhile fun x => !isBlank x) := by
  induction s with
  | nil =>
    cases hend with
    | colon h => simp [plainStretch, h, show isBlank ':' = false from rfl]
    | line => rfl
  | cons x s ih =>
    have hbreak := hs.breaks x List.mem_cons_self
    rw [List.cons_append, plainStretch]
    by_cases hx : isBlank x = true
    · simp [hx]
    · rw [Bool.not_eq_true] at hx
      have hcolon : (x == ':' && atGap (s ++ tail)) = false := by
        rw [Bool.and_eq_false_iff]
        by_cases hc : x = ':'
        · have hgap := hs.front s (by rw [hc])
          cases s with
          | nil => cases hgap
          | cons y s => exact Or.inr hgap
        · exact Or.inl (by simpa using hc)
      simp [hx, hbreak, hcolon, ih hs.tail]

/-! ## Whole scalars -/

/-- A text between blanks is one stretch, or a stretch, blanks and a text between blanks. -/
theorem exists_stretch {s : List Char} (hne : s ≠ []) (hhead : s.head?.any isBlank = false)
    (hlast : s.getLast?.any isBlank = false) :
    s.takeWhile (fun x => !isBlank x) = s ∨ ∃ w sp more, s = w ++ (sp ++ more) ∧
      s.takeWhile (fun x => !isBlank x) = w ∧ w ≠ [] ∧ sp ≠ [] ∧ (∀ x ∈ sp, isBlank x = true) ∧
      more ≠ [] ∧ more.head?.any isBlank = false := by
  have hsplit : s.takeWhile (fun x => !isBlank x) ++ s.dropWhile (fun x => !isBlank x) = s :=
    List.takeWhile_append_dropWhile
  by_cases hr : s.dropWhile (fun x => !isBlank x) = []
  · rw [hr, List.append_nil] at hsplit
    exact Or.inl hsplit
  -- Something follows the first stretch: blanks, and then more, since no blank is at the end.
  have hw : s.takeWhile (fun x => !isBlank x) ≠ [] := by
    cases s with
    | nil => contradiction
    | cons x s => simp_all
  generalize s.takeWhile (fun x => !isBlank x) = w at *
  have hy := List.head_dropWhile_not (fun x => !isBlank x) hr
  generalize s.dropWhile (fun x => !isBlank x) = r at *
  have hsplit' : r.takeWhile isBlank ++ r.dropWhile isBlank = r := List.takeWhile_append_dropWhile
  have hsp : r.takeWhile isBlank ≠ [] := by
    cases r with
    | nil => contradiction
    | cons y r => simp_all
  have hblank : ∀ x ∈ r.takeWhile isBlank, isBlank x = true := fun x hx => List.mem_takeWhile_imp hx
  have hmore : r.dropWhile isBlank ≠ [] := by
    intro h
    rw [h, List.append_nil] at hsplit'
    rw [hsplit'] at hblank
    rw [← hsplit, List.getLast?_append, List.getLast?_eq_some_getLast hr, Option.some_or,
      Option.any_some, hblank _ (List.getLast_mem hr)] at hlast
    cases hlast
  refine Or.inr ⟨w, _, _, ?_, rfl, hw, hsp, hblank, hmore, ?_⟩
  · rw [hsplit', hsplit]
  · rw [List.head?_eq_some_head hmore, Option.any_some]
    exact List.head_dropWhile_not isBlank hmore

/-- One stretch of a plain scalar, and what comes after it. -/
theorem plain_stretch (margin fuel : Nat) (g : Gap) {c : Cursor} {w : List Char}
    (hgo : plainGoesOn c = true) (hstretch : plainStretch false c.rest = some w) (hw : w ≠ []) :
    plain false margin (fuel + 1) g c =
      if (c.skip w.length).sees fun x => isBlank x || isBreak x then
        (gap margin (fuel + 1) (.blanks []) (c.skip w.length)).bind fun (g', next) =>
          if next.column < margin then some (g.text ++ w, next, g'.hasBreak)
          else (plain false margin fuel g' next).map fun r => (g.text ++ w ++ r.1, r.2)
      else some (g.text ++ w, c.skip w.length, false) := by
  have hempty : w.isEmpty = false := by simpa using hw
  rw [plain]
  simp only [hgo, hstretch, hempty, if_true, bind, Option.bind]
  cases (c.skip w.length).sees fun x => isBlank x || isBreak x with
  | false => rfl
  | true =>
    cases gap margin (fuel + 1) (.blanks []) (c.skip w.length) with
    | none => rfl
    | some r =>
      by_cases h : r.2.column < margin
      · simp [h]
      · cases hplain : plain false margin fuel r.1 r.2 <;> simp [h, hplain]

/-- The last stretch of a plain scalar, and its end. -/
theorem plain_last {margin : Nat} {tail moved : List Char} {newLine : Bool}
    (hend : PlainEnd margin tail moved newLine) {s : List Char} (hne : s ≠ [])
    (hbreaks : ∀ x ∈ s, isBreak x = false) {fuel : Nat} (b : List Char) {c : Cursor}
    (hrest : c.rest = s ++ tail) (hgo : plainGoesOn c = true)
    (hstretch : plainStretch false c.rest = some s) (hfuel : c.rest.length < fuel + 1) :
    plain false margin (fuel + 1) (.blanks b) c = some (b ++ s, c.past (s ++ moved), newLine) := by
  have hnext : (c.past s).rest = tail := Cursor.rest_past_of_eq hrest
  rw [plain_stretch margin fuel _ hgo hstretch hne, ← Cursor.past_eq_skip c hbreaks]
  cases hend with
  | colon h =>
    rw [Cursor.sees_iff hnext]
    simp [show isBlank ':' = false from rfl, show isBreak ':' = false from rfl, Gap.text]
  | @line n t hn ht =>
    have hgap := gap_line margin (by simp [hrest] at hfuel; omega : n + 1 < fuel + 1) hnext ht
    have hcolumn : ((c.past s).past ('\n' :: spaces n)).column < margin := by
      rw [Cursor.column_past_line _ rfl]
      exact hn
    rw [Cursor.sees_iff hnext, if_pos (show (isBlank '\n' || isBreak '\n') = true from rfl), hgap,
      Option.bind_some]
    simp only [if_pos hcolumn, Cursor.past_append]
    rfl

/-- A stretch of a plain scalar with another one after it on its line. -/
theorem plain_more {margin : Nat} {w sp t : List Char} (hw : w ≠ [])
    (hbreaks : ∀ x ∈ w, isBreak x = false) (hsp : sp ≠ []) (hblank : ∀ x ∈ sp, isBlank x = true)
    (ht : AtInk t) {fuel : Nat} (b : List Char) {c : Cursor} (hrest : c.rest = w ++ (sp ++ t))
    (hgo : plainGoesOn c = true) (hstretch : plainStretch false c.rest = some w)
    (hcolumn : margin ≤ c.column + 2) (hfuel : c.rest.length < fuel + 1) :
    plain false margin (fuel + 1) (.blanks b) c =
      (plain false margin fuel (.blanks sp) (c.past (w ++ sp))).map
        fun r => (b ++ w ++ r.1, r.2) := by
  have hnext : (c.past w).rest = sp ++ t := Cursor.rest_past_of_eq hrest
  have hgap := gap_blanks margin hblank (show sp.length < fuel + 1 by simp [hrest] at hfuel; omega)
    [] hnext ht
  have hspace : ∀ x ∈ sp, isBreak x = false := fun x hx => isBreak_of_isBlank (hblank x hx)
  have hfar : ¬ ((c.past w).past sp).column < margin := by
    have hw0 : 0 < w.length := List.length_pos_iff.2 hw
    have hsp0 : 0 < sp.length := List.length_pos_iff.2 hsp
    rw [Cursor.column_past _ hspace, Cursor.column_past _ hbreaks]
    omega
  have hsees : (c.past w).sees (fun x => isBlank x || isBreak x) = true := by
    cases sp with
    | nil => contradiction
    | cons z sp =>
      rw [Cursor.sees_iff hnext]
      simp [hblank z List.mem_cons_self]
  rw [plain_stretch margin fuel _ hgo hstretch hw, ← Cursor.past_eq_skip c hbreaks, if_pos hsees,
    hgap, Option.bind_some]
  simp only [if_neg hfar, List.nil_append, Cursor.past_append, Gap.text]

/-- A plain scalar after blanks is read up to its end. -/
theorem plain_append {margin : Nat} {tail moved : List Char} {newLine : Bool}
    (hend : PlainEnd margin tail moved newLine) {s : List Char} (hne : s ≠ [])
    (hs : Stretches s) (hhead : s.head?.any isBlank = false)
    (hlast : s.getLast?.any isBlank = false) (hcomment : s.head? ≠ some '#') {fuel : Nat}
    (b : List Char) {c : Cursor} (hrest : c.rest = s ++ tail) (hmarker : c.atMarker = false)
    (hcolumn : margin ≤ c.column + 2) (hfuel : c.rest.length < fuel) :
    plain false margin fuel (.blanks b) c = some (b ++ s, c.past (s ++ moved), newLine) := by
  -- What comes after a stretch and its blanks is again a text between blanks, and it is shorter.
  induction hlen : s.length using Nat.strong_induction_on generalizing s fuel b c with
  | _ len ih =>
  obtain ⟨fuel, rfl⟩ : ∃ n, fuel = n + 1 := ⟨fuel - 1, by omega⟩
  have hstretch := plainStretch_append hend hs
  rw [← hrest] at hstretch
  have hgo : plainGoesOn c = true := by
    have hsees : c.sees (· == '#') = false := by
      cases s with
      | nil => contradiction
      | cons x s =>
        rw [Cursor.sees_iff hrest]
        simpa using hcomment
    simp [plainGoesOn, hmarker, hsees]
  rcases exists_stretch hne hhead hlast with hall | ⟨w, sp, more, rfl, hw, hwne, hspne, hsp, hmore,
    hmorehead⟩
  · exact plain_last hend hne hs.breaks b hrest hgo (hall ▸ hstretch) hfuel
  · rw [hw] at hstretch
    have hbreaks := hs.breaks
    rw [List.forall_mem_append, List.forall_mem_append] at hbreaks
    simp only [List.append_assoc] at hrest
    have hink : AtInk (more ++ tail) := by
      intro x rest heq
      obtain ⟨y, more, rfl⟩ := List.exists_cons_of_ne_nil hmore
      obtain ⟨rfl, -⟩ := List.cons.inj heq
      exact ⟨by simpa using hmorehead, hbreaks.2.2 y List.mem_cons_self⟩
    have hnext : (c.past (w ++ sp)).rest = more ++ tail :=
      Cursor.rest_past_of_eq (by rw [hrest, List.append_assoc])
    have hw0 : 0 < w.length := List.length_pos_iff.2 hwne
    have hcolumn' : (c.past (w ++ sp)).column = c.column + w.length + sp.length := by
      rw [Cursor.past_append, Cursor.column_past _ hbreaks.2.1, Cursor.column_past _ hbreaks.1]
    have hlast' : more.getLast?.any isBlank = false := by
      rwa [List.getLast?_append_of_ne_nil _ (List.append_ne_nil_of_right_ne_nil _ hmore),
        List.getLast?_append_of_ne_nil _ hmore] at hlast
    have hshorter : more.length < len := by
      rw [← hlen, List.length_append, List.length_append]
      omega
    have hfuel' : (c.past (w ++ sp)).rest.length < fuel := by
      rw [hnext]
      simp only [hrest, List.length_append] at hfuel ⊢
      omega
    have hmore := ih _ hshorter hmore hs.of_append.of_append hmorehead hlast'
      (hs.of_append.ne_comment hspne hsp) sp hnext (Cursor.atMarker_eq_false (by omega))
      (by omega) hfuel' rfl
    rw [plain_more hwne hbreaks.1 hspne hsp hink b hrest hgo hstretch hcolumn hfuel, hmore]
    simp only [Option.map_some, Cursor.past_append, List.append_assoc]

/-! ## Texts without quotes -/

theorem isBlank_eq_false_of_isPrintable {x : Char} (h : isPrintable x = true) (hx : x ≠ ' ') :
    isBlank x = false := by
  have htab : x ≠ '\t' := by
    rintro rfl
    cases h
  simp [isBlank, hx, htab]

theorem all_isPrintable_of_needsDouble {s : List Char} (h : needsDouble s = false) :
    ∀ x ∈ s, isPrintable x = true := by
  simp only [needsDouble, Bool.or_eq_false_iff, Bool.not_eq_false'] at h
  exact List.all_eq_true.1 h.1

theorem not_contains_of_badLead {x : Char} {s : List Char} (h : badLead (x :: s) = false) :
    ¬ leadIndicators.contains x = true := by
  simp only [badLead, Bool.or_eq_false_iff] at h
  rw [h.1.1.1]
  decide

/-- What is allowed without quotes is plain at every place. -/
theorem stretches_of_plainAllowed {s : List Char} (h : plainAllowed s = true) :
    Stretches s ∧ s.head?.any isBlank = false ∧ s.getLast?.any isBlank = false ∧
      s.head? ≠ some '#' := by
  simp only [plainAllowed, Bool.and_eq_true, Bool.not_eq_true', hasBlankEdge,
    Bool.or_eq_false_iff] at h
  obtain ⟨⟨⟨⟨hdouble, hhead, hlast⟩, hbreak⟩, hlead⟩, hinside⟩ := h
  have hprint := all_isPrintable_of_needsDouble hdouble
  have hedge : ∀ o : Option Char, (∀ x, o = some x → x ∈ s) →
      o.any (fun c => c == ' ' || isBreak c) = false → o.any isBlank = false := by
    intro o hmem ho
    cases o with
    | none => rfl
    | some x =>
      simp only [Option.any_some, Bool.or_eq_false_iff, beq_eq_false_iff_ne] at ho ⊢
      exact isBlank_eq_false_of_isPrintable (hprint x (hmem x rfl)) ho.1
  refine ⟨⟨fun x hx => ?_, ?_, hinside⟩, hedge _ (fun x hx => List.mem_of_head? hx) hhead,
    hedge _ (fun x hx => List.mem_of_getLast? hx) hlast, ?_⟩
  · simpa using List.any_eq_false.1 hbreak x hx
  · rintro t rfl
    simp only [badLead, beq_self_eq_true, Bool.or_true, Bool.true_and, Bool.or_eq_false_iff]
      at hlead
    exact hlead.1.1.2
  · intro hs
    cases s with
    | nil => cases hs
    | cons x s =>
      obtain rfl := Option.some.inj hs
      exact absurd (not_contains_of_badLead hlead) (by decide)

end HelpMiner.Document.Yaml
