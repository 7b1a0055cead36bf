import HelpMiner.Proofs.Text.Blank
import HelpMiner.Text.Wrap

/-! Wrapped text. A line is cut at blanks past the margin only and no word is lost. The loop that
looks for the places by position ends, within the range of machine words. -/
namespace HelpMiner.Text

variable {columns : Nat}

/-! ## Words of the pieces of a text -/

theorem words_append_cons {blank : Char} (hb : isBlank blank = true) (before after : List Char) :
    words (before ++ blank :: after) = words before ++ words after := by
  unfold words
  rw [cutWhere_append_cons hb, List.filter_append]

/-- Cuts of a coarser kind come to nothing where all pieces are cut again. -/
theorem flatMap_cutWhere {p q : Char → Bool} (hpq : ∀ c, p c = true → q c = true)
    (s : List Char) : (cutWhere p s).flatMap (cutWhere q) = cutWhere q s := by
  induction s with
  | nil => rfl
  | cons c rest ih =>
    by_cases hp : p c = true
    · rw [cutWhere_cons_of_pos hp, cutWhere_cons_of_pos (hpq c hp), List.flatMap_cons, ih]
      rfl
    · have hp := Bool.eq_false_of_not_eq_true hp
      obtain ⟨piece, pieces, hs⟩ := List.exists_cons_of_ne_nil (cutWhere_ne_nil p rest)
      rw [hs, List.flatMap_cons] at ih
      rw [cutWhere_cons_of_neg hp, hs, List.headD_cons, List.tail_cons, List.flatMap_cons]
      by_cases hq : q c = true
      · rw [cutWhere_cons_of_pos hq, cutWhere_cons_of_pos hq, List.cons_append, ih]
      · have hq := Bool.eq_false_of_not_eq_true hq
        obtain ⟨first, more, hf⟩ := List.exists_cons_of_ne_nil (cutWhere_ne_nil q piece)
        rw [cutWhere_cons_of_neg hq, cutWhere_cons_of_neg hq, ← ih, hf]
        rfl

theorem flatMap_words_cutLines (s : List Char) : (cutLines s).flatMap words = words s := by
  have hfeed : ∀ c : Char, (c == '\n') = true → isBlank c = true := by
    intro c hc
    obtain rfl := eq_of_beq hc
    rfl
  calc (cutLines s).flatMap words
      = ((cutLines s).flatMap (cutWhere isBlank)).filter (!·.isEmpty) := by
        rw [List.filter_flatMap]
        rfl
    _ = words s := by
        unfold cutLines
        rw [flatMap_cutWhere hfeed]
        rfl

theorem flatMap_words_filter (pieces : List (List Char)) :
    (pieces.filter (!·.isEmpty)).flatMap words = pieces.flatMap words := by
  induction pieces with
  | nil => rfl
  | cons piece rest ih =>
    rw [List.flatMap_cons, ← ih]
    cases piece with
    | nil => rfl
    | cons c piece => rfl

/-! ## Pieces of a line -/

/-- No blank stands past the margin. -/
def Unbroken (columns : Nat) (piece : List Char) : Prop :=
  ∀ i (hi : i < piece.length), columns < i → isBlank piece[i] = false

/-- A line and its pieces: between two pieces one blank is dropped, and all but the last go past the
    margin. -/
inductive Wrapped (columns : Nat) : List Char → List (List Char) → Prop where
  | last {piece : List Char} (hp : Unbroken columns piece) : Wrapped columns piece [piece]
  | cut {piece rest : List Char} {blank : Char} {pieces : List (List Char)}
      (hlong : columns < piece.length) (hp : Unbroken columns piece) (hb : isBlank blank = true)
      (hr : Wrapped columns rest pieces) :
      Wrapped columns (piece ++ blank :: rest) (piece :: pieces)

theorem unbroken_iff {piece : List Char} :
    Unbroken columns piece ↔ ∀ c ∈ piece.drop (columns + 1), isBlank c = false := by
  constructor
  · intro h c hc
    obtain ⟨i, hi, rfl⟩ := List.getElem_of_mem hc
    rw [List.length_drop] at hi
    rw [List.getElem_drop]
    exact h _ (by omega) (by omega)
  · intro h i hi hm
    obtain ⟨k, rfl⟩ := Nat.exists_eq_add_of_lt hm
    refine h _ (List.mem_drop_iff_getElem.2 ⟨k, by omega, ?_⟩)
    congr 1
    omega

theorem wrapLine_unbroken {piece : List Char} (hp : Unbroken columns piece) :
    wrapLine columns piece = [piece] := by
  have hnone : (piece.drop (columns + 1)).dropWhile (fun c => !isBlank c) = [] := by
    rw [List.dropWhile_eq_nil_iff]
    intro c hc
    rw [unbroken_iff.1 hp c hc]
    rfl
  fun_cases wrapLine columns piece with
  | case1 | case3 => rfl
  | case2 _ excess blank rest hd =>
    rw [hnone] at hd
    contradiction

theorem wrapLine_append_cons {piece : List Char} {blank : Char} (hlong : columns < piece.length)
    (hp : Unbroken columns piece) (hb : isBlank blank = true) (rest : List Char) :
    wrapLine columns (piece ++ blank :: rest) = piece :: wrapLine columns rest := by
  have hexcess : (piece ++ blank :: rest).drop (columns + 1) =
      piece.drop (columns + 1) ++ blank :: rest :=
    List.drop_append_of_le_length hlong
  have hink : ∀ c ∈ piece.drop (columns + 1), (!isBlank c) = true := by
    intro c hc
    rw [unbroken_iff.1 hp c hc]
    rfl
  have hdrop : ((piece ++ blank :: rest).drop (columns + 1)).dropWhile (fun c => !isBlank c) =
      blank :: rest := by
    rw [hexcess, List.dropWhile_append_of_pos hink, List.dropWhile_cons_of_neg (by simp [hb])]
  have htake : ((piece ++ blank :: rest).drop (columns + 1)).takeWhile (fun c => !isBlank c) =
      piece.drop (columns + 1) := by
    rw [hexcess, List.takeWhile_append_of_pos hink, List.takeWhile_cons_of_neg (by simp [hb]),
      List.append_nil]
  fun_cases wrapLine columns (piece ++ blank :: rest) with
  | case1 _ excess hd =>
    rw [hdrop] at hd
    contradiction
  | case2 _ excess blank' rest' hd =>
    rw [hdrop, List.cons.injEq] at hd
    rw [htake, List.take_append_of_le_length hlong, List.take_append_drop, hd.2]
  | case3 hshort =>
    rw [List.length_append] at hshort
    omega

theorem Wrapped.eq_wrapLine {line : List Char} {pieces : List (List Char)}
    (h : Wrapped columns line pieces) : pieces = wrapLine columns line := by
  induction h with
  | last hp => rw [wrapLine_unbroken hp]
  | cut hlong hp hb _ ih => rw [wrapLine_append_cons hlong hp hb, ih]

theorem Wrapped.words_eq {line : List Char} {pieces : List (List Char)}
    (h : Wrapped columns line pieces) : pieces.flatMap words = words line := by
  induction h with
  | last _ => rw [List.flatMap_singleton]
  | cut _ _ hb _ ih => rw [List.flatMap_cons, ih, words_append_cons hb]

/-- Wrapping moves no character: those of a piece are characters of the line. -/
theorem Wrapped.subset {line piece : List Char} {pieces : List (List Char)}
    (h : Wrapped columns line pieces) (hm : piece ∈ pieces) : piece ⊆ line := by
  induction h with
  | last _ =>
    obtain rfl := List.mem_singleton.1 hm
    exact List.Subset.refl _
  | cut _ _ _ _ ih =>
    rcases List.mem_cons.1 hm with rfl | hm
    · exact List.subset_append_left _ _
    · exact List.subset_append_of_subset_right _ (List.subset_cons_of_subset _ (ih hm))

/-! ## The loop over positions -/

/-- One turn of the loop, for the piece that begins at `start`: the sums of positions that it
    forms, and the place at which it cuts. -/
def turn (columns : Nat) (chars : List Char) (start : Nat) : List Nat × Option Nat :=
  if start + columns < chars.length then
    match (chars.drop (start + columns + 1)).findIdx? isBlank with
    | none => ([start + columns, start + columns + 1], none)
    | some offset =>
      let place := start + columns + 1 + offset
      ([start + columns, start + columns + 1, place, place + 1], some place)
  else ([start + columns], none)

/-- A run of the loop from a position to its end, with the sums of all its turns and the pieces. -/
inductive WrapRun (columns : Nat) (chars : List Char) :
    Nat → List Nat → List (List Char) → Prop where
  | stop {start : Nat} {sums : List Nat} (ht : turn columns chars start = (sums, none)) :
      WrapRun columns chars start sums [chars.drop start]
  | next {start place : Nat} {sums more : List Nat} {pieces : List (List Char)}
      (ht : turn columns chars start = (sums, some place))
      (hr : WrapRun columns chars (place + 1) more pieces) :
      WrapRun columns chars start (sums ++ more) (chars.extract start place :: pieces)

variable {chars : List Char} {start : Nat} {sums : List Nat} {pieces : List (List Char)}

/-- A turn that does not cut leaves nothing to cut. -/
theorem turn_stop (h : turn columns chars start = (sums, none)) :
    Unbroken columns (chars.drop start) ∧
      ∀ n ∈ sums, n ≤ start + columns ∨ n ≤ chars.length := by
  rw [unbroken_iff, List.drop_drop]
  revert h
  fun_cases turn columns chars start with
  | case1 hlong hnone =>
    rintro ⟨⟩
    refine ⟨List.findIdx?_eq_none_iff.1 hnone, ?_⟩
    intro n hn
    simp only [List.mem_cons, List.not_mem_nil, or_false] at hn
    omega
  | case2 => simp
  | case3 hshort =>
    rintro ⟨⟩
    have hnil : chars.drop (start + (columns + 1)) = [] := List.drop_eq_nil_of_le (by omega)
    exact ⟨by simp [hnil], by simp⟩

/-- A turn that cuts does so at the first blank past the margin. -/
theorem turn_next {place : Nat} (h : turn columns chars start = (sums, some place)) :
    start + columns < place ∧ (∀ n ∈ sums, n ≤ chars.length) ∧
      Unbroken columns (chars.extract start place) ∧
      ∃ hp : place < chars.length, isBlank chars[place] = true := by
  revert h
  fun_cases turn columns chars start with
  | case1 | case3 => simp
  | case2 hlong offset hsome cut =>
    simp only [Prod.mk.injEq, Option.some.injEq]
    rintro ⟨rfl, rfl⟩
    obtain ⟨hlt, hblank, hbefore⟩ := List.findIdx?_eq_some_iff_getElem.1 hsome
    rw [List.length_drop] at hlt
    rw [List.getElem_drop] at hblank
    have hcut : cut < chars.length := by omega
    have hpast : (chars.extract start cut).drop (columns + 1) =
        (chars.drop (start + columns + 1)).take offset := by
      rw [List.extract_eq_take_drop, List.drop_take, List.drop_drop]
      congr 1
      omega
    refine ⟨by omega, ?_, unbroken_iff.2 ?_, hcut, hblank⟩
    · intro n hn
      simp only [List.mem_cons, List.not_mem_nil, or_false] at hn
      omega
    · rw [hpast]
      intro c hc
      obtain ⟨k, hk, rfl⟩ := List.mem_take_iff_getElem.1 hc
      exact Bool.eq_false_of_not_eq_true (hbefore k (by omega))

/-- The loop ends: each cut leaves less of the line. -/
theorem exists_wrapRun (columns : Nat) (chars : List Char) (start : Nat) :
    ∃ sums pieces, WrapRun columns chars start sums pieces := by
  match ht : turn columns chars start with
  | (sums, none) => exact ⟨sums, _, .stop ht⟩
  | (sums, some place) =>
    obtain ⟨hm, -, -, hp, -⟩ := turn_next ht
    obtain ⟨more, pieces, hr⟩ := exists_wrapRun columns chars (place + 1)
    exact ⟨sums ++ more, _, .next ht hr⟩
termination_by chars.length - start

theorem drop_eq_extract_append {place : Nat} (hs : start ≤ place) (hp : place < chars.length) :
    chars.drop start = chars.extract start place ++ chars[place] :: chars.drop (place + 1) := by
  rw [List.getElem_cons_drop, List.extract_eq_take_drop]
  have hrest : chars.drop place = (chars.drop start).drop (place - start) := by
    rw [List.drop_drop, Nat.add_sub_cancel' hs]
  rw [hrest, List.take_append_drop]

theorem WrapRun.wrapped (h : WrapRun columns chars start sums pieces) :
    Wrapped columns (chars.drop start) pieces := by
  induction h with
  | stop ht => exact .last (turn_stop ht).1
  | next ht _ ih =>
    obtain ⟨hm, -, hunbroken, hp, hblank⟩ := turn_next ht
    rw [drop_eq_extract_append (by omega) hp]
    refine .cut ?_ hunbroken hblank ih
    rw [List.extract_eq_take_drop, List.length_take, List.length_drop]
    omega

/-- A sum of a run is at most the first margin, or less than twice the length of the line. -/
theorem WrapRun.sum_le (h : WrapRun columns chars start sums pieces) :
    ∀ n ∈ sums, n ≤ start + columns ∨ n < 2 * chars.length := by
  induction h with
  | stop ht =>
    intro n hn
    have hle := (turn_stop ht).2 n hn
    omega
  | next ht _ ih =>
    -- The margin is less than the place of the cut, so the next sum is of two positions.
    obtain ⟨hm, hsums, -, hp, -⟩ := turn_next ht
    intro n hn
    rcases List.mem_append.1 hn with hn | hn
    · have hle := hsums n hn
      omega
    · have hle := ih n hn
      omega

theorem WrapRun.eq_wrapLine (h : WrapRun columns chars 0 sums pieces) :
    pieces = wrapLine columns chars := by
  have hw := h.wrapped
  rw [List.drop_zero] at hw
  exact hw.eq_wrapLine

theorem wrapped_iff : Wrapped columns chars pieces ↔ pieces = wrapLine columns chars := by
  refine ⟨Wrapped.eq_wrapLine, ?_⟩
  rintro rfl
  obtain ⟨sums, pieces, h⟩ := exists_wrapRun columns chars 0
  have hw := h.wrapped
  rwa [h.eq_wrapLine, List.drop_zero] at hw

/-! ## Wrapping a text -/

theorem length_le_of_mem_cutLines {line s : List Char} (h : line ∈ cutLines s) :
    line.length ≤ s.length := by
  have hsub := List.sublist_flatten_of_mem h
  unfold cutLines at hsub
  rw [flatten_cutWhere] at hsub
  exact (hsub.trans List.filter_sublist).length_le

/-- Whatever the text and the margin, a wrapped piece is on one line. -/
theorem no_newline_of_mem_wrap {text : String} {piece : String} (h : piece ∈ wrap text columns) :
    '\n' ∉ piece.toList := by
  obtain ⟨chars, hm, rfl⟩ := List.mem_map.1 h
  obtain ⟨line, hl, hp⟩ := List.mem_flatMap.1 (List.mem_of_mem_filter hm)
  rw [String.toList_ofList]
  intro hn
  have hline : '\n' ∈ line := (wrapped_iff.2 rfl).subset hp hn
  exact absurd (of_mem_cutWhere hl _ hline) (by decide)

theorem map_toList_wrap (text : String) (columns : Nat) :
    (wrap text columns).map String.toList =
      ((cutLines text.toList).flatMap (wrapLine columns)).filter (!·.isEmpty) := by
  unfold wrap
  rw [List.map_map]
  exact List.map_id'' (fun _ => String.toList_ofList) _

/-- The words of a wrapped text are those of the text. -/
theorem flatMap_words_wrap (text : String) (columns : Nat) :
    (wrap text columns).flatMap (words ·.toList) = words text.toList := by
  calc (wrap text columns).flatMap (words ·.toList)
      = ((wrap text columns).map String.toList).flatMap words := by
        rw [List.flatMap_map]
    _ = ((cutLines text.toList).flatMap (wrapLine columns)).flatMap words := by
        rw [map_toList_wrap, flatMap_words_filter]
    _ = (cutLines text.toList).flatMap words := by
        rw [List.flatMap_assoc]
        exact List.flatMap_congr fun line _ => (wrapped_iff.2 rfl).words_eq
    _ = words text.toList := flatMap_words_cutLines _

/-- The layout of a wrapped text. Each line has one division into pieces of the kind `Wrapped`, and
the loop over its positions ends with it; the non-empty pieces are the wrapped text. No word is
lost, and no sum of the loop leaves the range of machine words. -/
theorem wrap_layout (text : String) (columns : Nat) :
    (∀ line ∈ cutLines text.toList,
      (∀ pieces, Wrapped columns line pieces ↔ pieces = wrapLine columns line) ∧
      (∃ sums pieces, WrapRun columns line 0 sums pieces) ∧
      ∀ sums pieces, WrapRun columns line 0 sums pieces →
        pieces = wrapLine columns line ∧
          (text.length < 2 ^ 63 → columns < 2 ^ 64 → ∀ n ∈ sums, n < 2 ^ 64)) ∧
    (wrap text columns).map String.toList =
      ((cutLines text.toList).flatMap (wrapLine columns)).filter (!·.isEmpty) ∧
    (wrap text columns).flatMap (words ·.toList) = words text.toList := by
  refine ⟨?_, map_toList_wrap text columns, flatMap_words_wrap text columns⟩
  intro line hline
  refine ⟨fun pieces => wrapped_iff, exists_wrapRun columns line 0, ?_⟩
  intro sums pieces hrun
  refine ⟨hrun.eq_wrapLine, ?_⟩
  intro htext hcolumns n hn
  have hlength := length_le_of_mem_cutLines hline
  rw [String.length_toList] at hlength
  have hle := hrun.sum_le n hn
  omega

theorem wrap_layout_two_pieces :
    WrapRun 5 "aaaa bbbb cccc dddd".toList 0 [5, 6, 9, 10, 15, 16]
      ["aaaa bbbb".toList, "cccc dddd".toList] ∧
    wrapLine 5 "aaaa bbbb cccc dddd".toList = ["aaaa bbbb".toList, "cccc dddd".toList] ∧
    ∀ n ∈ [5, 6, 9, 10, 15, 16], n < 2 ^ 64 := by
  have hfirst : turn 5 "aaaa bbbb cccc dddd".toList 0 = ([5, 6, 9, 10], some 9) := by
    decide +kernel
  have hsecond : turn 5 "aaaa bbbb cccc dddd".toList 10 = ([15, 16], none) := by
    decide +kernel
  have hrun : WrapRun 5 "aaaa bbbb cccc dddd".toList 0 [5, 6, 9, 10, 15, 16]
      ["aaaa bbbb".toList, "cccc dddd".toList] :=
    .next hfirst (.stop hsecond)
  have hline : "aaaa bbbb cccc dddd".toList ∈ cutLines "aaaa bbbb cccc dddd".toList := by
    decide +kernel
  obtain ⟨-, -, hruns⟩ := (wrap_layout "aaaa bbbb cccc dddd" 5).1 _ hline
  obtain ⟨hpieces, hsums⟩ := hruns _ _ hrun
  exact ⟨hrun, hpieces.symm, hsums (by decide +kernel) (by decide)⟩

end HelpMiner.Text
