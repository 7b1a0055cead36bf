import HelpMiner.Proofs.Page.BlankLine

/-! The lines of a list joined on one line. -/
namespace HelpMiner.Page

open Text (isBlank hasInk cutWhere dropBackWhile)

/-! ## Items -/

/-- The lines of a text that are not blank. -/
def inkedLines (s : List Char) : List (List Char) := (cutWhere isBreak s).filter hasInk

/-- A line without the blanks at its front, and without the spaces and tabs at its end. -/
def stripLine (line : List Char) : List Char := dropBackWhile isSpacing (line.dropWhile isBlank)

/-- The items that lines stand for. The last is without all blanks at its end. -/
def items : List (List Char) → List (List Char)
  | [] => []
  | [last] => [Text.trim last]
  | line :: next :: more => stripLine line :: items (next :: more)

/-- The items of a list in the text of its section. -/
def listItems (s : List Char) : List (List Char) := items (inkedLines s)

theorem items_concat (front : List (List Char)) (last : List Char) :
    items (front ++ [last]) = front.map stripLine ++ [Text.trim last] := by
  induction front with
  | nil => rfl
  | cons line front ih =>
    cases front with
    | nil => rfl
    | cons next front =>
      rw [List.cons_append, List.cons_append, items, ← List.cons_append, ih]
      rfl

theorem hasInk_append (s t : List Char) : hasInk (s ++ t) = (hasInk s || hasInk t) :=
  List.any_append

theorem hasInk_blanks {s : List Char} (hs : ∀ c ∈ s, isBlank c = true) : hasInk s = false := by
  apply List.any_eq_false.2
  intro c hc
  simp [hs c hc]

theorem inkedLines_ne_nil {s : List Char} {c : Char} (hc : c ∈ s) (hink : isBlank c = false) :
    inkedLines s ≠ [] := by
  have hflat : c ∈ (cutWhere isBreak s).flatten := by
    rw [Text.flatten_cutWhere]
    exact List.mem_filter.2 ⟨hc, by simp [isBreak_of_ink hink]⟩
  obtain ⟨line, hline, hmem⟩ := List.mem_flatten.1 hflat
  have hinked : hasInk line = true := List.any_eq_true.2 ⟨c, hmem, by simp [hink]⟩
  exact List.ne_nil_of_mem (List.mem_filter.2 ⟨hline, hinked⟩)

/-! ## Blanks around the items -/

theorem isBlank_of_isSpacing {c : Char} (h : isSpacing c = true) : isBlank c = true := by
  simp only [isSpacing, Bool.or_eq_true, beq_iff_eq] at h
  obtain rfl | rfl := h <;> decide

/-- A blank at the front is in no item. -/
theorem listItems_cons_blank {c : Char} (hc : isBlank c = true) (s : List Char) :
    listItems (c :: s) = listItems s := by
  unfold listItems inkedLines
  by_cases hbreak : isBreak c = true
  · rw [Text.cutWhere_cons_of_pos hbreak, List.filter_cons_of_neg (by simp [hasInk])]
  · obtain ⟨line, lines, hs⟩ := List.exists_cons_of_ne_nil (Text.cutWhere_ne_nil isBreak s)
    have hink : hasInk (c :: line) = hasInk line := by simp [hasInk, hc]
    have hdrop : (c :: line).dropWhile isBlank = line.dropWhile isBlank :=
      List.dropWhile_cons_of_pos hc
    rw [Text.cutWhere_cons_of_neg (Bool.eq_false_of_not_eq_true hbreak), hs, List.headD_cons,
      List.tail_cons, List.filter_cons, List.filter_cons, hink]
    split
    · cases lines.filter hasInk with
      | nil =>
        unfold items Text.trim Text.trimWhile
        rw [hdrop]
      | cons next more =>
        unfold items stripLine
        rw [hdrop]
    · rfl

theorem listItems_append_blanks {lead : List Char} (hl : ∀ c ∈ lead, isBlank c = true)
    (s : List Char) : listItems (lead ++ s) = listItems s := by
  induction lead with
  | nil => rfl
  | cons c lead ih =>
    rw [List.cons_append, listItems_cons_blank (hl c List.mem_cons_self)]
    exact ih fun d hd => hl d (List.mem_cons_of_mem c hd)

/-- A blank at the end is in no item. -/
theorem listItems_concat_blank {c : Char} (hc : isBlank c = true) (s : List Char) :
    listItems (s ++ [c]) = listItems s := by
  unfold listItems inkedLines
  by_cases hbreak : isBreak c = true
  · rw [Text.cutWhere_append_cons hbreak, List.filter_append]
    exact congrArg items (List.append_nil _)
  · obtain ⟨front, last, hs, hcut⟩ :=
      Text.exists_cutWhere_concat (p := isBreak) (Bool.eq_false_of_not_eq_true hbreak) s
    have hall : ∀ d ∈ [c], isBlank d = true := fun d hd => List.mem_singleton.1 hd ▸ hc
    have hink : hasInk (last ++ [c]) = hasInk last := by
      rw [hasInk_append, hasInk_blanks hall, Bool.or_false]
    have htrim := Text.trim_append_blanks hall last
    rw [hcut, hs, List.filter_append, List.filter_append, List.filter_singleton,
      List.filter_singleton, hink]
    cases hasInk last with
    | false => rfl
    | true => exact (items_concat _ _).trans (htrim ▸ (items_concat _ _).symm)

theorem listItems_blanks_append {trail : List Char} (ht : ∀ c ∈ trail, isBlank c = true)
    (s : List Char) : listItems (s ++ trail) = listItems s := by
  induction trail using List.reverseRecOn with
  | nil => rw [List.append_nil]
  | append_singleton trail c ih =>
    obtain ⟨htrail, hc⟩ := List.forall_mem_append.1 ht
    rw [← List.append_assoc, listItems_concat_blank (hc c (List.mem_singleton_self c)), ih htrail]

theorem listItems_trim (s : List Char) : listItems (Text.trim s) = listItems s := by
  obtain ⟨lead, trail, hs, hl, ht⟩ := Text.exists_trimWhile isBlank s
  conv_rhs => rw [hs, listItems_append_blanks hl, listItems_blanks_append ht]
  rfl

/-- Blank lines are in no item, and the line before them stays as it is. -/
theorem cutWhere_collapse (s : List Char) : ∃ line lines others,
    cutWhere isBreak (collapseBlankLines s) = line :: lines ∧
      cutWhere isBreak s = line :: others ∧ lines.filter hasInk = others.filter hasInk := by
  have hfeed : isBreak '\n' = true := by decide
  induction s using collapse_induction with
  | nil => exact ⟨[], [], [], by rw [collapseBlankLines_nil]; rfl, rfl, rfl⟩
  | found c rest r hc hr ih =>
    obtain ⟨line, lines, others, hlines, hothers, hsame⟩ := ih
    obtain ⟨gap, d, rfl, hgap, hd, -⟩ := exists_of_pastBlankBreaks? hr
    refine ⟨[], _, _, by rw [collapseBlankLines_found hc hr, Text.cutWhere_cons_of_pos hfeed],
      Text.cutWhere_cons_of_pos hc _, ?_⟩
    have hblank : (cutWhere isBreak gap).filter hasInk = [] := by
      apply List.filter_eq_nil_iff.2
      intro piece hpiece
      rw [hasInk_blanks fun e he => hgap e ?_]
      · exact Bool.false_ne_true
      · have hflat := List.mem_flatten.2 ⟨piece, hpiece, he⟩
        rw [Text.flatten_cutWhere] at hflat
        exact (List.mem_filter.1 hflat).1
    rw [Text.cutWhere_append_cons hd, List.filter_append, hblank, hlines, hothers,
      List.nil_append, List.filter_cons, List.filter_cons, hsame]
  | kept c rest hc ih =>
    obtain ⟨line, lines, others, hlines, hothers, hsame⟩ := ih
    rw [collapseBlankLines_kept hc]
    by_cases hbreak : isBreak c = true
    · refine ⟨[], _, _, Text.cutWhere_cons_of_pos hbreak _, Text.cutWhere_cons_of_pos hbreak _, ?_⟩
      rw [hlines, hothers, List.filter_cons, List.filter_cons, hsame]
    · have hbreak := Bool.eq_false_of_not_eq_true hbreak
      refine ⟨c :: line, lines, others, ?_, ?_, hsame⟩
      · rw [Text.cutWhere_cons_of_neg hbreak, hlines]
        rfl
      · rw [Text.cutWhere_cons_of_neg hbreak, hothers]
        rfl

theorem listItems_collapse (s : List Char) :
    listItems (collapseBlankLines s) = listItems s := by
  obtain ⟨line, lines, others, hlines, hothers, hsame⟩ := cutWhere_collapse s
  unfold listItems inkedLines
  rw [hlines, hothers, List.filter_cons, List.filter_cons, hsame]

theorem listItems_plainText (raw : List Char) : listItems (plainText raw) = listItems raw := by
  have hfront : listItems (raw.dropWhile isBlank) = listItems raw := by
    conv_rhs => rw [← List.takeWhile_append_dropWhile (p := isBlank) (l := raw),
      listItems_append_blanks fun _ => List.mem_takeWhile_imp]
  unfold plainText
  rw [listItems_trim, listItems_collapse, hfront]

/-! ## Joining -/

theorem isSpacing_of_isBreak {c : Char} (h : isBreak c = true) : isSpacing c = false := by
  simp only [isBreak, Bool.or_eq_true, beq_iff_eq] at h
  obtain rfl | rfl := h <;> decide

theorem joinLines_found {s r : List Char} (h : pastLineBreak? s = some r) :
    joinLines s = ',' :: ' ' :: joinLines r := by
  rw [joinLines]
  split
  · rename_i t ht
    rw [h] at ht
    cases ht
    rfl
  · rename_i hn
    rw [h] at hn
    cases hn

theorem joinLines_cons {c : Char} {s : List Char} (h : pastLineBreak? (c :: s) = none) :
    joinLines (c :: s) = c :: joinLines s := by
  rw [joinLines]
  split
  · rename_i t ht
    rw [h] at ht
    cases ht
  · rfl

theorem joinLines_nil : joinLines [] = [] := by
  rw [joinLines]
  split
  · rename_i t ht
    cases ht
  · rfl

/-- Text on one line stays as it is. -/
theorem joinLines_line {s : List Char} (hs : ∀ c ∈ s, isBreak c = false) : joinLines s = s := by
  induction s with
  | nil => exact joinLines_nil
  | cons c s ih =>
    have hnone : pastLineBreak? (c :: s) = none := by
      unfold pastLineBreak?
      split
      · rfl
      · rename_i d rest hd
        have hmem : d ∈ (c :: s).dropWhile isSpacing := hd ▸ List.mem_cons_self
        exact if_neg (by simp [hs d ((List.dropWhile_suffix _).subset hmem)])
    rw [joinLines_cons hnone, ih fun d hd => hs d (List.mem_cons_of_mem c hd)]

theorem dropBackWhile_cons {p : Char → Bool} {c : Char} {s : List Char}
    (h : ¬ ∀ d ∈ c :: s, p d = true) : dropBackWhile p (c :: s) = c :: dropBackWhile p s := by
  rw [dropBackWhile]
  cases hs : dropBackWhile p s with
  | nil =>
    rw [Text.dropBackWhile_eq_rdropWhile, List.rdropWhile_eq_nil_iff] at hs
    exact if_neg fun hc => h (List.forall_mem_cons.2 ⟨hc, hs⟩)
  | cons d kept => rfl

/-- A line before a break loses the spacing at its end. -/
theorem joinLines_break {line : List Char} (hl : ∀ c ∈ line, isBreak c = false) {d : Char}
    (hd : isBreak d = true) (rest : List Char) :
    joinLines (line ++ d :: rest) =
      dropBackWhile isSpacing line ++ ',' :: ' ' :: joinLines (rest.dropWhile isBlank) := by
  have hspacing : ∀ u : List Char, (∀ c ∈ u, isSpacing c = true) →
      pastLineBreak? (u ++ d :: rest) = some (rest.dropWhile isBlank) := by
    intro u hu
    unfold pastLineBreak?
    rw [List.dropWhile_append_of_pos hu,
      List.dropWhile_cons_of_neg (by simp [isSpacing_of_isBreak hd])]
    exact if_pos hd
  induction line with
  | nil => exact joinLines_found (hspacing [] (List.forall_mem_nil _))
  | cons c line ih =>
    by_cases hall : ∀ e ∈ c :: line, isSpacing e = true
    · have hnone := Text.dropBackWhile_append hall []
      rw [List.nil_append] at hnone
      rw [joinLines_found (hspacing _ hall), hnone]
      rfl
    · have hne : (c :: line).dropWhile isSpacing ≠ [] := fun h =>
        hall (List.dropWhile_eq_nil_iff.1 h)
      obtain ⟨e, more, he⟩ := List.exists_cons_of_ne_nil hne
      have hmem : e ∈ (c :: line).dropWhile isSpacing := he ▸ List.mem_cons_self
      have hnone : pastLineBreak? (c :: (line ++ d :: rest)) = none := by
        unfold pastLineBreak?
        rw [← List.cons_append, List.dropWhile_append, he]
        exact if_neg (by simp [hl e ((List.dropWhile_suffix _).subset hmem)])
      rw [List.cons_append, joinLines_cons hnone, ih fun x hx => hl x (List.mem_cons_of_mem c hx),
        dropBackWhile_cons hall, List.cons_append]

theorem isBreak_of_mem_joinLines (s : List Char) : ∀ c ∈ joinLines s, isBreak c = false := by
  fun_induction joinLines s with
  | case1 s r h ih =>
    exact List.forall_mem_cons.2 ⟨by decide, List.forall_mem_cons.2 ⟨by decide, ih⟩⟩
  | case2 h => exact List.forall_mem_nil _
  | case3 c rest h ih =>
    refine List.forall_mem_cons.2 ⟨?_, ih⟩
    by_contra hc
    have hc := Bool.eq_true_of_not_eq_false hc
    unfold pastLineBreak? at h
    rw [List.dropWhile_cons_of_neg (by simp [isSpacing_of_isBreak hc])] at h
    simp [hc] at h

/-! ## Lists -/

theorem inked_dropWhile {e : Char} (he : isBlank e = false) (s : List Char) :
    Text.Inked ((s ++ [e]).dropWhile isBlank) := by
  have hone : [e].dropWhile isBlank = [e] := List.dropWhile_cons_of_neg (by simp [he])
  have hne : (s ++ [e]).dropWhile isBlank ≠ [] := by
    intro h
    have hall := List.dropWhile_eq_nil_iff.1 h e (by simp)
    rw [he] at hall
    cases hall
  have hlast : ∃ init, (s ++ [e]).dropWhile isBlank = init ++ [e] := by
    rw [List.dropWhile_append, hone]
    split
    · exact ⟨[], rfl⟩
    · exact ⟨_, rfl⟩
  obtain ⟨init, hinit⟩ := hlast
  exact {
    first := ⟨_, _, (List.cons_head_tail hne).symm, by
      simpa using List.head_dropWhile_not isBlank hne⟩
    last := ⟨init, e, hinit, he⟩ }

/-- Induction along the lines of a text with ink at both ends. -/
@[elab_as_elim]
theorem line_induction {P : List Char → Prop}
    (one : ∀ s, Text.Inked s → (∀ c ∈ s, isBreak c = false) → P s)
    (more : ∀ c line d rest, isBlank c = false → (∀ e ∈ c :: line, isBreak e = false) →
      isBreak d = true → Text.Inked (rest.dropWhile isBlank) → P (rest.dropWhile isBlank) →
      P (c :: line ++ d :: rest)) {s : List Char} (hs : Text.Inked s) : P s := by
  induction hn : s.length using Nat.strong_induction_on generalizing s with
  | _ n ih =>
    subst hn
    obtain ⟨c, tail, hc, hcb⟩ := hs.first
    obtain ⟨init, e, he, heb⟩ := hs.last
    have hsplit := List.takeWhile_append_dropWhile (p := fun c => !isBreak c) (l := s)
    have hline : ∀ x ∈ s.takeWhile fun c => !isBreak c, isBreak x = false := by
      intro x hx
      simpa using List.mem_takeWhile_imp hx
    cases hd : s.dropWhile fun c => !isBreak c with
    | nil =>
      rw [hd, List.append_nil] at hsplit
      exact one s hs (hsplit ▸ hline)
    | cons d rest =>
      have hbreak : isBreak d = true := by
        have hhead := List.head_dropWhile_not (fun c => !isBreak c) (l := s) (by simp [hd])
        simpa [hd] using hhead
      have hcbreak := isBreak_of_ink hcb
      rw [hd] at hsplit
      obtain ⟨line, hfirst⟩ : ∃ line, (s.takeWhile fun c => !isBreak c) = c :: line :=
        ⟨_, by rw [hc, List.takeWhile_cons_of_pos (by simp [hcbreak])]⟩
      rw [hfirst] at hsplit hline
      -- The last ink is after the break, since a break is blank.
      have hrest : Text.Inked (rest.dropWhile isBlank) := by
        obtain rfl | ⟨front, x, hx⟩ := List.eq_nil_or_concat rest
        · have hlast := congrArg List.getLast? (hsplit.trans he)
          rw [List.getLast?_concat, List.getLast?_concat, Option.some.injEq] at hlast
          rw [← hlast, isBlank_of_isBreak hbreak] at heb
          cases heb
        · rw [List.concat_eq_append] at hx
          have hlast := congrArg List.getLast? (hsplit.trans he)
          rw [hx, ← List.cons_append, ← List.append_assoc, List.getLast?_concat,
            List.getLast?_concat, Option.some.injEq] at hlast
          rw [hx, hlast]
          exact inked_dropWhile heb front
      have hlen : (rest.dropWhile isBlank).length < s.length := by
        have hle := (List.dropWhile_suffix (l := rest) isBlank).length_le
        rw [← hsplit, List.length_append, List.length_cons, List.length_cons]
        omega
      rw [← hsplit]
      exact more c line d rest hcb hline hbreak hrest (ih _ hlen hrest rfl)

theorem joinLines_inked {s : List Char} (hs : Text.Inked s) : Text.Inked (joinLines s) := by
  refine line_induction ?one ?more hs
  case one =>
    intro s hs hl
    rwa [joinLines_line hl]
  case more =>
    intro c line d rest hc hl hd _ ih
    obtain ⟨init, e, he, heb⟩ := ih.last
    have hfront : ∃ more, dropBackWhile isSpacing (c :: line) = c :: more := by
      refine ⟨_, dropBackWhile_cons fun h => ?_⟩
      rw [isBlank_of_isSpacing (h c List.mem_cons_self)] at hc
      cases hc
    obtain ⟨more, hmore⟩ := hfront
    rw [joinLines_break hl hd, hmore, he]
    exact {
      first := ⟨c, _, rfl, hc⟩
      last := ⟨c :: (more ++ ',' :: ' ' :: init), e, by simp, heb⟩ }

/-- The lines of a text with ink at both ends, joined, are its items with commas between them. -/
theorem joinLines_eq_items {s : List Char} (hs : Text.Inked s) :
    joinLines s = [',', ' '].intercalate (listItems s) := by
  -- Induction on the lines: the text ends with its first line, or more ink comes after a break.
  refine line_induction ?one ?more hs
  case one =>
    intro s hs hl
    obtain ⟨c, rest, hc, hink⟩ := hs.first
    have hinked : hasInk s = true := by simp [hc, hasInk, hink]
    have hitems : listItems s = [s] := by
      unfold listItems inkedLines
      rw [Text.cutWhere_piece hl, List.filter_cons_of_pos hinked]
      exact congrArg (fun t => [t]) (Text.trim_inked hs)
    rw [joinLines_line hl, hitems, List.intercalate_singleton]
  case more =>
    intro c line d rest hc hl hd hrest ih
    have hafter : listItems (rest.dropWhile isBlank) = listItems rest := by
      conv_rhs => rw [← List.takeWhile_append_dropWhile (p := isBlank) (l := rest),
        listItems_append_blanks fun _ => List.mem_takeWhile_imp]
    have hinked : hasInk (c :: line) = true := by simp [hasInk, hc]
    have hlines : inkedLines (c :: line ++ d :: rest) = (c :: line) :: inkedLines rest := by
      unfold inkedLines
      rw [Text.cutWhere_append_cons hd, Text.cutWhere_piece hl, List.singleton_append,
        List.filter_cons_of_pos hinked]
    have hstrip : stripLine (c :: line) = dropBackWhile isSpacing (c :: line) := by
      unfold stripLine
      rw [List.dropWhile_cons_of_neg (by simp [hc])]
    obtain ⟨e, tail, he, hink⟩ := hrest.first
    have hmem : e ∈ rest := (List.dropWhile_suffix isBlank).subset (he ▸ List.mem_cons_self)
    have hne := inkedLines_ne_nil hmem hink
    obtain ⟨next, others, hnext⟩ := List.exists_cons_of_ne_nil hne
    have hitems : listItems (c :: line ++ d :: rest) = stripLine (c :: line) :: listItems rest := by
      unfold listItems
      rw [hlines, hnext, items]
    have hsome : listItems rest ≠ [] := by
      unfold listItems
      rw [hnext]
      cases others <;> exact List.cons_ne_nil _ _
    obtain ⟨item, more, hitem⟩ := List.exists_cons_of_ne_nil hsome
    rw [joinLines_break hl hd, ih, hafter, hitems, hstrip, hitem, List.intercalate_cons_cons]
    simp

end HelpMiner.Page
