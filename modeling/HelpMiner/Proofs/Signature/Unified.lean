import HelpMiner.Proofs.Signature.Unqualified

/-! Text whose connectors all have their one spelling: what unifying gives, and what it leaves as it
is. -/
namespace HelpMiner.Signature

open Text (isWord isBlank)

/-- Wherever a connector stands before a type, it has its one spelling. -/
def Unified (s : List Char) : Prop :=
  ∀ conn after, conn ++ after <:+ s → Link conn → (type? after).isSome → conn = connector

/-! ## Types -/

theorem atWordEnd_unifyConnectors (s : List Char) :
    atWordEnd (unifyConnectors s) = atWordEnd s := by
  cases hc : connected? s with
  | some p =>
    obtain ⟨conn, hlink, hs, -⟩ := exists_of_connected? hc
    obtain ⟨c, rest, rfl, hw⟩ := hlink.ends.1
    rw [unifyConnectors_connected hc, hs]
    simp only [List.cons_append, atWordEnd, hw]
    rfl
  | none =>
    cases s with
    | nil => rw [unifyConnectors_nil]
    | cons c s => rw [unifyConnectors_cons hc]; rfl

/-- Unifying makes no type and takes none away. -/
theorem isSome_type?_unifyConnectors (s : List Char) :
    (type? (unifyConnectors s)).isSome = (type? s).isSome := by
  have hword : ∀ c ∈ s.takeWhile isWord, isWord c = true := fun _ => List.mem_takeWhile_imp
  have hend := atWordEnd_dropWhile s
  have hunify : unifyConnectors s =
      s.takeWhile isWord ++ unifyConnectors (s.dropWhile isWord) := by
    rw [← unifyConnectors_word hword, List.takeWhile_append_dropWhile]
  have hs : type? s = type? (s.takeWhile isWord ++ s.dropWhile isWord) := by
    rw [List.takeWhile_append_dropWhile]
  rw [hunify, hs, type?_append_end hend,
    type?_append_end ((atWordEnd_unifyConnectors _).trans hend), Option.isSome_map,
    Option.isSome_map]

theorem Unconnected.of_type {s : List Char} (h : (type? s).isSome) : Unconnected s := by
  obtain ⟨c, rest, rfl, -, hinitial⟩ := exists_of_isSome_type? h
  constructor
  · intro d t hw
    have hne : sameLetter 'a' c = false := by
      by_contra hsame
      have hc := (sameLetter_iff (by decide) c).1 (Bool.eq_true_of_not_eq_false hsame)
      exact absurd (hc ▸ hinitial) (by decide)
    rw [afterWord?_cons_of_ne hne] at hw
    cases hw
  · intro t hs
    obtain rfl := (List.cons.inj hs).1
    exact absurd hinitial (by decide)

/-! ## Connectors that are not found -/

/-- Blanks before a connector belong to it. -/
theorem connected?_of_blank {b : Char} (hb : isBlank b = true) {s : List Char}
    (h : connected? (b :: s) = none) : connected? s = none := by
  cases hc : connected? s with
  | none => rfl
  | some p =>
    obtain ⟨conn, hlink, rfl, ht⟩ := exists_of_connected? hc
    have hlink : Link (b :: conn) := by
      cases hlink with
      | word hbefore _ hw ha hane =>
        exact .word (List.forall_mem_cons.2 ⟨hb, hbefore⟩) (List.cons_ne_nil _ _) hw ha hane
      | opening hbefore ha => exact .opening (List.forall_mem_cons.2 ⟨hb, hbefore⟩) ha
    have hdrop := dropWhile_of_isSome_type? (by rw [ht]; rfl)
    have hfound := hlink.connected? hdrop
    rw [List.cons_append, h, ht] at hfound
    cases hfound

theorem connected?_dropWhile {s : List Char} (h : connected? s = none) :
    connected? (s.dropWhile isBlank) = none := by
  induction s with
  | nil => exact h
  | cons c s ih =>
    by_cases hc : isBlank c = true
    · rw [List.dropWhile_cons_of_pos hc]
      exact ih (connected?_of_blank hc h)
    · rwa [List.dropWhile_cons_of_neg hc]

/-- Where no connector comes first, the blanks at the front stay. -/
theorem dropWhile_unifyConnectors {s : List Char} (h : connected? s = none) :
    (unifyConnectors s).dropWhile isBlank = unifyConnectors (s.dropWhile isBlank) := by
  induction s with
  | nil => rw [unifyConnectors_nil]; exact unifyConnectors_nil.symm
  | cons c s ih =>
    rw [unifyConnectors_cons h]
    by_cases hc : isBlank c = true
    · rw [List.dropWhile_cons_of_pos hc, List.dropWhile_cons_of_pos hc]
      exact ih (connected?_of_blank hc h)
    · rw [List.dropWhile_cons_of_neg hc, List.dropWhile_cons_of_neg hc, unifyConnectors_cons h]

/-- Unifying brings no type nearer. -/
theorem type?_dropWhile_unifyConnectors {s : List Char} (h : type? (s.dropWhile isBlank) = none) :
    type? ((unifyConnectors s).dropWhile isBlank) = none := by
  cases hc : connected? s with
  | some p =>
    have hdrop : (unifyConnectors s).dropWhile isBlank =
        'A' :: 's' :: ' ' :: (p.1 ++ unifyConnectors p.2) := by
      rw [unifyConnectors_connected hc]
      rfl
    rw [hdrop]
    exact type?_eq_none (by decide) _
  | none =>
    rw [dropWhile_unifyConnectors hc, ← Option.not_isSome_iff_eq_none,
      isSome_type?_unifyConnectors, Option.not_isSome_iff_eq_none]
    exact h

theorem type?_of_opening {s : List Char} (h : connected? ('(' :: s) = none) :
    type? (s.dropWhile isBlank) = none := by
  by_contra ht
  have hdrop := dropWhile_of_isSome_type? (Option.isSome_iff_ne_none.2 ht)
  have hlink : Link ([] ++ '(' :: s.takeWhile isBlank) :=
    .opening (List.forall_mem_nil _) fun _ => List.mem_takeWhile_imp
  have hfound := hlink.connected? hdrop
  rw [List.nil_append, List.cons_append, List.takeWhile_append_dropWhile, h] at hfound
  exact ht hfound.symm

theorem Unconnected.of_blank {b : Char} (hb : isBlank b = true) {s : List Char}
    (h : connected? (b :: s) = none) : Unconnected (s.dropWhile isBlank) := by
  have hlead : ∀ c ∈ b :: s.takeWhile isBlank, isBlank c = true :=
    List.forall_mem_cons.2 ⟨hb, fun _ => List.mem_takeWhile_imp⟩
  constructor
  · intro c t hw hc
    by_contra ht
    obtain ⟨w, hs, hw⟩ := exists_of_afterWord? (by decide) hw
    have hdrop := dropWhile_of_isSome_type? (Option.isSome_iff_ne_none.2 ht)
    have hlink : Link ((b :: s.takeWhile isBlank) ++ (w ++ (c :: t.takeWhile isBlank))) :=
      .word hlead (List.cons_ne_nil _ _) hw
        (List.forall_mem_cons.2 ⟨hc, fun _ => List.mem_takeWhile_imp⟩) (List.cons_ne_nil _ _)
    have hfound := hlink.connected? hdrop
    rw [List.append_assoc, List.append_assoc, List.cons_append, List.cons_append,
      List.takeWhile_append_dropWhile, ← hs, List.takeWhile_append_dropWhile, h] at hfound
    exact ht hfound.symm
  · intro t hs
    apply type?_of_opening
    rw [← hs]
    exact connected?_dropWhile (connected?_of_blank hb h)

/-- At the end of a word, a type is not nearer than the blanks that `as` takes with it. -/
theorem Unconnected.noType {s w after : List Char} (h : Unconnected s) (hs : s = w ++ after)
    (hw : InCase ['a', 's'] w) (ha : atWordEnd after = true) :
    type? (after.dropWhile isBlank) = none := by
  cases after with
  | nil => rfl
  | cons c t =>
    by_cases hc : isBlank c = true
    · rw [List.dropWhile_cons_of_pos hc]
      exact h.noAs c t (hs ▸ afterWord?_append (by decide) hw _) hc
    · rw [List.dropWhile_cons_of_neg hc]
      by_contra ht
      obtain ⟨d, rest, hd, hword, -⟩ := exists_of_isSome_type? (Option.isSome_iff_ne_none.2 ht)
      rw [hd] at ha
      simp [atWordEnd, hword] at ha

theorem Unconnected.unify {s : List Char} (h : Unconnected s) (hs : connected? s = none) :
    Unconnected (unifyConnectors s) where
  noAs := by
    intro c t hw hc
    obtain ⟨w, hunify, hw⟩ := exists_of_afterWord? (by decide) hw
    have hword : ∀ d ∈ s.takeWhile isWord, isWord d = true := fun _ => List.mem_takeWhile_imp
    have hend := atWordEnd_dropWhile s
    have hcend : atWordEnd (c :: t) = true := by simp [atWordEnd, Text.isWord_of_isBlank hc]
    rw [← List.takeWhile_append_dropWhile (p := isWord) (l := s), unifyConnectors_word hword]
      at hunify
    -- Unifying stays outside of words, so `as` was read as a word before.
    obtain ⟨hfront, hafter⟩ := word_unique hword
      ((atWordEnd_unifyConnectors _).trans hend) (hw.isWord as_isWord) hcend hunify
    have hsplit : s = w ++ s.dropWhile isWord := by
      rw [← hfront, List.takeWhile_append_dropWhile]
    have hnone := type?_dropWhile_unifyConnectors (h.noType hsplit hw hend)
    rwa [hafter, List.dropWhile_cons_of_pos hc] at hnone
  noOpening := by
    intro t ht
    cases s with
    | nil =>
      rw [unifyConnectors_nil] at ht
      cases ht
    | cons c s =>
      rw [unifyConnectors_cons hs] at ht
      obtain ⟨rfl, rfl⟩ := List.cons.inj ht
      exact type?_dropWhile_unifyConnectors (h.noOpening s rfl)

/-- Unifying makes no connector. -/
theorem connected?_cons_unifyConnectors {c : Char} {s : List Char}
    (h : connected? (c :: s) = none) : connected? (c :: unifyConnectors s) = none := by
  by_cases hb : isBlank c = true
  · have hs := connected?_of_blank hb h
    apply connected?_eq_none
    rw [List.dropWhile_cons_of_pos hb, dropWhile_unifyConnectors hs]
    exact (Unconnected.of_blank hb h).unify (connected?_dropWhile hs)
  · have hb := Bool.eq_false_of_not_eq_true hb
    by_cases hc : c = '('
    · obtain rfl := hc
      apply connected?_eq_none
      rw [List.dropWhile_cons_of_neg (by decide)]
      constructor
      · intro d t hw
        rw [afterWord?_cons_of_ne (by decide)] at hw
        cases hw
      · intro t ht
        obtain rfl := (List.cons.inj ht).2
        exact type?_dropWhile_unifyConnectors (type?_of_opening h)
    · exact connected?_plain hb hc _

/-! ## Unified text -/

theorem Unified.of_suffix {s t : List Char} (h : Unified s) (hs : t <:+ s) : Unified t :=
  fun conn after hc => h conn after (hc.trans hs)

theorem unified_cons {c : Char} {s : List Char} (h : connected? (c :: s) = none)
    (hs : Unified s) : Unified (c :: s) := by
  intro conn after hsuffix hlink ht
  obtain heq | hsuffix := List.suffix_cons_iff.1 hsuffix
  · have hfound := hlink.connected? (dropWhile_of_isSome_type? ht)
    rw [heq, h] at hfound
    rw [← hfound] at ht
    cases ht
  · exact hs conn after hsuffix hlink ht

theorem unified_word {t s : List Char} (ht : ∀ c ∈ t, isWord c = true) (hs : Unified s) :
    Unified (t ++ s) := by
  induction t with
  | nil => exact hs
  | cons c t ih =>
    have hc := ht c List.mem_cons_self
    have hplain : c ≠ '(' := by
      rintro rfl
      exact absurd hc (by decide)
    exact unified_cons (connected?_plain (isBlank_of_isWord hc) hplain _)
      (ih fun d hd => ht d (List.mem_cons_of_mem c hd))

theorem connector_link : Link connector := by
  have has : InCase ['a', 's'] ['A', 's'] := rfl
  exact .word connector_blanks.isBlank (List.cons_ne_nil _ _) has connector_blanks.isBlank
    (List.cons_ne_nil _ _)

/-- A connector in its one spelling is the only one up to its type. -/
theorem unified_connector {s : List Char} (ht : (type? s).isSome) (hs : Unified s) :
    Unified (connector ++ s) := by
  intro conn after hsuffix hlink htype
  obtain ⟨p, hp⟩ := Option.isSome_iff_exists.1 htype
  have hafter := (exists_of_type? hp).1
  obtain heq | hsuffix := List.suffix_cons_iff.1 hsuffix
  · have hfound := hlink.connected? (dropWhile_of_isSome_type? htype)
    have hone := connector_link.connected? (dropWhile_of_isSome_type? ht)
    have hsame : type? s = some p := by
      rw [← hone, ← hp, ← hfound, heq]
      rfl
    rw [hafter, ← (exists_of_type? hsame).1] at heq
    exact List.append_cancel_right heq
  · have hspace : connected? (' ' :: s) = none := by
      apply connected?_eq_none
      rw [List.dropWhile_cons_of_pos (by decide), dropWhile_of_isSome_type? ht]
      exact Unconnected.of_type ht
    have hrest : Unified ('A' :: 's' :: ' ' :: s) :=
      unified_cons (connected?_plain (by decide) (by decide) _)
        (unified_cons (connected?_plain (by decide) (by decide) _) (unified_cons hspace hs))
    exact hrest conn after hsuffix hlink htype

/-- Unifying gives every connector its one spelling. -/
theorem unified_unifyConnectors (s : List Char) : Unified (unifyConnectors s) := by
  fun_induction unifyConnectors s with
  | case1 s t rest hc ih =>
    obtain ⟨conn, -, -, ht⟩ := exists_of_connected? hc
    have hword := (exists_of_type? ht).2.isWord
    have htype : (type? (t ++ unifyConnectors rest)).isSome := by
      rw [← unifyConnectors_word hword, isSome_type?_unifyConnectors, ht]
      rfl
    rw [List.append_assoc]
    exact unified_connector htype (unified_word hword ih)
  | case2 h =>
    intro conn after hsuffix hlink
    have hnil := List.append_eq_nil_iff.1 (List.suffix_nil.1 hsuffix)
    obtain ⟨c, rest, hconn, -⟩ := hlink.ends.1
    rw [hnil.1] at hconn
    cases hconn
  | case3 c rest hc ih => exact unified_cons (connected?_cons_unifyConnectors hc) ih

/-- There is nothing to unify where every connector has its one spelling. -/
theorem Unified.unify {s : List Char} (h : Unified s) : unifyConnectors s = s := by
  fun_induction unifyConnectors s with
  | case1 s t rest hc ih =>
    obtain ⟨conn, hlink, rfl, ht⟩ := exists_of_connected? hc
    have hone := h conn (t ++ rest) List.suffix_rfl hlink (by rw [ht]; rfl)
    have hrest : rest <:+ conn ++ (t ++ rest) :=
      (List.suffix_append t rest).trans (List.suffix_append conn _)
    rw [ih (h.of_suffix hrest), hone, List.append_assoc]
  | case2 => rfl
  | case3 c rest hc ih => rw [ih (h.of_suffix (List.suffix_cons c rest))]

theorem Unified.trim {s : List Char} (h : Unified s) : Unified (Text.trim s) := by
  intro conn after hsuffix hlink ht
  obtain ⟨lead, trail, hs, -, htrail⟩ := Text.exists_trimWhile isBlank s
  have hlonger : conn ++ (after ++ trail) <:+ s := by
    obtain ⟨front, hfront⟩ := hsuffix
    refine ⟨lead ++ front, ?_⟩
    conv_rhs => rw [hs]
    change _ = lead ++ (Text.trim s ++ trail)
    rw [← hfront]
    simp only [List.append_assoc]
  apply h conn (after ++ trail) hlonger hlink
  rwa [type?_append_end (atWordEnd_of_blank htrail), Option.isSome_map]

end HelpMiner.Signature
