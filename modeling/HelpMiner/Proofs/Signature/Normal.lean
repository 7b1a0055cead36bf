import HelpMiner.Proofs.Signature.Connector

/-! Every spelling of a declaration has the same normal form, up to a closing parenthesis. -/
namespace HelpMiner.Signature

open Text (isWord isBlank)

theorem as_isWord : ∀ l ∈ ['a', 's'], isWord l = true := by
  have h : ['a', 's'].all Text.isAsciiWord = true := by decide
  exact fun l hl => isWord_of_isAsciiWord (List.all_eq_true.1 h l hl)

theorem free_as {w : List Char} (hw : InCase ['a', 's'] w) : Free w := by
  intro q hq hqw
  have hlen : ∀ q ∈ qualifiers, q.toList.length ≠ 2 := by decide
  exact hlen q hq (hqw.length.symm.trans hw.length)

theorem IsIdent.isWord {s : List Char} (h : IsIdent s) : ∀ c ∈ s, Text.isWord c = true :=
  fun c hc => isWord_of_isAsciiWord (h.chars c hc)

theorem IsIdent.ne_nil {s : List Char} (h : IsIdent s) : s ≠ [] := by
  obtain ⟨c, rest, rfl, _⟩ := h.first
  exact List.cons_ne_nil c rest

/-! ## Connectors -/

theorem afterAs?_word {before w after : List Char} (hb : ∀ c ∈ before, isBlank c = true)
    (hbne : before ≠ []) (hw : InCase ['a', 's'] w) (ha : ∀ c ∈ after, isBlank c = true)
    (hane : after ≠ []) (s : List Char) :
    afterAs? (before ++ (w ++ (after ++ s))) = some (s.dropWhile isBlank) := by
  obtain ⟨b, before, rfl⟩ := List.exists_cons_of_ne_nil hbne
  obtain ⟨a, after, rfl⟩ := List.exists_cons_of_ne_nil hane
  have hbefore : ∀ c ∈ before, isBlank c = true := fun c hc => hb c (List.mem_cons_of_mem b hc)
  have hafter : ∀ c ∈ after, isBlank c = true := fun c hc => ha c (List.mem_cons_of_mem a hc)
  have hwne := hw.ne_nil (List.cons_ne_nil _ _)
  simp only [List.cons_append, afterAs?, hb b List.mem_cons_self, if_true]
  rw [List.dropWhile_append_of_pos hbefore, dropWhile_word (hw.isWord as_isWord) hwne,
    afterWord?_append (by decide) hw]
  simp only [ha a List.mem_cons_self, if_true]
  rw [List.dropWhile_append_of_pos hafter]

theorem afterAs?_mark {blanks : List Char} (hb : ∀ c ∈ blanks, isBlank c = true) {c : Char}
    (hc : isBlank c = false) (hne : sameLetter 'a' c = false) (s : List Char) :
    afterAs? (blanks ++ c :: s) = none := by
  cases h : afterAs? (blanks ++ c :: s) with
  | none => rfl
  | some t =>
    obtain ⟨b, rest, d, u, hs, hblank, hw, -⟩ := exists_of_afterAs? h
    have hdrop : (blanks ++ c :: s).dropWhile isBlank = (c :: s).dropWhile isBlank :=
      List.dropWhile_append_of_pos hb
    rw [hs, List.dropWhile_cons_of_pos hblank,
      List.dropWhile_cons_of_neg (by simp [hc])] at hdrop
    rw [hdrop, afterWord?_cons_of_ne hne] at hw
    cases hw

theorem afterOpening?_opening {before after : List Char} (hb : ∀ c ∈ before, isBlank c = true)
    (ha : ∀ c ∈ after, isBlank c = true) (s : List Char) :
    afterOpening? (before ++ '(' :: (after ++ s)) = some (s.dropWhile isBlank) := by
  unfold afterOpening?
  rw [List.dropWhile_append_of_pos hb, List.dropWhile_cons_of_neg (by decide)]
  exact congrArg some (List.dropWhile_append_of_pos ha)

/-- What connects a name to its type: the word `as` between blanks, or an opening parenthesis. -/
inductive Link : List Char → Prop where
  | word {before w after : List Char} (hb : ∀ c ∈ before, isBlank c = true) (hbne : before ≠ [])
      (hw : InCase ['a', 's'] w) (ha : ∀ c ∈ after, isBlank c = true) (hane : after ≠ []) :
      Link (before ++ (w ++ after))
  | opening {before after : List Char} (hb : ∀ c ∈ before, isBlank c = true)
      (ha : ∀ c ∈ after, isBlank c = true) : Link (before ++ '(' :: after)

/-- A connector is found with the type after it. -/
theorem Link.connected? {conn : List Char} (h : Link conn) {s : List Char}
    (hs : s.dropWhile isBlank = s) : Signature.connected? (conn ++ s) = type? s := by
  unfold Signature.connected?
  cases h with
  | word hb hbne hw ha hane =>
    rw [List.append_assoc, List.append_assoc, afterAs?_word hb hbne hw ha hane, hs]
  | opening hb ha =>
    rw [List.append_assoc, List.cons_append, afterAs?_mark hb (by decide) (by decide),
      afterOpening?_opening hb ha, hs]
    rfl

namespace Connects

variable {type conn closing : List Char}

theorem link (h : Connects type conn closing) : Link conn := by
  cases h with
  | word hb hbne hw ha hane => exact .word hb.isBlank hbne hw ha.isBlank hane
  | parens hb ha => exact .opening hb.isBlank ha.isBlank

theorem closes (h : Connects type conn closing) : Closing closing := by
  cases h with
  | word => exact Closing.bare
  | parens _ _ hl => exact Closing.parens hl

theorem atWordEnd (h : Connects type conn closing) (s : List Char) :
    Signature.atWordEnd (conn ++ s) = true := by
  cases h with
  | word hb hbne =>
    rw [List.append_assoc]
    exact atWordEnd_blanks hb hbne _
  | @parens before after last hb =>
    by_cases hne : before = []
    · rw [hne]
      rfl
    · rw [List.append_assoc]
      exact atWordEnd_blanks hb hne _

/-- A connector is not the name of a type. -/
theorem type?_eq_none (h : Connects type conn closing) (s : List Char) :
    type? ((conn ++ s).dropWhile isBlank) = none := by
  cases h with
  | @word before w after hb hbne hw =>
    rw [List.append_assoc, List.append_assoc, List.dropWhile_append_of_pos hb.isBlank,
      dropWhile_word (hw.isWord as_isWord) (hw.ne_nil (List.cons_ne_nil _ _))]
    obtain ⟨c, w, rfl⟩ := List.exists_cons_of_ne_nil (hw.ne_nil (List.cons_ne_nil _ _))
    have hc : foldCase c = foldCase 'a' := (List.cons.inj hw).1
    apply Signature.type?_eq_none
    rw [hc]
    decide
  | parens hb =>
    rw [List.append_assoc, List.dropWhile_append_of_pos hb.isBlank, List.cons_append,
      List.dropWhile_cons_of_neg (by decide)]
    exact Signature.type?_eq_none (by decide) _

theorem unqualified (h : Connects type conn closing) {s : List Char}
    (hs : Unqualified false s) : Unqualified false (conn ++ s) := by
  cases h with
  | @word before w after hb hbne hw ha hane =>
    rw [List.append_assoc, List.append_assoc, unqualified_blanks hb.isBlank]
    exact ((unqualified_blanks ha.isBlank).2 hs).word (hw.isWord as_isWord)
      (atWordEnd_blanks ha hane s) (free_as hw)
  | parens hb ha =>
    rw [List.append_assoc, List.cons_append, unqualified_blanks hb.isBlank]
    exact (unqualified_mark (by decide)).2 ((unqualified_blanks ha.isBlank).2 hs)

/-- A connector takes its one spelling, and the type after it stays. -/
theorem unify (h : Connects type conn closing) (ht : IsType type) {trail : List Char}
    (htrail : Blanks trail) :
    unifyConnectors (conn ++ (type ++ (closing ++ trail))) =
      connector ++ (type ++ (closing ++ trail)) := by
  have hend := h.closes.atWordEnd htrail
  obtain ⟨front, back, hfb, hback, hread⟩ := ht.type?
  have hdrop := dropWhile_word ht.isWord ht.ne_nil (closing ++ trail)
  have hfound := (h.link.connected? hdrop).trans (hread _ hend)
  rw [unifyConnectors_connected hfound, unifyConnectors_word hback, h.closes.unify htrail,
    hfb, List.append_assoc, List.append_assoc]

end Connects

/-! ## Declarations -/

theorem inked_of_forall {s : List Char} (h : ∀ c ∈ s, isBlank c = false) (hne : s ≠ []) :
    Text.Inked s where
  first := by
    obtain ⟨c, rest, rfl⟩ := List.exists_cons_of_ne_nil hne
    exact ⟨c, rest, rfl, h c List.mem_cons_self⟩
  last := by
    have hlast := h _ (List.getLast_mem hne)
    exact ⟨s.dropLast, s.getLast hne, (List.dropLast_append_getLast hne).symm, hlast⟩

theorem IsType.inked {t : List Char} (h : IsType t) : Text.Inked t :=
  inked_of_forall (fun c hc => isBlank_of_isWord (h.isWord c hc)) h.ne_nil

theorem Closing.inked {closing : List Char} (h : Closing closing) {t : List Char}
    (ht : Text.Inked t) : Text.Inked (t ++ closing) := by
  cases h with
  | bare => rwa [List.append_nil]
  | @parens last hl =>
    have hmark : Text.Inked [')'] :=
      { first := ⟨')', [], rfl, by decide⟩, last := ⟨[], ')', rfl, by decide⟩ }
    exact ht.append hmark last

namespace Declared

variable {d : Declared}

theorem atWordEnd_marks {s : List Char} (hs : Signature.atWordEnd s = true) :
    Signature.atWordEnd (d.marks ++ s) = true := by
  unfold marks
  by_cases ha : d.isArray = true
  · rw [if_pos ha]
    rfl
  · rwa [if_neg ha]

theorem marks_plain : ∀ c ∈ d.marks, isBlank c = false ∧ isWord c = false ∧ c ≠ '.' := by
  have hall : ∀ c ∈ ['(', ')'], isBlank c = false ∧ isWord c = false ∧ c ≠ '.' := by
    simp only [List.forall_mem_cons, List.not_mem_nil, false_implies, implies_true, and_true]
    decide
  unfold marks
  by_cases ha : d.isArray = true
  · rwa [if_pos ha]
  · rw [if_neg ha]
    simp

theorem name_plain (d : Declared) : ∀ c ∈ d.name, isBlank c = false := by
  intro c hc
  obtain hc | hc := List.mem_append.1 hc
  · exact isBlank_of_isWord (d.isIdent.isWord c hc)
  · exact (marks_plain c hc).1

theorem name_inked (d : Declared) : Text.Inked d.name :=
  inked_of_forall d.name_plain (List.append_ne_nil_of_left_ne_nil d.isIdent.ne_nil _)

theorem unqualified {conn closing trail : List Char} (hc : Connects d.type conn closing)
    (ht : Blanks trail) :
    Unqualified false (d.name ++ (conn ++ (d.type ++ (closing ++ trail)))) := by
  have htype : Unqualified false (d.type ++ (closing ++ trail)) :=
    (hc.closes.unqualified ht).word d.isType.isWord (hc.closes.atWordEnd ht)
      d.isType.not_qualifier
  have hconn := hc.unqualified htype
  have hmarks : Unqualified false (d.marks ++ (conn ++ (d.type ++ (closing ++ trail)))) := by
    unfold marks
    by_cases ha : d.isArray = true
    · rw [if_pos ha]
      exact (unqualified_mark (by decide)).2 ((unqualified_mark (by decide)).2 hconn)
    · rwa [if_neg ha]
  unfold name
  rw [List.append_assoc]
  exact hmarks.word d.isIdent.isWord (atWordEnd_marks (hc.atWordEnd _)) d.isIdent.free

/-- A name is no connector, not even the name `as`. -/
theorem unconnected {conn closing : List Char} (hc : Connects d.type conn closing)
    (s : List Char) : Unconnected (d.name ++ (conn ++ s)) where
  noAs := by
    intro c t hw hb
    obtain ⟨u, hs, hu⟩ := exists_of_afterWord? (by decide) hw
    have hend : Signature.atWordEnd (c :: t) = true := by
      simp [Signature.atWordEnd, Text.isWord_of_isBlank hb]
    unfold name at hs
    rw [List.append_assoc] at hs
    -- The word read as `as` is the identifier, so the connector follows, which is no type.
    have hrest := (word_unique d.isIdent.isWord (atWordEnd_marks (hc.atWordEnd s))
      (hu.isWord as_isWord) hend hs).2
    have hbare : d.marks = [] := by
      by_contra hne
      obtain ⟨m, ms, hm⟩ := List.exists_cons_of_ne_nil hne
      rw [hm, List.cons_append] at hrest
      have hmark := (marks_plain (d := d) m (hm ▸ List.mem_cons_self)).1
      rw [(List.cons.inj hrest).1, hb] at hmark
      cases hmark
    rw [hbare, List.nil_append] at hrest
    have hdrop : (c :: t).dropWhile isBlank = t.dropWhile isBlank := List.dropWhile_cons_of_pos hb
    rw [← hdrop, ← hrest]
    exact hc.type?_eq_none s
  noOpening := by
    intro t hs
    obtain ⟨c, rest, hi, -⟩ := d.isIdent.first
    have hword := d.isIdent.isWord c (hi ▸ List.mem_cons_self)
    unfold name at hs
    rw [hi] at hs
    rw [(List.cons.inj hs).1] at hword
    exact absurd hword (by decide)

/-- The parentheses of an array are no connector. -/
theorem unify_name (d : Declared) (s : List Char) :
    unifyConnectors (d.name ++ s) = d.name ++ unifyConnectors s := by
  have hmarks : unifyConnectors (d.marks ++ s) = d.marks ++ unifyConnectors s := by
    unfold marks
    by_cases ha : d.isArray = true
    · have hopening : Unconnected ('(' :: ')' :: s) :=
        { noAs := by
            intro c t h
            rw [afterWord?_cons_of_ne (by decide)] at h
            cases h
          noOpening := by
            rintro t h
            rw [← (List.cons.inj h).2, List.dropWhile_cons_of_neg (by decide)]
            exact Signature.type?_eq_none (by decide) s }
      have hnone : Signature.connected? ('(' :: ')' :: s) = none := by
        apply connected?_eq_none
        rwa [List.dropWhile_cons_of_neg (by decide)]
      rw [if_pos ha]
      change unifyConnectors ('(' :: ')' :: s) = '(' :: ')' :: unifyConnectors s
      rw [unifyConnectors_cons hnone,
        unifyConnectors_cons (connected?_plain (by decide) (by decide) s)]
    · rw [if_neg ha]
      rfl
  unfold name
  rw [List.append_assoc, unifyConnectors_word d.isIdent.isWord, hmarks, List.append_assoc]

end Declared

/-- The normal form of a line that spells a declaration. -/
theorem normalizeChars_spelled {d : Declared} {line : List Char} (h : Spells d line) :
    ∃ closing, Closing closing ∧
      normalizeChars line = d.name ++ (connector ++ (d.type ++ closing)) := by
  obtain @⟨lead, quals, conn, closing, trail, hl, hq, hc, ht⟩ := h
  obtain ⟨c, rest, hname, hfirst⟩ := d.name_inked.first
  have hfront : ∀ s, (d.name ++ s).dropWhile isBlank = d.name ++ s := by
    intro s
    rw [hname, List.cons_append, List.dropWhile_cons_of_neg (by simp [hfirst])]
  obtain ⟨gap, hgap, hstrip⟩ :=
    stripQualifiers_qualified hq (Declared.unqualified hc ht) (hfront _) hl.isBlank
  have hunify : unifyConnectors (gap ++ (d.name ++ (conn ++ (d.type ++ (closing ++ trail))))) =
      gap ++ (d.name ++ (connector ++ (d.type ++ (closing ++ trail)))) := by
    have hun := Declared.unconnected hc (d.type ++ (closing ++ trail))
    rw [← hfront] at hun
    rw [unifyConnectors_blanks hgap hun, d.unify_name, hc.unify d.isType ht]
  have hinked : Text.Inked (d.name ++ (connector ++ (d.type ++ closing))) :=
    d.name_inked.append (hc.closes.inked d.isType.inked) connector
  refine ⟨closing, hc.closes, ?_⟩
  unfold normalizeChars
  rw [hstrip, hunify]
  have htrim := Text.trim_append hgap hinked ht.isBlank
  simpa only [List.append_assoc] using htrim

end HelpMiner.Signature
