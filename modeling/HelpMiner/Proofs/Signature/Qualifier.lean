import HelpMiner.Proofs.Signature.TypeName

/-! Qualifiers as words of a line. Stripping takes them away and leaves text without them as it
is. -/
namespace HelpMiner.Signature

open Text (isWord isBlank)

theorem qualifier_isWord : ∀ q ∈ qualifiers, ∀ l ∈ q.toList, isWord l = true := by
  have h : ∀ q ∈ qualifiers, q.toList.all Char.isAlpha = true := by decide
  intro q hq l hl
  exact isWord_of_isAlpha (List.all_eq_true.1 (h q hq) l hl)

theorem qualifier_plain : ∀ q ∈ qualifiers, 'ſ' ∉ q.toList := by decide

/-- A qualifier is known by its letters, since no qualifier begins another. -/
theorem qualifier_length : ∀ p ∈ qualifiers, ∀ q ∈ qualifiers,
    p.toList.length = q.toList.length := by decide

/-! ## Where a qualifier is found -/

theorem dropWhile_word {t : List Char} (ht : ∀ c ∈ t, isWord c = true) (hne : t ≠ [])
    (s : List Char) : (t ++ s).dropWhile isBlank = t ++ s := by
  cases t with
  | nil => exact absurd rfl hne
  | cons c t =>
    have hc := isBlank_of_isWord (ht c List.mem_cons_self)
    rw [List.cons_append, List.dropWhile_cons_of_neg (by simp [hc])]

theorem afterQualifier?_blanks {blanks : List Char} (hb : ∀ c ∈ blanks, isBlank c = true)
    (s : List Char) : afterQualifier? false (blanks ++ s) = afterQualifier? false s := by
  unfold afterQualifier?
  rw [List.dropWhile_append_of_pos hb]
  rfl

/-- Within a word no qualifier is found. -/
theorem afterQualifier?_inWord {c : Char} (hc : isBlank c = false) (s : List Char) :
    afterQualifier? true (c :: s) = none := by
  unfold afterQualifier?
  rw [if_pos (by simp [hc])]

/-- A qualifier that ends a word is found with the blanks after it. -/
theorem afterQualifier?_qualifier {q : String} (hq : q ∈ qualifiers) {w after : List Char}
    (hw : InCase q.toList w) (ha : atWordEnd after = true) :
    afterQualifier? false (w ++ after) = some (after.dropWhile isBlank) := by
  have hfound : (qualifiers.findSome? fun p => afterWord? p.toList (w ++ after)) = some after := by
    cases hf : qualifiers.findSome? fun p => afterWord? p.toList (w ++ after) with
    | none =>
      have hn := List.findSome?_eq_none_iff.1 hf q hq
      rw [afterWord?_append (qualifier_plain q hq) hw] at hn
      cases hn
    | some rest =>
      obtain ⟨p, hp, hr⟩ := List.exists_of_findSome?_eq_some hf
      obtain ⟨u, hs, hu⟩ := exists_of_afterWord? (qualifier_plain p hp) hr
      have hlen : w.length = u.length := by rw [hw.length, hu.length, qualifier_length q hq p hp]
      rw [(List.append_inj hs hlen).2]
  have hwne := hw.ne_nil (List.ne_nil_of_length_pos (qualifier_length_pos q hq))
  unfold afterQualifier?
  rw [dropWhile_word (hw.isWord (qualifier_isWord q hq)) hwne, Bool.false_and,
    if_neg Bool.false_ne_true, hfound]
  exact if_pos ha

/-! ## Words -/

/-- The stretches of word characters of a text, one more than it has other characters. -/
def stretches (s : List Char) : List (List Char) := Text.cutWhere (fun c => !isWord c) s

theorem stretches_mark {c : Char} (hc : isWord c = false) (s : List Char) :
    stretches (c :: s) = [] :: stretches s :=
  Text.cutWhere_cons_of_pos (by simp [hc]) s

theorem stretches_word {c : Char} (hc : isWord c = true) (s : List Char) :
    stretches (c :: s) = (c :: (stretches s).headD []) :: (stretches s).tail :=
  Text.cutWhere_cons_of_neg (by simp [hc]) s

theorem stretches_eq (s : List Char) :
    stretches s = s.takeWhile isWord :: (stretches s).tail := by
  induction s with
  | nil => rfl
  | cons c s ih =>
    by_cases hc : isWord c = true
    · rw [stretches_word hc, List.takeWhile_cons_of_pos hc, List.tail_cons]
      rw [ih, List.headD_cons, List.tail_cons]
    · rw [stretches_mark (Bool.eq_false_of_not_eq_true hc), List.takeWhile_cons_of_neg hc,
        List.tail_cons]

/-- A word that is no qualifier in any letter case. -/
def Free (w : List Char) : Prop := ∀ q ∈ qualifiers, ¬ InCase q.toList w

theorem Free.nil : Free [] := by
  have hne : ∀ q ∈ qualifiers, ¬ InCase q.toList [] := by decide
  exact hne

/-- No word of the text is a qualifier. Where a word goes on at the front, its rest may be one. -/
structure Unqualified (inWord : Bool) (s : List Char) : Prop where
  first : inWord = false → Free (s.takeWhile isWord)
  others : ∀ w ∈ (stretches s).tail, Free w

theorem Unqualified.nil (inWord : Bool) : Unqualified inWord [] where
  first := fun _ => Free.nil
  others := List.forall_mem_nil _

theorem unqualified_iff {s : List Char} : Unqualified false s ↔ ∀ w ∈ stretches s, Free w := by
  rw [stretches_eq, List.forall_mem_cons]
  exact ⟨fun h => ⟨h.first rfl, h.others⟩, fun h => ⟨fun _ => h.1, h.2⟩⟩

theorem unqualified_mark {c : Char} (hc : isWord c = false) {inWord : Bool} {s : List Char} :
    Unqualified inWord (c :: s) ↔ Unqualified false s := by
  have hfirst : (c :: s).takeWhile isWord = [] := List.takeWhile_cons_of_neg (by simp [hc])
  rw [unqualified_iff]
  constructor
  · intro h
    have hothers := h.others
    rwa [stretches_mark hc] at hothers
  · intro h
    refine ⟨fun _ => hfirst ▸ Free.nil, ?_⟩
    rwa [stretches_mark hc]

theorem unqualified_word {t : List Char} (ht : ∀ c ∈ t, isWord c = true) {inWord : Bool}
    {s : List Char} : Unqualified inWord (t ++ s) ↔
      (inWord = false → Free (t ++ s.takeWhile isWord)) ∧ ∀ w ∈ (stretches s).tail, Free w := by
  have hfirst : (t ++ s).takeWhile isWord = t ++ s.takeWhile isWord :=
    List.takeWhile_append_of_pos ht
  have htail : (stretches (t ++ s)).tail = (stretches s).tail := by
    clear hfirst
    induction t with
    | nil => rfl
    | cons c t ih =>
      rw [List.cons_append, stretches_word (ht c List.mem_cons_self), List.tail_cons]
      exact ih fun d hd => ht d (List.mem_cons_of_mem c hd)
  constructor
  · intro h
    exact ⟨fun hb => hfirst ▸ h.first hb, htail ▸ h.others⟩
  · intro h
    exact ⟨fun hb => hfirst.symm ▸ h.1 hb, htail.symm ▸ h.2⟩

theorem unqualified_cons {c : Char} (hc : isWord c = true) {inWord : Bool} {s : List Char} :
    Unqualified inWord (c :: s) ↔
      (inWord = false → Free (c :: s.takeWhile isWord)) ∧ Unqualified true s := by
  have hall : ∀ d ∈ [c], isWord d = true := fun d hd => List.mem_singleton.1 hd ▸ hc
  have hrest : Unqualified true s ↔ ∀ w ∈ (stretches s).tail, Free w :=
    ⟨fun h => h.others, fun h => ⟨Bool.noConfusion, h⟩⟩
  rw [hrest]
  exact unqualified_word hall

theorem unqualified_blanks {lead s : List Char} (hl : ∀ c ∈ lead, isBlank c = true) :
    Unqualified false (lead ++ s) ↔ Unqualified false s := by
  induction lead with
  | nil => rfl
  | cons c lead ih =>
    have hc := Text.isWord_of_isBlank (hl c List.mem_cons_self)
    rw [List.cons_append, unqualified_mark hc]
    exact ih fun d hd => hl d (List.mem_cons_of_mem c hd)

/-- A word that is no qualifier can be put before other text. -/
theorem Unqualified.word {s : List Char} (h : Unqualified false s) {t : List Char}
    (ht : ∀ c ∈ t, isWord c = true) (hs : atWordEnd s = true) (hfree : Free t) :
    Unqualified false (t ++ s) := by
  have hnone : s.takeWhile isWord = [] := takeWhile_word (t := []) (List.forall_mem_nil _) hs
  refine (unqualified_word ht).2 ⟨fun _ => ?_, h.others⟩
  rwa [hnone, List.append_nil]

theorem Unqualified.dropBlanks {s : List Char} (h : Unqualified false s) :
    Unqualified false (s.dropWhile isBlank) := by
  rw [← List.takeWhile_append_dropWhile (p := isBlank) (l := s)] at h
  exact (unqualified_blanks fun _ => List.mem_takeWhile_imp).1 h

/-! ## Stripping -/

theorem stripQualifiers_found {inWord : Bool} {s rest : List Char}
    (h : afterQualifier? inWord s = some rest) :
    stripQualifiers inWord s = ' ' :: stripQualifiers false rest := by
  rw [stripQualifiers]
  split
  · rename_i r hr
    rw [h] at hr
    cases hr
    rfl
  · rename_i hr
    rw [h] at hr
    cases hr

theorem not_unqualified_of_afterQualifier? {inWord : Bool} {s rest : List Char}
    (h : afterQualifier? inWord s = some rest) : ¬ Unqualified inWord s := by
  intro hs
  unfold afterQualifier? at h
  split at h
  · cases h
  · rename_i hgap
    split at h
    · rename_i after hq
      split at h
      · rename_i hend
        obtain ⟨q, hq, hw⟩ := List.exists_of_findSome?_eq_some hq
        obtain ⟨w, hdrop, hw⟩ := exists_of_afterWord? (qualifier_plain q hq) hw
        -- The qualifier is at the front, or blanks set it apart from what is before.
        have hfront : Unqualified false (s.dropWhile isBlank) := by
          cases s with
          | nil => exact Unqualified.nil false
          | cons c s =>
            by_cases hc : isBlank c = true
            · rw [List.dropWhile_cons_of_pos hc]
              exact ((unqualified_mark (Text.isWord_of_isBlank hc)).1 hs).dropBlanks
            · have hfalse : inWord = false := by simpa [hc] using hgap
              rw [hfalse] at hs
              exact hs.dropBlanks
        have hfree := hfront.first rfl
        rw [hdrop, takeWhile_word (hw.isWord (qualifier_isWord q hq)) hend] at hfree
        exact hfree q hq hw
      · cases h
    · cases h

/-- There is nothing to strip where no word is a qualifier. -/
theorem Unqualified.strip {inWord : Bool} {s : List Char} (h : Unqualified inWord s) :
    stripQualifiers inWord s = s := by
  fun_induction stripQualifiers inWord s with
  | case1 inWord s rest hfound ih => exact absurd h (not_unqualified_of_afterQualifier? hfound)
  | case2 => rfl
  | case3 inWord c rest hnone ih =>
    congr 1
    by_cases hc : isWord c = true
    · rw [hc] at ih ⊢
      exact ih ((unqualified_cons hc).1 h).2
    · have hc := Bool.eq_false_of_not_eq_true hc
      rw [hc] at ih ⊢
      exact ih ((unqualified_mark hc).1 h)

/-- Stripping leaves blanks in the place of the qualifiers. -/
theorem stripQualifiers_qualified {quals : List Char} (hquals : Qualified quals)
    {body : List Char} (hbody : Unqualified false body) (hfront : body.dropWhile isBlank = body)
    {lead : List Char} (hl : ∀ c ∈ lead, isBlank c = true) :
    ∃ gap, (∀ c ∈ gap, isBlank c = true) ∧
      stripQualifiers false (lead ++ (quals ++ body)) = gap ++ body := by
  induction hquals generalizing lead with
  | nil => exact ⟨lead, hl, ((unqualified_blanks hl).2 hbody).strip⟩
  | @cons q w blanks more hq hw hb hne hm ih =>
    have hmore : (more ++ body).dropWhile isBlank = more ++ body := by
      cases hm with
      | nil => exact hfront
      | @cons p v _ _ hp hv _ _ _ =>
        have hvne := hv.ne_nil (List.ne_nil_of_length_pos (qualifier_length_pos p hp))
        rw [List.append_assoc, dropWhile_word (hv.isWord (qualifier_isWord p hp)) hvne]
    have hfound : afterQualifier? false (lead ++ (w ++ (blanks ++ more) ++ body)) =
        some (more ++ body) := by
      rw [afterQualifier?_blanks hl, List.append_assoc, List.append_assoc,
        afterQualifier?_qualifier hq hw (atWordEnd_blanks hb hne _),
        List.dropWhile_append_of_pos fun c hc => (hb c hc).1, hmore]
    have hnone : ∀ c ∈ ([] : List Char), isBlank c = true := by simp
    obtain ⟨gap, hgap, hstrip⟩ := ih hnone
    -- The blanks before a qualifier go with it: the rest is stripped without any before it.
    refine ⟨' ' :: gap, ?_, ?_⟩
    · intro c hc
      obtain rfl | hc := List.mem_cons.1 hc
      · decide
      · exact hgap c hc
    · rw [stripQualifiers_found hfound]
      exact congrArg (List.cons ' ') hstrip

end HelpMiner.Signature
