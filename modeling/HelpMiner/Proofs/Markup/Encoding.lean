import HelpMiner.Proofs.Markup.Reference
import HelpMiner.Proofs.Text.Digit

/-! Decoding undoes every way to write characters, each as it is or by a reference. It changes
nothing else, and it looks no further than a reference can reach. -/
namespace HelpMiner.Markup

/-- The ways to write one character. A number can have zeros in front, up to twelve characters in
all. -/
inductive Encodes : Char → List Char → Prop
  | plain {c : Char} (h : c ≠ '&') : Encodes c [c]
  | named {name : String} {c : Char} (h : (name, c) ∈ entityNames) :
      Encodes c ('&' :: (name.toList ++ [';']))
  | decimal {c : Char} {zeros : Nat} {digits : List Char}
      (hd : digits = List.replicate zeros '0' ++ Nat.toDigits 10 c.toNat)
      (hl : ('&' :: '#' :: (digits ++ [';'])).length ≤ 12) :
      Encodes c ('&' :: '#' :: (digits ++ [';']))
  | hexadecimal {c x : Char} {zeros : Nat} {digits : List Char} (hx : x = 'x' ∨ x = 'X')
      (hd : Text.lower digits = List.replicate zeros '0' ++ Nat.toDigits 16 c.toNat)
      (hl : ('&' :: '#' :: x :: (digits ++ [';'])).length ≤ 12) :
      Encodes c ('&' :: '#' :: x :: (digits ++ [';']))

/-! ## Numbers -/

theorem charOfCode?_toNat (c : Char) : charOfCode? c.toNat = some c := by
  have hvalid : c.toNat.isValidChar := c.valid
  unfold charOfCode?
  rw [if_pos hvalid, Char.ofNat_toNat]

theorem ne_of_digitsFrom? {base acc n : Nat} {s : List Char}
    (h : Text.digitsFrom? base acc s = some n) {d : Char} (hd : Text.digitValue? base d = none) :
    ∀ c ∈ s, c ≠ d := by
  rintro c hc rfl
  obtain ⟨v, hv⟩ := Text.exists_digitValue? h c hc
  rw [hd] at hv
  cases hv

theorem referenced?_decimal {digits : List Char} (hne : digits ≠ []) {n : Nat}
    (h : Text.digitsFrom? 10 0 digits = some n) :
    referenced? ('#' :: digits) = charOfCode? n := by
  have hx := ne_of_digitsFrom? h (d := 'x') (by decide)
  have hX := ne_of_digitsFrom? h (d := 'X') (by decide)
  have hvalue := Text.unsigned?_of_digitsFrom? hne h
  unfold referenced?
  split
  · rename_i hs
    cases hs
    exact absurd rfl (hx 'x' List.mem_cons_self)
  · rename_i hs
    cases hs
    exact absurd rfl (hX 'X' List.mem_cons_self)
  · rename_i hs
    cases hs
    rw [hvalue, Option.bind_some]
  · rename_i hs
    exact absurd rfl (hs digits)

theorem referenced?_hexadecimal {x : Char} (hx : x = 'x' ∨ x = 'X') {digits : List Char}
    (hne : digits ≠ []) {n : Nat} (h : Text.digitsFrom? 16 0 digits = some n) :
    referenced? ('#' :: x :: digits) = charOfCode? n := by
  have hvalue := Text.unsigned?_of_digitsFrom? hne h
  rcases hx with rfl | rfl <;> rw [referenced?, hvalue, Option.bind_some]

section Number

variable {c : Char} {zeros : Nat} {digits : List Char}

theorem decimal_value (h : digits = List.replicate zeros '0' ++ Nat.toDigits 10 c.toNat) :
    digits ≠ [] ∧ Text.digitsFrom? 10 0 digits = some c.toNat := by
  rw [h, Text.digitsFrom?_zeros (by decide), Text.digitsFrom?_toDigits (by decide) (by decide)]
  exact ⟨List.append_ne_nil_of_right_ne_nil _ Nat.toDigits_ne_nil, rfl⟩

theorem hexadecimal_value
    (h : Text.lower digits = List.replicate zeros '0' ++ Nat.toDigits 16 c.toNat) :
    digits ≠ [] ∧ Text.digitsFrom? 16 0 digits = some c.toNat := by
  rw [← Text.digitsFrom?_lower, h, Text.digitsFrom?_zeros (by decide),
    Text.digitsFrom?_toDigits (by decide) (by decide)]
  refine ⟨?_, rfl⟩
  rintro rfl
  exact List.append_ne_nil_of_right_ne_nil _ Nat.toDigits_ne_nil h.symm

end Number

/-! ## Texts with references -/

theorem decodeEntities_body_append {body : List Char} (hs : ∀ c ∈ body, c ≠ ';')
    (hl : ('&' :: (body ++ [';'])).length ≤ 12) {d : Char} (hd : referenced? body = some d)
    (rest : List Char) :
    decodeEntities (('&' :: (body ++ [';'])) ++ rest) = d :: decodeEntities rest := by
  have hshort : body.length < referenceLimit := by
    simp only [List.length_cons, List.length_append, List.length_nil] at hl
    unfold referenceLimit
    omega
  rw [List.cons_append, List.append_assoc]
  exact decodeEntities_body hs hshort hd rest

/-- However a character is written, decoding gives it back and goes on after it. -/
theorem Encodes.decode {c : Char} {piece : List Char} (h : Encodes c piece) (rest : List Char) :
    decodeEntities (piece ++ rest) = c :: decodeEntities rest := by
  cases h with
  | plain hc => exact decodeEntities_cons_of_ne hc rest
  | named he =>
    rw [List.cons_append, List.append_assoc]
    exact decodeEntities_name he rest
  | decimal hd hl =>
    obtain ⟨hne, hvalue⟩ := decimal_value hd
    have hbody := referenced?_decimal hne hvalue
    rw [charOfCode?_toNat] at hbody
    refine decodeEntities_body_append ?_ hl hbody rest
    exact List.forall_mem_cons.2 ⟨by decide, ne_of_digitsFrom? hvalue (by decide)⟩
  | hexadecimal hx hd hl =>
    obtain ⟨hne, hvalue⟩ := hexadecimal_value hd
    have hbody := referenced?_hexadecimal hx hne hvalue
    rw [charOfCode?_toNat] at hbody
    refine decodeEntities_body_append ?_ hl hbody rest
    refine List.forall_mem_cons.2 ⟨by decide, List.forall_mem_cons.2 ⟨?_, ?_⟩⟩
    · rcases hx with rfl | rfl <;> decide
    · exact ne_of_digitsFrom? hvalue (by decide)

theorem decodeEntities_flatten {s : List Char} {pieces : List (List Char)}
    (h : List.Forall₂ Encodes s pieces) : decodeEntities pieces.flatten = s := by
  induction h with
  | nil => exact decodeEntities_nil
  | cons hc _ ih => rw [List.flatten_cons, hc.decode, ih]

/-! ## The reach of references -/

theorem reference?_eq_none {s : List Char} (h : ';' ∉ s.take referenceLimit) :
    reference? s = none := by
  have hall : (s.take referenceLimit).takeWhile (· != ';') = s.take referenceLimit := by
    apply List.takeWhile_eq_self_iff.2
    intro c hc
    have hne : c ≠ ';' := fun he => h (he ▸ hc)
    simpa using hne
  unfold reference?
  simp only [hall, List.length_take]
  rw [if_neg]
  simp only [Bool.and_eq_true, decide_eq_true_eq]
  omega

/-- A text whose ampersands open nothing is decoded to itself. -/
theorem decodeEntities_bare {s : List Char}
    (h : ∀ after, '&' :: after <:+ s → ';' ∉ after.take referenceLimit) :
    decodeEntities s = s := by
  induction s with
  | nil => exact decodeEntities_nil
  | cons c rest ih =>
    have hrest := ih fun after hs => h after (hs.trans (List.suffix_cons c rest))
    by_cases hc : c = '&'
    · subst hc
      have hnone := reference?_eq_none (h rest List.suffix_rfl)
      rw [decodeEntities, hnone, hrest]
      simp
    · rw [decodeEntities_cons_of_ne hc, hrest]

theorem reference?_append {s : List Char} (h : referenceLimit ≤ s.length) (t : List Char) :
    reference? (s ++ t) = reference? s := by
  have htake : (s ++ t).take referenceLimit = s.take referenceLimit :=
    List.take_append_of_le_length h
  have hcond : ∀ n : Nat, (n < referenceLimit && n < (s ++ t).length) =
      (n < referenceLimit && n < s.length) := by
    intro n
    rw [Bool.eq_iff_iff]
    simp only [Bool.and_eq_true, decide_eq_true_eq, List.length_append]
    omega
  unfold reference?
  simp only [htake, hcond]

theorem reference?_le {s : List Char} {d : Char} {n : Nat} (h : reference? s = some (d, n)) :
    n ≤ s.length := by
  unfold reference? at h
  simp only at h
  split at h
  · rename_i hcond
    obtain ⟨c, -, hcn⟩ := Option.map_eq_some_iff.1 h
    simp only [Bool.and_eq_true, decide_eq_true_eq] at hcond
    have hn := (Prod.mk.inj hcn).2
    omega
  · cases h

/-- A text is decoded apart from what follows it if no reference that it opens can run over its
end. -/
theorem decodeEntities_append {a : List Char}
    (h : ∀ after, '&' :: after <:+ a → referenceLimit ≤ after.length) (b : List Char) :
    decodeEntities (a ++ b) = decodeEntities a ++ decodeEntities b := by
  -- A reference takes up several characters at once, so the induction is on the length, for the
  -- suffixes of the text.
  induction hn : a.length using Nat.strong_induction_on generalizing a with
  | _ n ih =>
    subst hn
    cases a with
    | nil =>
      rw [decodeEntities_nil]
      rfl
    | cons c rest =>
      have hsuffix : ∀ t, t <:+ rest →
          decodeEntities (t ++ b) = decodeEntities t ++ decodeEntities b := by
        intro t ht
        have hta : t <:+ c :: rest := ht.trans (List.suffix_cons c rest)
        exact ih t.length (Nat.lt_succ_of_le ht.length_le) (fun after hs => h after (hs.trans hta))
          rfl
      by_cases hc : c = '&'
      · subst hc
        have hsame := reference?_append (h rest List.suffix_rfl) b
        rw [List.cons_append]
        cases href : reference? rest with
        | none =>
          have hrest := hsuffix rest List.suffix_rfl
          rw [decodeEntities, decodeEntities, hsame, href]
          simp [hrest]
        | some found =>
          obtain ⟨d, n⟩ := found
          have hdrop := hsuffix (rest.drop n) (List.drop_suffix n rest)
          rw [decodeEntities_reference href, decodeEntities_reference (hsame.trans href),
            List.drop_append_of_le_length (reference?_le href), hdrop]
          rfl
      · rw [List.cons_append, decodeEntities_cons_of_ne hc, decodeEntities_cons_of_ne hc,
          hsuffix rest List.suffix_rfl]
        rfl

theorem length_of_not_mem_rtake {a after : List Char} {c : Char} {n : Nat} (h : c ∉ a.rtake n)
    (ha : c :: after <:+ a) : n ≤ after.length := by
  obtain ⟨before, rfl⟩ := ha
  by_contra hlt
  have hcut : (before ++ c :: after).length - n ≤ before.length := by
    rw [List.length_append, List.length_cons]
    omega
  apply h
  rw [List.rtake, List.drop_append_of_le_length hcut]
  exact List.mem_append_right _ List.mem_cons_self

/-- Decoding undoes every way to write the characters of a text. An ampersand without a semicolon
within reach is kept, and texts are decoded apart where no reference runs from one to the other. -/
theorem decodeEntities_laws :
    (∀ (s : List Char) (pieces : List (List Char)), List.Forall₂ Encodes s pieces →
      decodeEntities pieces.flatten = s) ∧
    (∀ s : List Char, (∀ after, '&' :: after <:+ s → ';' ∉ after.take 11) →
      decodeEntities s = s) ∧
    ∀ a b : List Char, '&' ∉ a.rtake 11 →
      decodeEntities (a ++ b) = decodeEntities a ++ decodeEntities b := by
  refine ⟨?_, ?_, ?_⟩
  · exact fun s pieces h => decodeEntities_flatten h
  · exact fun s h => decodeEntities_bare h
  · exact fun a b h => decodeEntities_append (fun _ => length_of_not_mem_rtake h) b

/-- Numbers as long as they can be, a name, an ampersand whose semicolon comes one character too
late, and an ampersand just outside of the last eleven characters. -/
theorem decodeEntities_laws_reach :
    decodeEntities "&#x0000003D;&#000000038;&lt;=".toList = "=&<=".toList ∧
    decodeEntities "R &D 123456789;".toList = "R &D 123456789;".toList ∧
    decodeEntities ("&lt;12345678".toList ++ "&gt;".toList) = "<12345678>".toList := by
  obtain ⟨hwritten, hbare, happend⟩ := decodeEntities_laws
  refine ⟨?_, ?_, ?_⟩
  · refine hwritten _ ["&#x0000003D;".toList, "&#000000038;".toList, "&lt;".toList, "=".toList] ?_
    refine .cons ?_ (.cons ?_ (.cons ?_ (.cons ?_ .nil)))
    · exact @Encodes.hexadecimal '=' 'x' 6 "0000003D".toList (.inl rfl) (by decide) (by decide)
    · exact @Encodes.decimal '&' 7 "000000038".toList (by decide) (by decide)
    · exact @Encodes.named "lt" '<' (by decide)
    · exact .plain (by decide)
  · have hreach : ∀ t ∈ "R &D 123456789;".toList.tails,
        t.head? = some '&' → ';' ∉ t.tail.take 11 := by decide
    exact hbare _ fun after h => hreach _ ((List.mem_tails _ _).2 h) rfl
  · rw [happend _ _ (by decide)]
    decide +kernel

end HelpMiner.Markup
