import HelpMiner.Document.Json.Number
import HelpMiner.Document.Json.Text
import HelpMiner.Document.Json.Writer
import HelpMiner.Proofs.Text.Digit

/-! JSON strings and numbers are read as they are written. -/
namespace HelpMiner.Document.Json

/-! ## Strings -/

theorem utf8Size_hexDigit : ∀ d < 16, (hexDigit d).utf8Size = 1 := by decide

/-- The number of a control character in four digits. -/
theorem hex4_control {n : Nat} (hn : n < 32) (rest : List Char) :
    hex4 ('0' :: '0' :: hexDigit (n / 16) :: hexDigit (n % 16) :: rest) = .ok n := by
  have hq : n / 16 < 16 := by omega
  have hr : n % 16 < 16 := by omega
  have hvalue : Text.digitsFrom? 16 0 ['0', '0', hexDigit (n / 16), hexDigit (n % 16)] =
      some n := by
    have h0 : Text.digitValue? 16 '0' = some 0 := by decide
    have hfirst := Text.digitValue?_digitChar 16 (Nat.le_refl _) _ hq
    have hlast := Text.digitValue?_digitChar 16 (Nat.le_refl _) _ hr
    simp only [Text.digitsFrom?, h0, hexDigit, hfirst, hlast, Option.bind_some]
    congr 1
    omega
  have hsize : ¬ ['0', '0', hexDigit (n / 16), hexDigit (n % 16)].foldl
      (fun n c => n + c.utf8Size) 0 < 4 := by
    simp [utf8Size_hexDigit _ hq, utf8Size_hexDigit _ hr, show '0'.utf8Size = 1 from rfl]
  simp only [hex4, List.take_succ_cons, List.take_zero, if_neg hsize, hvalue]

theorem escaped_control {c : Char} (hc : c.toNat < 32) (rest : List Char) :
    escaped ('u' :: '0' :: '0' :: hexDigit (c.toNat / 16) :: hexDigit (c.toNat % 16) :: rest) =
      .ok (c, 5) := by
  have hhigh : isHighSurrogate c.toNat = false := by
    unfold isHighSurrogate
    rw [Bool.and_eq_false_iff]
    exact Or.inl (decide_eq_false (by omega))
  have hlow : isLowSurrogate c.toNat = false := by
    unfold isLowSurrogate
    rw [Bool.and_eq_false_iff]
    exact Or.inl (decide_eq_false (by omega))
  have hescape : unicodeEscape
      ('0' :: '0' :: hexDigit (c.toNat / 16) :: hexDigit (c.toNat % 16) :: rest) = .ok (c, 4) := by
    unfold unicodeEscape
    rw [hex4_control hc]
    simp [hhigh, hlow, bind, Except.bind, Char.ofNat_toNat]
  simp [escaped, hescape, Except.map]

theorem stringBody_of_escaped {s : List Char} {c : Char} {n : Nat} (h : escaped s = .ok (c, n)) :
    stringBody ('\\' :: s) = (stringBody (s.drop n)).map fun r => (c :: r.1, r.2) := by
  rw [stringBody]
  simp [h]

theorem stringBody_letter {letter c : Char} (hu : (letter == 'u') = false)
    (h : letterEscape? letter = some c) (rest : List Char) :
    stringBody (['\\', letter] ++ rest) = (stringBody rest).map fun r => (c :: r.1, r.2) := by
  have hescape : escaped (letter :: rest) = .ok (c, 1) := by
    rw [escaped, if_neg (by rw [hu]; decide), h]
  exact stringBody_of_escaped hescape

/-- A character is read back from what is written for it. -/
theorem stringBody_escape (c : Char) (rest : List Char) :
    stringBody (escape c ++ rest) = (stringBody rest).map fun r => (c :: r.1, r.2) := by
  unfold escape
  split
  case h_8 hquote hslash _ _ _ _ _ =>
    split
    · rename_i hc
      exact stringBody_of_escaped (escaped_control hc rest)
    · rename_i hc
      rw [List.singleton_append, stringBody]
      simp [hc, show c ≠ '"' from hquote, show c ≠ '\\' from hslash]
  all_goals exact stringBody_letter rfl rfl rest

theorem stringBody_flatMap_escape (s rest : List Char) :
    stringBody (s.flatMap escape ++ '"' :: rest) = .ok (s, rest) := by
  induction s with
  | nil => rw [List.flatMap_nil, List.nil_append, stringBody, if_pos (beq_self_eq_true _)]
  | cons c s ih => rw [List.flatMap_cons, List.append_assoc, stringBody_escape, ih]; rfl

/-- A string is read as its text. -/
theorem stringBody_string (s : String) (rest : List Char) :
    string s ++ rest = '"' :: (s.toList.flatMap escape ++ '"' :: rest) ∧
      stringBody (s.toList.flatMap escape ++ '"' :: rest) = .ok (s.toList, rest) :=
  ⟨by simp [string], stringBody_flatMap_escape _ _⟩

/-! ## Numbers -/

/-- A comma or a line break: what follows a value inside a list or a map, and the document. -/
def Followed (rest : List Char) : Prop := ∃ c more, rest = c :: more ∧ (c = ',' ∨ c = '\n')

theorem le_ofDigitChars (ds : List Char) (n : Nat) : n ≤ Nat.ofDigitChars 10 ds n := by
  rw [Nat.ofDigitChars_eq_ofDigitChars_zero]
  have h := Nat.le_mul_of_pos_left n (Nat.pow_pos (by decide : 0 < 10) : 0 < 10 ^ ds.length)
  omega

theorem significand_append {ds : List Char} (hds : ∀ c ∈ ds, c.isDigit = true) {acc : Nat}
    (hlt : Nat.ofDigitChars 10 ds acc < Nat.pow 2 64) {rest : List Char} (hrest : Followed rest) :
    significand acc (ds ++ rest) = (Nat.ofDigitChars 10 ds acc, rest) := by
  induction ds generalizing acc with
  | nil =>
    obtain ⟨c, more, rfl, rfl | rfl⟩ := hrest <;> rfl
  | cons c ds ih =>
    rw [List.forall_mem_cons] at hds
    rw [Nat.ofDigitChars_cons] at hlt ⊢
    have hstep : acc * 10 + (c.toNat - '0'.toNat) = 10 * acc + (c.toNat - '0'.toNat) := by omega
    have hsmall : 10 * acc + (c.toNat - '0'.toNat) < Nat.pow 2 64 :=
      Nat.lt_of_le_of_lt (le_ofDigitChars ds _) hlt
    rw [List.cons_append, significand, if_pos hds.1, hstep]
    rw [if_pos hsmall, ih hds.2 hlt]

theorem afterWhole_of_followed (n : Nat) {rest : List Char} (hrest : Followed rest) :
    afterWhole false n rest = .ok (.unsigned n, rest) := by
  obtain ⟨c, more, rfl, rfl | rfl⟩ := hrest <;> rfl

/-- A number below 2^64 is read from its decimal digits. -/
theorem number_toDigits {n : Nat} (hn : n < Nat.pow 2 64) {rest : List Char}
    (hrest : Followed rest) :
    number false (Nat.toDigits 10 n ++ rest) = .ok (.unsigned n, rest) := by
  obtain ⟨c, ds, hds, hc, hzero⟩ := Text.exists_toDigits_eq_cons n
  by_cases h0 : c = '0'
  · obtain ⟨rfl, rfl⟩ := hzero h0
    obtain ⟨c, more, rfl, rfl | rfl⟩ := hrest <;> rfl
  · have hvalue : Nat.ofDigitChars 10 (Nat.toDigits 10 n) 0 = n := Nat.ofDigitChars_ten_toDigits
    have hsig := @significand_append _ Text.isDigit_of_mem_toDigits 0 (hvalue.symm ▸ hn) _ hrest
    rw [hvalue, hds, List.cons_append] at hsig
    rw [hds, List.cons_append]
    unfold number
    split
    · contradiction
    · rename_i heq
      exact absurd (List.cons.inj heq).1 h0
    · rename_i heq
      obtain ⟨rfl, rfl⟩ := List.cons.inj heq
      rw [if_pos hc, hsig]
      exact afterWhole_of_followed n hrest

end HelpMiner.Document.Json
