import HelpMiner.Text.Digit
import HelpMiner.Proofs.Text.Letter

/-! Digits of a number are read as the number, after zeros and in any letter case too. -/
namespace HelpMiner.Text

theorem digitValue?_digitChar :
    ∀ base ≤ 16, ∀ d < base, digitValue? base (Nat.digitChar d) = some d := by decide

theorem isDigit_of_mem_toDigits {n : Nat} : ∀ c ∈ Nat.toDigits 10 n, c.isDigit = true :=
  fun _ hc => Nat.isDigit_of_mem_toDigits (by decide) (by decide) hc

theorem digitsFrom?_append (base acc : Nat) (s t : List Char) :
    digitsFrom? base acc (s ++ t) = (digitsFrom? base acc s).bind fun n => digitsFrom? base n t := by
  induction s generalizing acc with
  | nil => rfl
  | cons c s ih =>
    rw [List.cons_append, digitsFrom?, digitsFrom?, Option.bind_assoc]
    simp only [ih]

/-- The digits of a number stand for it. -/
theorem digitsFrom?_toDigits {base : Nat} (hlow : 1 < base) (hhigh : base ≤ 16) (n : Nat) :
    digitsFrom? base 0 (Nat.toDigits base n) = some n := by
  induction n using Nat.strong_induction_on with
  | _ n ih =>
    rcases Nat.lt_or_ge n base with hn | hn
    · rw [Nat.toDigits_of_lt_base hn, digitsFrom?, digitValue?_digitChar base hhigh n hn]
      simp [digitsFrom?]
    · have hlast := digitValue?_digitChar base hhigh (n % base) (Nat.mod_lt n (by omega))
      have hfront := ih (n / base) (Nat.div_lt_self (by omega) hlow)
      calc digitsFrom? base 0 (Nat.toDigits base n)
          = digitsFrom? base (n / base) [(n % base).digitChar] := by
            rw [Nat.toDigits_of_base_le hlow hn, digitsFrom?_append, hfront, Option.bind_some]
        _ = some (n / base * base + n % base) := by
            rw [digitsFrom?, hlast, Option.bind_some, digitsFrom?]
        _ = some n := by rw [Nat.mul_comm, Nat.div_add_mod]

/-- Decimal digits stand for their number. -/
theorem digitsFrom?_decimal {s : List Char} (h : ∀ c ∈ s, c.isDigit = true) (acc : Nat) :
    digitsFrom? 10 acc s = some (Nat.ofDigitChars 10 s acc) := by
  induction s generalizing acc with
  | nil => rfl
  | cons c s ih =>
    obtain ⟨hc, hs⟩ := List.forall_mem_cons.1 h
    have hvalue : digitValue? 10 c = some (c.toNat - '0'.toNat) := by
      have hrange : 48 ≤ c.toNat ∧ c.toNat ≤ 57 := Char.isDigit_iff_toNat.1 hc
      have hlt : c.toNat - 48 < 10 := by omega
      unfold digitValue?
      rw [if_pos hc]
      exact Option.filter_eq_some_iff.2 ⟨rfl, decide_eq_true hlt⟩
    rw [digitsFrom?, hvalue, Option.bind_some, ih hs, Nat.ofDigitChars_cons, Nat.mul_comm]

theorem isDigit_of_digitValue? {c : Char} {v : Nat} (h : digitValue? 10 c = some v) :
    c.isDigit = true := by
  obtain ⟨hv, hlt⟩ := Option.filter_eq_some_iff.1 h
  have hlt := of_decide_eq_true hlt
  by_contra hc
  rw [if_neg hc] at hv
  split at hv
  · obtain rfl := Option.some.inj hv
    omega
  · split at hv
    · obtain rfl := Option.some.inj hv
      omega
    · cases hv

theorem digitsFrom?_zeros {base : Nat} (hbase : 0 < base) (zeros : Nat) (s : List Char) :
    digitsFrom? base 0 (List.replicate zeros '0' ++ s) = digitsFrom? base 0 s := by
  have hzero : digitValue? base '0' = some 0 := by
    unfold digitValue?
    exact Option.filter_eq_some_iff.2 ⟨rfl, decide_eq_true hbase⟩
  induction zeros with
  | zero => rfl
  | succ zeros ih =>
    rw [List.replicate_succ, List.cons_append, digitsFrom?, hzero, Option.bind_some,
      Nat.zero_mul, ih]

/-- What has a value consists of digits. -/
theorem exists_digitValue? {base acc n : Nat} {s : List Char} (h : digitsFrom? base acc s = some n) :
    ∀ c ∈ s, ∃ v, digitValue? base c = some v := by
  induction s generalizing acc with
  | nil => simp
  | cons c s ih =>
    obtain ⟨v, hv, hrest⟩ := Option.bind_eq_some_iff.1 h
    exact List.forall_mem_cons.2 ⟨⟨v, hv⟩, ih hrest⟩

theorem unsigned?_of_digitsFrom? {base n : Nat} {s : List Char} (hs : s ≠ [])
    (h : digitsFrom? base 0 s = some n) : unsigned? base s = some n := by
  unfold unsigned?
  split
  · obtain ⟨v, hv⟩ := exists_digitValue? h '+' List.mem_cons_self
    cases hv
  · rw [if_neg (by simpa using hs), h]

/-- Letter case does not count in digits. -/
theorem digitValue?_toLower (c : Char) : digitValue? 16 c.toLower = digitValue? 16 c := by
  have hupper : ∀ n < 26,
      digitValue? 16 (Char.ofNat (n + 65)).toLower = digitValue? 16 (Char.ofNat (n + 65)) := by
    decide
  by_cases hc : c.isUpper = true
  · have hrange : 65 ≤ c.toNat ∧ c.toNat ≤ 90 := of_decide_eq_true hc
    obtain ⟨hlow, hhigh⟩ := hrange
    have h := hupper (c.toNat - 65) (by omega)
    rwa [Nat.sub_add_cancel hlow, Char.ofNat_toNat] at h
  · rw [Char.toLower_eq_of_not_isUpper hc]

theorem digitsFrom?_lower (acc : Nat) (s : List Char) :
    digitsFrom? 16 acc (lower s) = digitsFrom? 16 acc s := by
  induction s generalizing acc with
  | nil => rfl
  | cons c s ih =>
    have hcons : lower (c :: s) = c.toLower :: lower s := rfl
    rw [hcons, digitsFrom?, digitsFrom?, digitValue?_toLower]
    simp only [ih]

/-- Only zero has a zero for its first digit. -/
theorem exists_toDigits_eq_cons (n : Nat) :
    ∃ c ds, Nat.toDigits 10 n = c :: ds ∧ c.isDigit = true ∧ (c = '0' → n = 0 ∧ ds = []) := by
  have hzero : ∀ d < 10, Nat.digitChar d = '0' → d = 0 := by decide
  induction n using Nat.strong_induction_on with
  | _ n ih =>
    rcases Nat.lt_or_ge n 10 with hn | hn
    · refine ⟨n.digitChar, [], Nat.toDigits_of_lt_base hn, ?_, ?_⟩
      · rw [Nat.isDigit_digitChar]
        exact decide_eq_true hn
      · exact fun h => ⟨hzero n hn h, rfl⟩
    · obtain ⟨c, ds, hds, hc, hfront⟩ := ih (n / 10) (by omega)
      refine ⟨c, ds ++ [(n % 10).digitChar], ?_, hc, ?_⟩
      · rw [Nat.toDigits_of_base_le (by decide) hn, hds, List.cons_append]
      · intro h
        have h := (hfront h).1
        omega

theorem digitValue?_toUpper_digitChar :
    ∀ d < 16, digitValue? 16 (Nat.digitChar d).toUpper = some d := by decide

end HelpMiner.Text
