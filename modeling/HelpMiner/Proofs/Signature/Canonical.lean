import HelpMiner.Proofs.Signature.Unified

/-! Normal forms of lines: what they are, and that normalizing keeps them. -/
namespace HelpMiner.Signature

open Text (isWord isBlank)

/-- A line in normal form. -/
structure Canonical (line : List Char) : Prop where
  trimmed : Text.trim line = line
  /-- No word is a qualifier in any letter case. -/
  unqualified : ∀ w ∈ wordsOf line, ∀ q ∈ qualifiers, ¬ InCase q.toList w.toList
  /-- No parenthesis opens before a type. -/
  noOpening : ∀ before gap after, line = before ++ '(' :: (gap ++ after) →
    (∀ c ∈ gap, isBlank c = true) → type? after = none
  /-- The word `as` between blanks before a type has one spelling, in one letter case. -/
  connector : ∀ before lead w gap after, line = before ++ (lead ++ (w ++ (gap ++ after))) →
    (∀ c ∈ lead, isBlank c = true) → lead ≠ [] → InCase ['a', 's'] w →
    (∀ c ∈ gap, isBlank c = true) → gap ≠ [] → type? after ≠ none →
    lead ++ (w ++ gap) = Signature.connector

theorem unqualified_iff_wordsOf {s : List Char} :
    Unqualified false s ↔ ∀ w ∈ wordsOf s, Free w.toList := by
  rw [unqualified_iff]
  constructor
  · intro h w hw
    obtain ⟨t, ht, rfl⟩ := List.mem_map.1 hw
    rw [String.toList_ofList]
    exact h t (List.mem_filter.1 ht).1
  · intro h w hw
    by_cases hne : w = []
    · exact hne ▸ Free.nil
    · have hmem : String.ofList w ∈ wordsOf s :=
        List.mem_map_of_mem (List.mem_filter.2 ⟨hw, by simpa using hne⟩)
      have hfree := h _ hmem
      rwa [String.toList_ofList] at hfree

theorem canonical_iff {s : List Char} :
    Canonical s ↔ Text.trim s = s ∧ Unqualified false s ∧ Unified s := by
  constructor
  · intro h
    refine ⟨h.trimmed, unqualified_iff_wordsOf.2 h.unqualified, ?_⟩
    rintro _ after ⟨front, hs⟩ hlink ht
    cases hlink with
    | @word before w gap hb hbne hw hg hgne =>
      rw [List.append_assoc, List.append_assoc] at hs
      exact h.connector front before w gap after hs.symm hb hbne hw hg hgne
        (Option.isSome_iff_ne_none.1 ht)
    | @opening before gap hb hg =>
      rw [List.append_assoc, List.cons_append, ← List.append_assoc] at hs
      rw [h.noOpening (front ++ before) gap after hs.symm hg] at ht
      cases ht
  · rintro ⟨htrim, hun, hunified⟩
    refine ⟨htrim, unqualified_iff_wordsOf.1 hun, ?_, ?_⟩
    · rintro before gap after rfl hg
      by_contra ht
      have hlink : Link ([] ++ '(' :: gap) := .opening (List.forall_mem_nil _) hg
      have hone := hunified _ after ⟨before, by simp⟩ hlink (Option.isSome_iff_ne_none.2 ht)
      exact absurd (List.cons.inj hone).1 (by decide)
    · rintro before lead w gap after rfl hl hlne hw hg hgne ht
      exact hunified _ after ⟨before, by simp⟩ (.word hl hlne hw hg hgne)
        (Option.isSome_iff_ne_none.2 ht)

theorem canonical_normalizeChars (line : List Char) : Canonical (normalizeChars line) :=
  canonical_iff.2
    ⟨Text.trim_trim _, unqualified_normalizeChars line, (unified_unifyConnectors _).trim⟩

/-- Normalizing leaves a normal form as it is. -/
theorem Canonical.normalizeChars {line : List Char} (h : Canonical line) :
    normalizeChars line = line := by
  obtain ⟨htrim, hun, hunified⟩ := canonical_iff.1 h
  unfold Signature.normalizeChars
  rw [hun.strip, hunified.unify, htrim]

/-- Every line has a normal form, and normalizing it again changes nothing. -/
theorem canonical_normalizeLine (line : String) : Canonical (normalizeLine line).toList ∧
    normalizeLine (normalizeLine line) = normalizeLine line := by
  have hchars : (normalizeLine line).toList = normalizeChars line.toList := String.toList_ofList
  have hcanonical := canonical_normalizeChars line.toList
  refine ⟨hchars ▸ hcanonical, ?_⟩
  change String.ofList (normalizeChars (normalizeLine line).toList) = _
  rw [hchars, hcanonical.normalizeChars]
  rfl

/-- Each pass works on what the one before it leaves. -/
example : normalizeLine "ByVal n (byref  Long )" = "n As Long )" := by decide +kernel

end HelpMiner.Signature
