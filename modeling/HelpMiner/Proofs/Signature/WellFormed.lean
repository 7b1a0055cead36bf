import HelpMiner.Proofs.Command.Issue
import HelpMiner.Proofs.Signature.Inference

/-! Every inferred entry is well formed, whatever the documentation says. -/
namespace HelpMiner

/-- A part of a declaration: text on one line, without blank edges and periods. -/
structure IsPart (s : String) : Prop where
  ne_empty : s ≠ ""
  trimmed : Text.trim s.toList = s.toList
  no_period : '.' ∉ s.toList
  no_newline : '\n' ∉ s.toList

/-- A parameter whose type begins as types do. -/
structure Param.WellFormed (p : Param) : Prop where
  name : IsPart p.name
  type : IsPart p.type
  typeText : Signature.TypeText p.type.toList

/-- An entry with well-formed parameters, which binds what it returns only as a function. -/
structure Entry.WellFormed (e : Entry) : Prop where
  params : ∀ p ∈ e.params, p.WellFormed
  returns_length : e.returns.length ≤ 2
  returns_kind : e.returns ≠ [] → e.kind = .function
  returns : ∀ part ∈ e.returns, part ≠ "" ∧ '.' ∉ part.toList ∧ '\n' ∉ part.toList

theorem IsPart.of_inked {s : String} (hs : Text.Inked s.toList) (hp : '.' ∉ s.toList)
    (hn : '\n' ∉ s.toList) : IsPart s where
  ne_empty := by
    rintro rfl
    obtain ⟨c, rest, hc, -⟩ := hs.first
    cases hc
  trimmed := Text.trim_inked hs
  no_period := hp
  no_newline := hn

theorem IsPart.inked {s : String} (h : IsPart s) : Text.Inked s.toList := by
  have hne : Text.trim s.toList ≠ [] := by
    rw [h.trimmed, Ne, String.toList_eq_nil_iff]
    exact h.ne_empty
  exact h.trimmed ▸ Text.inked_trim hne

theorem Param.WellFormed.not_blank {p : Param} (h : p.WellFormed) : p.isBlank = false := by
  unfold Param.isBlank
  rw [isBlankText_of_inked h.name.inked, isBlankText_of_inked h.type.inked]
  rfl

section Issues

variable {e : Entry} (h : e.WellFormed) {command other : String} {limit : Nat}
include h

theorem Entry.WellFormed.not_emptyParameter {position : Nat} :
    .emptyParameter other position ∉ e.check command limit := by
  intro hm
  obtain ⟨p, hp, hb⟩ := Entry.exists_of_emptyParameter_mem hm
  rw [(h.params p hp).not_blank] at hb
  cases hb

theorem Entry.WellFormed.not_malformedReturns {length : Nat} :
    .malformedReturns other length ∉ e.check command limit := by
  intro hm
  exact absurd h.returns_length (Nat.not_le.2 (Entry.lt_of_malformedReturns_mem hm))

end Issues

namespace Signature

/-! ## Declarations -/

/-- A reserved name takes an underscore, and every other name stays. -/
theorem cleanName_cases (name : List Char) :
    cleanName name = name ∨ isReserved name = true ∧ cleanName name = name ++ ['_'] := by
  unfold cleanName
  by_cases h : isReserved name = true
  · exact .inr ⟨h, if_pos h⟩
  · exact .inl (if_neg h)

theorem cleanName_subset (name : List Char) : cleanName name ⊆ name ++ ['_'] := by
  obtain h | ⟨-, h⟩ := cleanName_cases name
  · rw [h]
    exact List.subset_append_left name ['_']
  · rw [h]
    exact List.Subset.refl _

theorem cleanName_inked {name : List Char} (h : Text.Inked name) : Text.Inked (cleanName name) := by
  obtain hc | ⟨-, hc⟩ := cleanName_cases name
  · rwa [hc]
  · rw [hc]
    exact h.append ⟨⟨'_', [], rfl, by decide⟩, ⟨[], '_', rfl, by decide⟩⟩ []

section Accepted

variable {line : String} {limit : Nat} {p : Param} {before typed : List Char}
  (h : Accepted line limit p before typed)
include h

theorem Accepted.name_inked : Text.Inked p.name.toList :=
  h.name ▸ cleanName_inked (Text.inked_trim h.name_ne_nil)

theorem Accepted.type_inked : Text.Inked p.type.toList :=
  h.type ▸ Text.inked_trim h.type_ne_nil

theorem Accepted.name_subset : p.name.toList ⊆ Text.trim before ++ ['_'] :=
  h.name ▸ cleanName_subset _

theorem Accepted.type_subset : p.type.toList ⊆ typed := h.type ▸ cleanType_subset typed

theorem Accepted.before_subset : Text.trim before ⊆ line.toList := by
  have hs := (splitAtConnectors_subset line.toList).1
  rw [h.split] at hs
  exact List.Subset.trans (Text.trim_subset before) hs

theorem Accepted.typed_subset : typed ⊆ line.toList := by
  have hs := (splitAtConnectors_subset line.toList).2
  rw [h.split] at hs
  exact hs typed List.mem_cons_self

theorem Accepted.typeText : TypeText p.type.toList := by
  have htyped : TypeText typed := by
    apply typeText_of_mem_splitAtConnectors (s := line.toList)
    rw [h.split]
    exact List.mem_cons_self
  exact h.type ▸ htyped.clean

theorem Accepted.wellFormed (hline : '\n' ∉ line.toList) : p.WellFormed where
  name := by
    -- A reserved name gets an underscore after its check, and nothing else is put into a name.
    have hplain : ∀ c, c ≠ '_' → c ∉ Text.trim before → c ∉ p.name.toList := by
      intro c hc hb hm
      obtain hm | hm := List.mem_append.1 (h.name_subset hm)
      · exact hb hm
      · exact hc (List.mem_singleton.1 hm)
    exact .of_inked h.name_inked (hplain '.' (by decide) h.name_no_period)
      (hplain '\n' (by decide) fun hm => hline (h.before_subset hm))
  type := .of_inked h.type_inked (fun hm => h.typed_no_period (h.type_subset hm))
    fun hm => hline (h.typed_subset (h.type_subset hm))
  typeText := h.typeText

end Accepted

/-- Closing parentheses are left out after the type is recognized, so the keyword need not end a
word any more. -/
example : declaration? "n As Long )x" 32 = some ⟨"n", "Longx"⟩ := by decide +kernel

/-! ## Entries -/

theorem infer_wellFormed (name : String) (doc : Doc) (limit : Nat) :
    (infer name doc limit).entry.WellFormed where
  params := by
    intro p hp
    obtain ⟨line, hline, hd⟩ := exists_of_mem_params hp
    obtain ⟨before, typed, ha⟩ := exists_of_declaration? hd
    exact ha.wellFormed hline
  returns_length := by
    obtain hr | ⟨-, line, hr⟩ := infer_returns name doc limit
    · simp [hr]
    · exact hr ▸ returnBinding_length_le line
  returns_kind := by
    intro hne
    obtain hr | ⟨hk, -⟩ := infer_returns name doc limit
    · exact absurd hr hne
    · rw [infer_kind, hk]
  returns := by
    intro part hp
    obtain hr | ⟨-, line, hr⟩ := infer_returns name doc limit
    · rw [hr] at hp
      cases hp
    · rw [hr] at hp
      obtain ⟨hne, hchars⟩ := of_mem_returnBinding hp
      refine ⟨hne, fun hm => ?_, fun hm => ?_⟩
      · exact absurd (hchars '.' hm) (by decide)
      · exact absurd (hchars '\n' hm) (by decide)

end Signature

end HelpMiner
