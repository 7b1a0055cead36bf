import HelpMiner.Proofs.Signature.Block

/-! Every line of the section with the parameters is accounted for: the first binds what a function
returns, and each of the others is a parameter, or is dropped, or is empty. -/
namespace HelpMiner.Signature

/-! ## The section -/

/-- The first of the sections that can hold parameters, with its text. -/
inductive FoundIn (doc : Doc) : Source → String → Prop where
  | parameters {text : String} (h : doc.get? "Parameters" = some text) :
      FoundIn doc .parameters text
  | definition {text : String} (hp : doc.get? "Parameters" = none)
      (h : doc.get? "Definition" = some text) : FoundIn doc .definition text
  | syntaxText {text : String} (hp : doc.get? "Parameters" = none)
      (hd : doc.get? "Definition" = none) (h : doc.get? "Syntax" = some text) :
      FoundIn doc .syntaxText text

/-- No section can hold parameters. -/
structure FoundNowhere (doc : Doc) : Prop where
  parameters : doc.get? "Parameters" = none
  definition : doc.get? "Definition" = none
  usage : doc.get? "Syntax" = none

section Section

variable {doc : Doc}

theorem foundIn_of_locate? {source : Source} {text : String}
    (h : Source.locate? doc = some (source, text)) : FoundIn doc source text := by
  rw [locate?_eq] at h
  cases hp : doc.get? "Parameters" with
  | some t =>
    rw [hp] at h
    cases h
    exact .parameters hp
  | none =>
    cases hd : doc.get? "Definition" with
    | some t =>
      rw [hp, hd] at h
      cases h
      exact .definition hp hd
    | none =>
      rw [hp, hd] at h
      obtain ⟨t, hs, he⟩ := Option.map_eq_some_iff.1 h
      cases he
      exact .syntaxText hp hd hs

theorem foundNowhere_of_locate? (h : Source.locate? doc = none) : FoundNowhere doc := by
  rw [locate?_eq, Option.or_eq_none_iff, Option.or_eq_none_iff] at h
  simp only [Option.map_eq_none_iff] at h
  exact ⟨h.1, h.2.1, h.2.2⟩

end Section

/-! ## The lines -/

/-- Lines in their order, each taken once: as a parameter, as a line that is dropped, or, if it is
empty, as neither. -/
inductive Parted (limit : Nat) : List String → List Param → List String → Prop where
  | nil : Parted limit [] [] []
  | param {line : String} {p : Param} {lines : List String} {ps : List Param}
      {dropped : List String} (hd : declaration? line limit = some p)
      (hm : Parted limit lines ps dropped) : Parted limit (line :: lines) (p :: ps) dropped
  | drop {line : String} {lines : List String} {ps : List Param} {dropped : List String}
      (hne : line ≠ "") (hd : declaration? line limit = none) (hm : Parted limit lines ps dropped) :
      Parted limit (line :: lines) ps (line :: dropped)
  | empty {lines : List String} {ps : List Param} {dropped : List String}
      (hm : Parted limit lines ps dropped) : Parted limit ("" :: lines) ps dropped

section Lines

variable {limit : Nat}

theorem ne_empty_of_declaration? {line : String} {p : Param}
    (h : declaration? line limit = some p) : line ≠ "" := by
  rintro rfl
  rw [declaration?_empty] at h
  cases h

theorem parted_readLines (limit : Nat) (lines : List String) :
    Parted limit lines (readLines limit lines).1 (readLines limit lines).2 := by
  induction lines with
  | nil => exact .nil
  | cons line rest ih =>
    have hsplit := readLines_append limit [line] rest
    rw [List.singleton_append] at hsplit
    rw [hsplit]
    cases hd : declaration? line limit with
    | some p =>
      have hline : readLines limit [line] = ([p], []) := by simp [readLines, hd]
      rw [hline]
      exact .param hd ih
    | none =>
      by_cases hne : line = ""
      · subst hne
        have hline : readLines limit [""] = ([], []) := by simp [readLines, hd]
        rw [hline]
        exact .empty ih
      · have hline : readLines limit [line] = ([], [line]) := by simp [readLines, hd, hne]
        rw [hline]
        exact .drop hne hd ih

/-- As many lines are taken as are not empty. -/
theorem Parted.length_add {lines dropped : List String} {ps : List Param}
    (h : Parted limit lines ps dropped) :
    ps.length + dropped.length = lines.countP fun line => line ≠ "" := by
  induction h with
  | nil => rfl
  | param hd hm ih =>
    rw [List.countP_cons_of_pos (by simpa using ne_empty_of_declaration? hd), ← ih,
      List.length_cons]
    omega
  | drop hne hd hm ih =>
    rw [List.countP_cons_of_pos (by simpa using hne), ← ih, List.length_cons]
    omega
  | empty hm ih => rw [List.countP_cons_of_neg (by simp), ih]

end Lines

/-! ## Inference -/

/-- How an inference has read a section with these lines. -/
structure LinesRead (limit : Nat) (i : Inference) (first : String) (rest : List String) : Prop where
  function : i.entry.kind = .function →
    i.entry.returns = returnBinding first ∧ Parted limit rest i.entry.params i.dropped ∧
      i.entry.params.length + i.dropped.length = rest.countP fun line => line ≠ ""
  other : i.entry.kind ≠ .function →
    i.entry.returns = [] ∧ Parted limit (first :: rest) i.entry.params i.dropped ∧
      i.entry.params.length + i.dropped.length = (first :: rest).countP fun line => line ≠ ""

/-- Inference reads the first section there is, and accounts for each of its lines in their order.
Without a section it reads nothing. -/
theorem infer_accounts (name : String) (doc : Doc) (limit : Nat) :
    (FoundNowhere doc ∧
      infer name doc limit = ⟨Entry.plain (description doc) (classify name doc), none, []⟩) ∨
    ∃ source text first rest, FoundIn doc source text ∧
      (infer name doc limit).source = some source ∧
      text.toList = ['\n'].intercalate (first :: rest) ∧
      (∀ line ∈ first :: rest, '\n' ∉ line) ∧
      LinesRead limit (infer name doc limit) (normalText first) (rest.map normalText) := by
  cases hs : Source.locate? doc with
  | none => exact .inl ⟨foundNowhere_of_locate? hs, infer_of_missing hs limit⟩
  | some found =>
    obtain ⟨source, text⟩ := found
    obtain ⟨first, rest, hlines⟩ :=
      List.exists_cons_of_ne_nil (Text.cutWhere_ne_nil (· == '\n') text.toList)
    have htext := Text.intercalate_cutLines text.toList
    have hplain : ∀ line ∈ first :: rest, '\n' ∉ line := by
      intro line hm hn
      rw [← hlines] at hm
      exact absurd (Text.of_mem_cutWhere hm _ hn) (by decide)
    have hnormal : normalizedLines text = normalText first :: rest.map normalText := by
      unfold normalizedLines Text.cutLines
      rw [hlines]
      rfl
    unfold Text.cutLines at htext
    rw [hlines] at htext
    refine .inr ⟨source, text, first, rest, foundIn_of_locate? hs, ?_, htext.symm, hplain, ?_⟩
    · rw [infer_of_found hs]
    · -- A function's first line is its return binding, and only the others are parted.
      rw [infer_of_found hs, paramLines, boundReturns, hnormal]
      constructor
      · intro hk
        have hk : classify name doc = .function := hk
        have hparted := parted_readLines limit (rest.map normalText)
        rw [if_pos hk, if_pos hk]
        exact ⟨rfl, hparted, hparted.length_add⟩
      · intro hk
        have hk : classify name doc ≠ .function := hk
        have hparted := parted_readLines limit (normalText first :: rest.map normalText)
        rw [if_neg hk, if_neg hk]
        exact ⟨rfl, hparted, hparted.length_add⟩

end HelpMiner.Signature
