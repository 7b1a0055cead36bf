import HelpMiner.Signature.Inference
import HelpMiner.Proofs.Signature.Reading

/-! What inference reads of the documentation, and what it takes each part of an entry from. -/
namespace HelpMiner.Signature

open Text (isWord)

/-- The lines that are read as parameters. -/
def paramLines (kind : Kind) (text : String) : List String :=
  if kind = .function then (normalizedLines text).tail else normalizedLines text

/-- The return binding that is read. -/
def boundReturns (kind : Kind) (text : String) : List String :=
  if kind = .function then returnBinding ((normalizedLines text).headD "") else []

theorem infer_of_missing {name : String} {doc : Doc} (hs : Source.locate? doc = none)
    (limit : Nat) : infer name doc limit =
      ⟨Entry.plain (description doc) (classify name doc), none, []⟩ := by
  unfold infer
  rw [hs]

theorem infer_of_found {name text : String} {doc : Doc} {source : Source}
    (hs : Source.locate? doc = some (source, text)) (limit : Nat) :
    infer name doc limit =
      ⟨{ description := description doc
         params := (readLines limit (paramLines (classify name doc) text)).1
         returns := boundReturns (classify name doc) text
         kind := classify name doc },
        some source, (readLines limit (paramLines (classify name doc) text)).2⟩ := by
  unfold infer paramLines boundReturns
  simp only [hs]
  by_cases hk : classify name doc = .function
  · simp only [hk, beq_self_eq_true, if_true]
    rfl
  · simp only [beq_eq_false_iff_ne.2 hk, hk, if_false, Bool.false_eq_true]
    rfl

/-! ## Sections -/

/-- Headings of the sections that tell the interface of a command. -/
def interfaceHeadings : List String := ["Syntax", "Parameters", "Definition"]

/-- Documentation that tells the same interface. -/
def SameInterface (doc other : Doc) : Prop :=
  ∀ heading ∈ interfaceHeadings, doc.get? heading = other.get? heading

section Sections

variable {doc other : Doc} (h : SameInterface doc other)
include h

theorem classify_congr (name : String) : classify name doc = classify name other := by
  unfold classify
  rw [h "Syntax" (by decide)]

theorem locate?_congr : Source.locate? doc = Source.locate? other := by
  have hp : doc.get? Source.parameters.heading = other.get? Source.parameters.heading :=
    h "Parameters" (by decide)
  have hd : doc.get? Source.definition.heading = other.get? Source.definition.heading :=
    h "Definition" (by decide)
  have hs : doc.get? Source.syntaxText.heading = other.get? Source.syntaxText.heading :=
    h "Syntax" (by decide)
  unfold Source.locate?
  simp only [List.findSome?_cons, List.findSome?_nil, hp, hd, hs]

/-- Documentation with the same interface is read alike, but for the description. -/
theorem infer_congr (name : String) (limit : Nat) :
    infer name other limit =
      { infer name doc limit with
        entry := { (infer name doc limit).entry with description := description other } } := by
  cases hs : Source.locate? other with
  | none =>
    have hd : Source.locate? doc = none := (locate?_congr h).trans hs
    rw [infer_of_missing hs, infer_of_missing hd, classify_congr h]
    rfl
  | some found =>
    have hd : Source.locate? doc = some found := (locate?_congr h).trans hs
    rw [infer_of_found hs, infer_of_found hd, classify_congr h]

end Sections

/-! ## Parts of an entry -/

theorem no_newline_of_mem_normalizedLines {text line : String} (h : line ∈ normalizedLines text) :
    '\n' ∉ line.toList := by
  obtain ⟨raw, hraw, rfl⟩ := List.mem_map.1 h
  rw [String.toList_ofList]
  intro hn
  obtain hn | hn := List.mem_append.1 (normalizeChars_subset raw hn)
  · exact absurd hn (by decide)
  · exact absurd (Text.of_mem_cutWhere hraw _ hn) (by decide)

theorem exists_of_mem_readLines {limit : Nat} {lines : List String} {p : Param}
    (h : p ∈ (readLines limit lines).1) : ∃ line ∈ lines, declaration? line limit = some p :=
  List.mem_filterMap.1 h

section Parts

variable (name : String) (doc : Doc) (limit : Nat)

@[simp] theorem infer_kind : (infer name doc limit).entry.kind = classify name doc := by
  cases hs : Source.locate? doc with
  | none => rw [infer_of_missing hs, Entry.plain]
  | some found => rw [infer_of_found hs]

@[simp] theorem infer_description :
    (infer name doc limit).entry.description = description doc := by
  cases hs : Source.locate? doc with
  | none => rw [infer_of_missing hs, Entry.plain]
  | some found => rw [infer_of_found hs]

@[simp] theorem infer_source :
    (infer name doc limit).source = (Source.locate? doc).map Prod.fst := by
  cases hs : Source.locate? doc with
  | none => rw [infer_of_missing hs, Option.map_none]
  | some found => rw [infer_of_found hs, Option.map_some]

end Parts

variable {name : String} {doc : Doc} {limit : Nat}

theorem locate?_eq (doc : Doc) : Source.locate? doc =
    ((doc.get? "Parameters").map fun text => (Source.parameters, text)).or
      (((doc.get? "Definition").map fun text => (Source.definition, text)).or
        ((doc.get? "Syntax").map fun text => (Source.syntaxText, text))) := by
  unfold Source.locate?
  simp only [List.findSome?_cons, List.findSome?_nil, Source.heading]
  cases doc.get? "Parameters" <;> cases doc.get? "Definition" <;> cases doc.get? "Syntax" <;> rfl

/-- Parameters come from free text where no other section tells them. -/
theorem isUncertain_infer_iff : (infer name doc limit).isUncertain = true ↔
    doc.get? "Parameters" = none ∧ doc.get? "Definition" = none ∧ doc.get? "Syntax" ≠ none := by
  unfold Inference.isUncertain
  rw [infer_source, locate?_eq]
  cases doc.get? "Parameters" <;> cases doc.get? "Definition" <;> cases doc.get? "Syntax" <;> simp

/-- Each parameter is read from a line of its own. -/
theorem exists_of_mem_params {p : Param} (h : p ∈ (infer name doc limit).entry.params) :
    ∃ line : String, '\n' ∉ line.toList ∧ declaration? line limit = some p := by
  cases hs : Source.locate? doc with
  | none =>
    rw [infer_of_missing hs] at h
    cases h
  | some found =>
    rw [infer_of_found hs] at h
    obtain ⟨line, hl, hd⟩ := exists_of_mem_readLines h
    have hline : line ∈ normalizedLines found.2 := by
      unfold paramLines at hl
      split at hl
      · exact List.mem_of_mem_tail hl
      · exact hl
    exact ⟨line, no_newline_of_mem_normalizedLines hline, hd⟩

variable (name doc limit) in
/-- Only a function binds what it returns, as one line tells. -/
theorem infer_returns : (infer name doc limit).entry.returns = [] ∨
    classify name doc = .function ∧
      ∃ line, (infer name doc limit).entry.returns = returnBinding line := by
  cases hs : Source.locate? doc with
  | none => exact .inl (by rw [infer_of_missing hs, Entry.plain])
  | some found =>
    rw [infer_of_found hs]
    by_cases hk : classify name doc = .function
    · exact .inr ⟨hk, _, if_pos hk⟩
    · exact .inl (if_neg hk)

/-! ## Return bindings -/

theorem isWord_of_mem_wordsOf {line : List Char} {w : String} (h : w ∈ wordsOf line) :
    w ≠ "" ∧ ∀ c ∈ w.toList, isWord c = true := by
  obtain ⟨chars, hm, rfl⟩ := List.mem_map.1 h
  obtain ⟨hcut, hne⟩ := List.mem_filter.1 hm
  constructor
  · rintro he
    rw [String.ofList_eq_empty_iff] at he
    simp [he] at hne
  · rw [String.toList_ofList]
    intro c hc
    simpa using Text.of_mem_cutWhere hcut c hc

theorem returnBinding_length_le (line : String) : (returnBinding line).length ≤ 2 := by
  unfold returnBinding
  cases (wordsOf line.toList).erase "As" with
  | nil => simp
  | cons name rest =>
    cases rest with
    | nil => simp
    | cons word rest => simp

/-- A return binding is made of words and the spaces between them. -/
theorem of_mem_returnBinding {line part : String} (h : part ∈ returnBinding line) :
    part ≠ "" ∧ ∀ c ∈ part.toList, isWord c = true ∨ c = ' ' := by
  have hwords : ∀ w ∈ (wordsOf line.toList).erase "As", w ≠ "" ∧ ∀ c ∈ w.toList, isWord c = true :=
    fun w hw => isWord_of_mem_wordsOf (List.mem_of_mem_erase hw)
  unfold returnBinding at h
  split at h
  · rename_i name word rest he
    rw [he] at hwords
    obtain rfl | h := List.mem_cons.1 h
    · have hname := hwords part List.mem_cons_self
      exact ⟨hname.1, fun c hc => .inl (hname.2 c hc)⟩
    · obtain rfl := List.mem_singleton.1 h
      have htype : ∀ w ∈ word :: rest, w ≠ "" ∧ ∀ c ∈ w.toList, isWord c = true :=
        fun w hw => hwords w (List.mem_cons_of_mem name hw)
      refine ⟨Text.intercalate_ne_empty (htype word List.mem_cons_self).1, ?_⟩
      exact Text.forall_mem_intercalate (by simp) fun w hw c hc => .inl ((htype w hw).2 c hc)
  · exact ⟨(hwords part h).1, fun c hc => .inl ((hwords part h).2 c hc)⟩

end HelpMiner.Signature
