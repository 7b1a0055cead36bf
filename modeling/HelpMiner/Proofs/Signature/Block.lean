import HelpMiner.Proofs.Signature.Inference

/-! Inference recovers a block of declarations, whatever their spelling. -/
namespace HelpMiner.Signature

open Text (isWord isBlank)

/-! ## Lines -/

theorem no_newline_of_isWord {t : List Char} (ht : ∀ c ∈ t, isWord c = true) : '\n' ∉ t := by
  intro hm
  exact absurd (ht '\n' hm) (by decide)

theorem Blanks.no_newline {blanks : List Char} (h : Blanks blanks) : '\n' ∉ blanks :=
  fun hm => (h '\n' hm).2 rfl

theorem Qualified.no_newline {quals : List Char} (h : Qualified quals) : '\n' ∉ quals := by
  induction h with
  | nil => simp
  | @cons q w blanks more hq hw hb hne hm ih =>
    have hword := no_newline_of_isWord (hw.isWord (qualifier_isWord q hq))
    simp [hword, hb.no_newline, ih]

theorem Connects.no_newline {type conn closing : List Char} (h : Connects type conn closing) :
    '\n' ∉ conn ∧ '\n' ∉ closing := by
  cases h with
  | word hb _ hw ha =>
    have hword := no_newline_of_isWord (hw.isWord as_isWord)
    simp [hb.no_newline, hword, ha.no_newline]
  | parens hb ha hl => simp [hb.no_newline, ha.no_newline, hl.no_newline]

theorem Declared.name_no_newline (d : Declared) : '\n' ∉ d.name := by
  intro hm
  exact absurd (d.name_plain '\n' hm) (by decide)

theorem Spells.no_newline {d : Declared} {line : List Char} (h : Spells d line) : '\n' ∉ line := by
  obtain @⟨lead, quals, conn, closing, trail, hl, hq, hc, ht⟩ := h
  have htype := no_newline_of_isWord d.isType.isWord
  simp [hl.no_newline, hq.no_newline, d.name_no_newline, hc.no_newline.1, htype,
    hc.no_newline.2, ht.no_newline]

theorem Block.no_newline {ds : List Declared} {lines : List (List Char)} (h : Block ds lines) :
    ∀ line ∈ lines, '\n' ∉ line := by
  induction h with
  | nil => simp
  | cons hd hb hm ih =>
    intro l hl
    obtain rfl | hl := List.mem_cons.1 hl
    · exact hd.no_newline
    · obtain hl | hl := List.mem_append.1 hl
      · exact (hb l hl).no_newline
      · exact ih l hl

/-- A blank line has the empty normal form. -/
theorem normalizeChars_blanks {line : List Char} (h : Blanks line) : normalizeChars line = [] := by
  have hstrip : stripQualifiers false line = line := by
    have hs := ((unqualified_blanks h.isBlank).2 (Unqualified.nil false)).strip
    rwa [List.append_nil] at hs
  have hunify : unifyConnectors line = line := by
    have hu := unifyConnectors_blanks h.isBlank (s := []) Unconnected.nil
    rwa [unifyConnectors_nil, List.append_nil] at hu
  unfold normalizeChars
  rw [hstrip, hunify, Text.trim_blanks h.isBlank]

/-- The normal form of a line, as `normalizedLines` has it. -/
def normalText (line : List Char) : String := String.ofList (normalizeChars line)

theorem normalizedLines_joinLines {lines : List (List Char)} (hne : lines ≠ [])
    (h : ∀ line ∈ lines, '\n' ∉ line) :
    normalizedLines (joinLines lines) = lines.map normalText := by
  unfold normalizedLines joinLines
  rw [String.toList_ofList, Text.cutLines_intercalate hne h]
  rfl

/-! ## Blocks -/

theorem declaration?_empty (limit : Nat) : declaration? "" limit = none := by
  have hsplit : splitAtConnectors "".toList = ([], []) := splitAtConnectors_nil
  unfold declaration?
  rw [hsplit]

theorem declaration?_spelled {d : Declared} {line : List Char} (h : Spells d line) {limit : Nat}
    (hlimit : d.name.length ≤ limit) : declaration? (normalText line) limit = some d.param := by
  obtain ⟨closing, hc, hn⟩ := normalizeChars_spelled h
  unfold normalText
  rw [hn, declaration?_normal d hc hlimit]

theorem returnBinding_spelled {d : Declared} {line : List Char} (h : Spells d line) :
    returnBinding (normalText line) = d.binding := by
  obtain ⟨closing, hc, hn⟩ := normalizeChars_spelled h
  unfold normalText
  rw [hn, returnBinding_normal d hc]

theorem readLines_append (limit : Nat) (before after : List String) :
    readLines limit (before ++ after) =
      ((readLines limit before).1 ++ (readLines limit after).1,
        (readLines limit before).2 ++ (readLines limit after).2) := by
  unfold readLines
  rw [List.filterMap_append, List.filter_append]

/-- Blank lines are passed over in silence. -/
theorem readLines_blank (limit : Nat) {blank : List (List Char)} (h : ∀ l ∈ blank, Blanks l) :
    readLines limit (blank.map normalText) = ([], []) := by
  have hempty : ∀ line ∈ blank.map normalText, line = "" := by
    intro line hm
    obtain ⟨l, hl, rfl⟩ := List.mem_map.1 hm
    unfold normalText
    rw [normalizeChars_blanks (h l hl)]
  unfold readLines
  apply Prod.ext
  · rw [List.filterMap_eq_nil_iff]
    intro line hm
    rw [hempty line hm, declaration?_empty]
  · rw [List.filter_eq_nil_iff]
    intro line hm
    rw [hempty line hm]
    simp

/-- A block is read as its declarations, and nothing of it is left over. -/
theorem readLines_block {ds : List Declared} {lines : List (List Char)} (h : Block ds lines)
    {limit : Nat} (hlimit : ∀ d ∈ ds, d.name.length ≤ limit) :
    readLines limit (lines.map normalText) = (ds.map Declared.param, []) := by
  induction h with
  | nil => rfl
  | @cons d line blank ds lines hd hb hm ih =>
    have hline : readLines limit [normalText line] = ([d.param], []) := by
      have hread := declaration?_spelled hd (hlimit d List.mem_cons_self)
      simp [readLines, hread]
    have hrest := ih fun e he => hlimit e (List.mem_cons_of_mem d he)
    rw [List.map_cons, List.map_append, ← List.singleton_append, readLines_append,
      readLines_append, hline, readLines_blank limit hb, hrest]
    rfl

/-! ## Inference -/

/-- The lines of a block: the first of them binds what a function returns. -/
theorem normalizedLines_block {ds : List Declared} {lines : List (List Char)} (h : Block ds lines)
    {limit : Nat} (hlimit : ∀ d ∈ ds, d.name.length ≤ limit) :
    ∃ first rest, normalizedLines (joinLines lines) = first :: rest ∧
      returnBinding first = (ds.head?.map Declared.binding).getD [] ∧
      readLines limit (first :: rest) = (ds.map Declared.param, []) ∧
      readLines limit rest = (ds.tail.map Declared.param, []) := by
  have hnewline := h.no_newline
  have hall := readLines_block h hlimit
  cases h with
  | nil =>
    have hblank : normalText [] = "" := by
      unfold normalText
      rw [normalizeChars_blanks Blanks.nil]
    have hread : readLines limit ([[]].map normalText) = ([], []) :=
      readLines_blank limit (by simp [Blanks.nil])
    exact ⟨normalText [], [], rfl, by rw [hblank]; rfl, hread, rfl⟩
  | @cons d line blank ds lines hd hb hm =>
    have hrest := readLines_block hm fun e he => hlimit e (List.mem_cons_of_mem d he)
    refine ⟨normalText line, (blank ++ lines).map normalText, ?_, returnBinding_spelled hd, hall, ?_⟩
    · rw [normalizedLines_joinLines (List.cons_ne_nil _ _) hnewline, List.map_cons]
    · rw [List.map_append, readLines_append, readLines_blank limit hb, hrest]
      rfl

theorem not_record {name : String} (h : ¬ recordLead.toList <+: name.toList) :
    recordLead.toList.isPrefixOf name.toList = false := by
  rw [Bool.eq_false_iff, Ne, List.isPrefixOf_iff_prefix]
  exact h

theorem classify_of_usage {name usage : String} {doc : Doc}
    (hname : ¬ recordLead.toList <+: name.toList) (hu : doc.get? "Syntax" = some usage) :
    classify name doc = if '=' ∈ usage.toList then .function else .subroutine := by
  unfold classify
  rw [not_record hname, hu]
  simp

theorem classify_no_usage {name : String} {doc : Doc}
    (hname : ¬ recordLead.toList <+: name.toList) (hu : doc.get? "Syntax" = none) :
    classify name doc = .unknown := by
  unfold classify
  rw [not_record hname, hu]
  rfl

theorem infer_of_ne_function {name text : String} {doc : Doc} {source : Source} {limit : Nat}
    (hs : Source.locate? doc = some (source, text)) (hk : classify name doc ≠ .function)
    {params : List Param} (hr : readLines limit (normalizedLines text) = (params, [])) :
    infer name doc limit =
      ⟨{ Entry.plain (description doc) (classify name doc) with params := params },
        some source, []⟩ := by
  rw [infer_of_found hs, paramLines, boundReturns, if_neg hk, if_neg hk, hr]
  rfl

theorem infer_of_function {name text first : String} {rest : List String} {doc : Doc}
    {source : Source} {limit : Nat} (hs : Source.locate? doc = some (source, text))
    (hk : classify name doc = .function) (hl : normalizedLines text = first :: rest)
    {params : List Param} (hr : readLines limit rest = (params, [])) :
    infer name doc limit =
      ⟨{ Entry.plain (description doc) .function with
          params := params, returns := returnBinding first }, some source, []⟩ := by
  rw [infer_of_found hs, hk, paramLines, boundReturns, if_pos rfl, if_pos rfl, hl, List.tail_cons,
    List.headD_cons, hr]
  rfl

/-- Inference recovers every declaration of a block in order, whatever its spelling, and drops no
    line. A function keeps the first as its return binding. -/
theorem infer_block {name : String} {doc : Doc} {limit : Nat} {source : Source}
    {ds : List Declared} {lines : List (List Char)}
    (hname : ¬ recordLead.toList <+: name.toList) (hblock : Block ds lines)
    (hlimit : ∀ d ∈ ds, d.name.length ≤ limit)
    (hsource : Source.locate? doc = some (source, joinLines lines)) :
    (∀ usage, doc.get? "Syntax" = some usage → '=' ∉ usage.toList →
      infer name doc limit =
        ⟨{ Entry.plain (description doc) .subroutine with params := ds.map Declared.param },
          some source, []⟩) ∧
    (doc.get? "Syntax" = none →
      infer name doc limit =
        ⟨{ Entry.plain (description doc) .unknown with params := ds.map Declared.param },
          some source, []⟩) ∧
    (∀ usage, doc.get? "Syntax" = some usage → '=' ∈ usage.toList →
      infer name doc limit =
        ⟨{ Entry.plain (description doc) .function with
            params := ds.tail.map Declared.param
            returns := (ds.head?.map Declared.binding).getD [] }, some source, []⟩) := by
  obtain ⟨first, rest, hlines, hreturns, hall, hrest⟩ := normalizedLines_block hblock hlimit
  rw [← hlines] at hall
  refine ⟨?_, ?_, ?_⟩
  · intro usage hu heq
    have hk : classify name doc = .subroutine := by rw [classify_of_usage hname hu, if_neg heq]
    rw [infer_of_ne_function hsource (by rw [hk]; decide) hall, hk]
  · intro hu
    have hk := classify_no_usage hname hu
    rw [infer_of_ne_function hsource (by rw [hk]; decide) hall, hk]
  · intro usage hu heq
    have hk : classify name doc = .function := by rw [classify_of_usage hname hu, if_pos heq]
    rw [infer_of_function hsource hk hlines hrest, hreturns]

/-- The declaration `Count As Long`. -/
def countDeclared : Declared where
  ident := ['C', 'o', 'u', 'n', 't']
  isArray := false
  type := ['L', 'o', 'n', 'g']
  isIdent := {
    first := ⟨'C', _, rfl, .inl (by decide)⟩
    chars := List.all_eq_true.1 (by decide)
    free := by decide }
  isType := .keyword (k := ("Long", .int)) (by decide) (.inl rfl)

/-- A declaration of the reserved name `as`. -/
def asDeclared : Declared where
  ident := ['a', 's']
  isArray := false
  type := ['T', '_', 'R', 'o', 'w']
  isIdent := {
    first := ⟨'a', _, rfl, .inl (by decide)⟩
    chars := List.all_eq_true.1 (by decide)
    free := by decide }
  isType := @IsType.record ['R', 'o', 'w'] (List.all_eq_true.1 (by decide))

/-- A function with a return binding, a blank line, and a parameter in parentheses that is passed
    by value. -/
theorem infer_block_fill :
    infer "Fill" ⟨[("Syntax", "Count = Fill(as)"),
        ("Parameters", "Count As Long\n \nbyVAL as( T_Row )")], by decide⟩ 32 =
      ⟨⟨noDescription, [⟨"as_", "T_Row"⟩], ["Count", "Long"], .function⟩, some .parameters, []⟩ := by
  have hspace : Blanks [' '] := connector_blanks
  have hcount : Spells countDeclared "Count As Long".toList :=
    @Spells.intro countDeclared [] [] _ [] [] Blanks.nil .nil
      (.word (w := ['A', 's']) hspace (List.cons_ne_nil _ _) rfl hspace (List.cons_ne_nil _ _))
      Blanks.nil
  have hpassed : Qualified "byVAL ".toList :=
    .cons (q := "byval") (w := ['b', 'y', 'V', 'A', 'L']) (by decide) rfl hspace
      (List.cons_ne_nil _ _) .nil
  have has : Spells asDeclared "byVAL as( T_Row )".toList :=
    @Spells.intro asDeclared [] _ _ _ [] Blanks.nil hpassed
      (@Connects.parens _ [] _ _ Blanks.nil hspace hspace) Blanks.nil
  have hblock : Block [countDeclared, asDeclared]
      ["Count As Long".toList, [' '], "byVAL as( T_Row )".toList] :=
    @Block.cons _ _ [[' ']] _ _ hcount (by simpa using hspace)
      (@Block.cons _ _ [] _ _ has (by simp) .nil)
  exact (infer_block (by decide) hblock (by decide) rfl).2.2 "Count = Fill(as)" rfl (by decide)

end HelpMiner.Signature
