import HelpMiner.Proofs.Text.Wrap
import HelpMiner.Stub.Source

/-! The lines of a stub. What is code in it depends on the command's interface alone: no description
gets out of the comments. -/
namespace HelpMiner.Text

/-- Lines that each end with a line feed are the lines of the text, with nothing after the last. -/
theorem cutLines_join {lines : List String} (h : ∀ line ∈ lines, '\n' ∉ line.toList) :
    cutLines (String.join (lines.map (· ++ "\n"))).toList = lines.map String.toList ++ [[]] := by
  unfold cutLines
  induction lines with
  | nil => rfl
  | cons line rest ih =>
    have hline : ∀ c ∈ line.toList, (c == '\n') = false := by
      intro c hc
      rw [beq_eq_false_iff_ne]
      rintro rfl
      exact h line List.mem_cons_self hc
    have hrest := ih fun l hl => h l (List.mem_cons_of_mem _ hl)
    have hfeed : "\n".toList = ['\n'] := rfl
    calc cutWhere (· == '\n') (String.join ((line :: rest).map (· ++ "\n"))).toList
        = cutWhere (· == '\n')
            (line.toList ++ '\n' :: (String.join (rest.map (· ++ "\n"))).toList) := by
          rw [List.map_cons, String.join_cons, String.toList_append, String.toList_append, hfeed,
            List.append_assoc, List.singleton_append]
      _ = [line.toList] ++ cutWhere (· == '\n') (String.join (rest.map (· ++ "\n"))).toList := by
          rw [cutWhere_append_cons (by decide), cutWhere_piece hline]
      _ = (line :: rest).map String.toList ++ [[]] := by
          rw [hrest]
          rfl

end HelpMiner.Text

namespace HelpMiner.Stub

/-! ## The policy of calls -/

/-- Parameters as a call lists them: names without parentheses. -/
def arguments (ps : List Param) : List String :=
  ps.map fun p => String.ofList (p.name.toList.filter (· ∉ ['(', ')']))

/-- Texts in a list of the script language. -/
def listed (texts : List String) : String := ", ".intercalate texts

/-- The declared parameters: each with its type, or one placeholder. -/
def parameters (ps : List Param) : String :=
  if ps = [] then "dummy As Variant" else listed (ps.map fun p => p.name ++ " As " ++ p.type)

/-- What a stub does for a command of some kind, return binding and parameters: the type it returns,
    if it returns something, and the lines that do it. -/
inductive Policy (name : String) (kind : Kind) (returns : List String) (ps : List Param) :
    Option String → List String → Prop where
  /-- The result of a function, of the type that is documented for it. -/
  | function (hk : kind = .function) :
      Policy name kind returns ps (some (returns[1]?.getD "Variant"))
        ["libfunct = " ++ name ++ " (" ++ listed (arguments ps) ++ ")"]
  /-- The result of a subroutine that binds one, with its parameters. -/
  | bound {result : String} {more : List String} (hk : kind = .subroutine)
      (hr : returns = result :: more) :
      Policy name kind returns ps (some "Variant") [
        "Dim " ++ result ++ " As " ++ more.head?.getD "Variant",
        result ++ " = " ++ name ++ "(" ++ listed (arguments ps) ++ ")",
        "libfunct = Array(" ++ listed (result :: arguments ps) ++ ")"]
  | several (hk : kind = .subroutine) (hr : returns = []) (hp : 2 ≤ ps.length) :
      Policy name kind returns ps (some "Variant") [
        name ++ " " ++ listed (arguments ps),
        "libfunct = Array(" ++ listed (arguments ps) ++ ")"]
  | single {p : Param} (hk : kind = .subroutine) (hr : returns = []) (hp : ps = [p]) :
      Policy name kind returns ps (some p.type) [
        name ++ " " ++ listed (arguments ps),
        "libfunct = " ++ listed (arguments ps)]
  | bare (hk : kind = .subroutine) (hr : returns = []) (hp : ps = []) :
      Policy name kind returns ps none [name]

/-- The first line of a stub that returns a value of some type, or nothing. -/
def opening (ps : List Param) (type : Option String) : String :=
  "Function libfunct (" ++ parameters ps ++ ")" ++ type.elim "" (" As " ++ ·)

theorem callArguments_eq (e : Entry) : callArguments e = arguments e.params := by
  have hkeep : (fun c : Char => !(c == '(' || c == ')')) = fun c => decide (c ∉ ['(', ')']) := by
    funext c
    by_cases ho : c = '(' <;> by_cases hc : c = ')' <;> simp [ho, hc]
  unfold callArguments arguments
  refine List.map_congr_left fun p _ => ?_
  unfold Param.bareName
  rw [hkeep]

theorem declaration_eq (e : Entry) (shape : Shape) :
    declaration e shape = opening e.params (declaredType? e shape) := by
  have hps : declaredParams e = parameters e.params := by
    unfold declaredParams parameters
    cases e.params <;> rfl
  unfold declaration opening
  rw [hps]
  cases declaredType? e shape <;> rfl

/-- Every callable command has a shape, and its stub follows the policy. -/
theorem exists_policy (name : String) {e : Entry} (hk : e.kind.isCallable = true) :
    ∃ shape, Shape.ofEntry? e = some shape ∧
      Policy name e.kind e.returns e.params (declaredType? e shape) (bodyLines name e shape) := by
  obtain ⟨description, params, returns, kind⟩ := e
  -- A subroutine goes by its return binding first, and by the number of its parameters after that.
  cases kind with
  | function =>
    have h := @Policy.function name .function returns params rfl
    refine ⟨.direct, rfl, ?_⟩
    simpa [bodyLines, declaredType?, resultType, Entry.returnType?, callArguments_eq, entryPoint,
      genericType, commaList, listed] using h
  | subroutine =>
    cases returns with
    | cons result more =>
      have h := @Policy.bound name .subroutine _ params result more rfl rfl
      refine ⟨.resultAndParams, rfl, ?_⟩
      simpa [bodyLines, declaredType?, resultType, resultName, Entry.returnType?,
        Entry.returnName?, callArguments_eq, entryPoint, genericType, commaList, listed,
        List.head?_eq_getElem?] using h
    | nil =>
      match params with
      | [] =>
        refine ⟨.nothing, rfl, ?_⟩
        simpa [bodyLines, declaredType?] using
          @Policy.bare name .subroutine [] [] rfl rfl rfl
      | [p] =>
        have h := @Policy.single name .subroutine [] [p] p rfl rfl rfl
        refine ⟨.singleParam, rfl, ?_⟩
        simpa [bodyLines, declaredType?, callArguments_eq, entryPoint, commaList, listed] using h
      | p :: q :: ps =>
        have h := @Policy.several name .subroutine [] (p :: q :: ps) rfl rfl (by simp)
        refine ⟨.params, rfl, ?_⟩
        simpa [bodyLines, declaredType?, callArguments_eq, entryPoint, genericType, commaList,
          listed] using h
  | datastruct => cases hk
  | unknown => cases hk

/-! ## Lines -/

/-- The names and types of a command are on one line each. -/
structure OneLine (name : String) (returns : List String) (ps : List Param) : Prop where
  name : '\n' ∉ name.toList
  params : ∀ p ∈ ps, '\n' ∉ p.name.toList ∧ '\n' ∉ p.type.toList
  returns : ∀ r ∈ returns, '\n' ∉ r.toList

theorem no_newline_intercalate {sep : String} (hs : '\n' ∉ sep.toList) {texts : List String}
    (h : ∀ t ∈ texts, '\n' ∉ t.toList) : '\n' ∉ (sep.intercalate texts).toList := by
  have hall := Text.forall_mem_intercalate (p := fun c => c ≠ '\n')
    (fun c hc hn => hs (hn ▸ hc)) fun t ht c hc hn => h t ht (hn ▸ hc)
  exact fun hm => hall _ hm rfl

theorem no_newline_comment {text : String} (ht : '\n' ∉ text.toList) :
    '\n' ∉ (bodyIndent ++ comment text).toList := by
  unfold comment
  split <;> simp [ht, bodyIndent]

section OneLine

variable {name : String} {e : Entry} (h : OneLine name e.returns e.params)
include h

theorem OneLine.declaration {p : Param} (hp : p ∈ e.params) : '\n' ∉ p.declaration.toList := by
  obtain ⟨hn, ht⟩ := h.params p hp
  simp [Param.declaration, hn, ht]

theorem OneLine.bareName {p : Param} (hp : p ∈ e.params) : '\n' ∉ p.bareName.toList := by
  unfold Param.bareName
  rw [String.toList_ofList]
  exact fun hm => (h.params p hp).1 (List.mem_of_mem_filter hm)

theorem OneLine.arguments : ∀ t ∈ callArguments e, '\n' ∉ t.toList := by
  intro t ht
  obtain ⟨p, hp, rfl⟩ := List.mem_map.1 ht
  exact h.bareName hp

theorem OneLine.resultName : '\n' ∉ (resultName e).toList := by
  unfold Stub.resultName Entry.returnName?
  cases hr : e.returns[0]? with
  | none => decide
  | some r => exact h.returns r (List.mem_of_getElem? hr)

theorem OneLine.resultType : '\n' ∉ (resultType e).toList := by
  unfold Stub.resultType Entry.returnType?
  cases hr : e.returns[1]? with
  | none => decide
  | some r => exact h.returns r (List.mem_of_getElem? hr)

theorem OneLine.returnsDeclaration : '\n' ∉ e.returnsDeclaration.toList :=
  no_newline_intercalate (by decide) h.returns

theorem OneLine.declaredType {shape : Shape} :
    ∀ type ∈ declaredType? e shape, '\n' ∉ type.toList := by
  intro type ht
  cases shape with
  | direct =>
    obtain rfl := Option.some.inj ht
    exact h.resultType
  | resultAndParams =>
    obtain rfl := Option.some.inj ht
    decide
  | params =>
    obtain rfl := Option.some.inj ht
    decide
  | singleParam =>
    obtain ⟨p, hp, rfl⟩ := Option.map_eq_some_iff.1 ht
    exact (h.params p (List.mem_of_mem_head? hp)).2
  | nothing => cases ht

theorem OneLine.firstLine (shape : Shape) : '\n' ∉ (Stub.declaration e shape).toList := by
  have hps : '\n' ∉ (declaredParams e).toList := by
    unfold declaredParams
    split
    · decide
    · refine no_newline_intercalate (by decide) fun t ht => ?_
      obtain ⟨p, hp, rfl⟩ := List.mem_map.1 ht
      exact h.declaration hp
  unfold Stub.declaration
  cases ht : declaredType? e shape with
  | none => simp [hps, entryPoint]
  | some type => simp [hps, h.declaredType type ht, entryPoint]

theorem OneLine.bodyLines (shape : Shape) :
    ∀ line ∈ bodyLines name e shape, '\n' ∉ line.toList := by
  have hargs : '\n' ∉ (commaList (callArguments e)).toList :=
    no_newline_intercalate (by decide) h.arguments
  have hcollected : '\n' ∉ (commaList (Stub.resultName e :: callArguments e)).toList := by
    refine no_newline_intercalate (by decide) fun t ht => ?_
    rcases List.mem_cons.1 ht with rfl | ht
    · exact h.resultName
    · exact h.arguments t ht
  cases shape <;>
    simp [Stub.bodyLines, h.name, hargs, hcollected, h.resultName, h.resultType, entryPoint]

theorem OneLine.returnNotes (shape : Shape) :
    ∀ note ∈ returnNotes e shape, '\n' ∉ note.toList := by
  have hps : ∀ note ∈ e.params.map Param.declaration, '\n' ∉ note.toList := by
    intro note hn
    obtain ⟨p, hp, rfl⟩ := List.mem_map.1 hn
    exact h.declaration hp
  cases shape with
  | direct =>
    intro note hn
    obtain rfl := List.mem_singleton.1 hn
    split
    · exact h.returnsDeclaration
    · decide
  | resultAndParams =>
    intro note hn
    rcases List.mem_cons.1 hn with rfl | hn
    · decide
    · rcases List.mem_cons.1 hn with rfl | hn
      · exact h.returnsDeclaration
      · exact hps note hn
  | params =>
    intro note hn
    rcases List.mem_cons.1 hn with rfl | hn
    · decide
    · exact hps note hn
  | singleParam => exact hps
  | nothing =>
    intro note hn
    obtain rfl := List.mem_singleton.1 hn
    decide

theorem OneLine.kindNotes (shape : Shape) :
    ∀ note ∈ kindNotes name e shape, '\n' ∉ note.toList := by
  unfold Stub.kindNotes
  cases e.kind <;> cases shape <;> simp [h.name]

/-- No comment of the header breaks its line: the description is wrapped within its lines. -/
theorem OneLine.headerTexts (shape : Shape) (columns : Nat) :
    ∀ text ∈ headerTexts name e shape columns, '\n' ∉ text.toList := by
  have hkind : '\n' ∉ (kindCapitals e.kind).toList := by cases e.kind <;> decide
  have hwrap : ∀ text ∈ (Text.wrap e.description columns).map ("  " ++ ·), '\n' ∉ text.toList := by
    intro text ht
    obtain ⟨piece, hp, rfl⟩ := List.mem_map.1 ht
    simpa using Text.no_newline_of_mem_wrap hp
  have hnotes : ∀ text ∈ (Stub.returnNotes e shape).map ("  " ++ ·), '\n' ∉ text.toList := by
    intro text ht
    obtain ⟨note, hn, rfl⟩ := List.mem_map.1 ht
    simpa using h.returnNotes shape note hn
  have hkinds := h.kindNotes shape
  simp only [Stub.headerTexts, List.forall_mem_append, List.forall_mem_cons]
  refine ⟨⟨⟨⟨⟨⟨⟨?_, ?_⟩, hkinds⟩, ?_, ?_⟩, hwrap⟩, ?_, ?_⟩, hnotes⟩, ?_, ?_, ?_⟩ <;>
    simp [h.name, hkind, entryPoint]

theorem OneLine.lines (shape : Shape) (columns : Nat) :
    ∀ line ∈ lines name e shape columns, '\n' ∉ line.toList := by
  intro line hl
  simp only [Stub.lines, List.mem_append, List.mem_singleton, List.mem_map] at hl
  rcases hl with ((rfl | ⟨text, ht, rfl⟩) | ⟨body, hb, rfl⟩) | rfl
  · exact h.firstLine shape
  · exact no_newline_comment (h.headerTexts shape columns text ht)
  · simpa [bodyIndent] using h.bodyLines shape body hb
  · decide

end OneLine

theorem comment_marked (text : String) :
    ∃ rest, bodyIndent ++ comment text = "    '" ++ rest := by
  unfold comment
  split
  · exact ⟨"", rfl⟩
  · exact ⟨" " ++ text, by simp [bodyIndent, ← String.append_assoc]⟩

/-- A stub of a callable command is its declaration, comments, the body that the policy tells, and
    an end. The declaration and the body are the same for every description and margin. -/
theorem source_layout {name : String} {e : Entry} (hk : e.kind.isCallable = true)
    (h : OneLine name e.returns e.params) :
    ∃ type body, Policy name e.kind e.returns e.params type body ∧
      ∀ (description : String) (columns : Nat), ∃ text header,
        source? name { e with description := description } columns = some text ∧
        header ≠ [] ∧ (∀ line ∈ header, ∃ rest, line = "    '" ++ rest) ∧
        Text.cutLines text.toList =
          ([opening e.params type] ++ header ++ body.map ("    " ++ ·) ++
            ["End Function", ""]).map String.toList := by
  obtain ⟨shape, hs, hp⟩ := exists_policy name hk
  refine ⟨_, _, hp, fun description columns => ?_⟩
  let d : Entry := { e with description := description }
  have hd : OneLine name d.returns d.params := h
  refine ⟨String.join ((lines name d shape columns).map (· ++ "\n")),
    (headerTexts name d shape columns).map fun text => bodyIndent ++ comment text, ?_, ?_, ?_, ?_⟩
  · exact congrArg (Option.map _) (hs : Shape.ofEntry? d = some shape)
  · simp [headerTexts]
  · intro line hl
    obtain ⟨text, -, rfl⟩ := List.mem_map.1 hl
    exact comment_marked text
  · rw [Text.cutLines_join (hd.lines shape columns)]
    have hfirst : declaration d shape = opening e.params (declaredType? e shape) :=
      declaration_eq d shape
    have hbody : bodyLines name d shape = bodyLines name e shape := rfl
    simp [lines, hfirst, hbody, bodyIndent]

/-- A subroutine that binds a result and takes an array. Its description would end the stub if it
    could. -/
theorem source_layout_fill : ∃ text header,
    source? "Fill" ⟨"Fills it.\nEnd Function\nx = Kill(1)", [⟨"pt()", "Long"⟩], ["n", "Long"],
      .subroutine⟩ 4 = some text ∧
    header ≠ [] ∧ (∀ line ∈ header, ∃ rest, line = "    '" ++ rest) ∧
    Text.cutLines text.toList =
      (["Function libfunct (pt() As Long) As Variant"] ++ header ++
        ["    Dim n As Long", "    n = Fill(pt)", "    libfunct = Array(n, pt)", "End Function",
          ""]).map String.toList := by
  have hline : OneLine "Fill" ["n", "Long"] [⟨"pt()", "Long"⟩] := by
    constructor <;> decide
  obtain ⟨type, body, hp, hs⟩ := @source_layout "Fill"
    ⟨"", [⟨"pt()", "Long"⟩], ["n", "Long"], .subroutine⟩ rfl hline
  obtain ⟨text, header, ht, hne, hh, hl⟩ := hs "Fills it.\nEnd Function\nx = Kill(1)" 4
  cases hp with
  | function hk => cases hk
  | several hk hr => cases hr
  | single hk hr => cases hr
  | bare hk hr => cases hr
  | bound hk hr =>
    cases hr
    exact ⟨text, header, ht, hne, hh, by rw [hl, List.append_assoc]; rfl⟩

end HelpMiner.Stub
