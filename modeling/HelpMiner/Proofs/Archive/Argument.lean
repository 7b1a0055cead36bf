import HelpMiner.Config.Basic
import HelpMiner.Proofs.Text.Replace

/-! The arguments of the program that unpacks an archive. Two replacements, one after the other, put
in the archive and the output at the same time just if no placeholder of the output arises from the
archive's name. -/
namespace HelpMiner.Decompiler

open Text (replaceChars writeMarks OnlyAtMarks ReplacesMarks)

/-- The placeholder of the archive. -/
def archiveMark : List Char := "\x7binput\x7d".toList

/-- The placeholder of the output directory. -/
def outputMark : List Char := "\x7boutput\x7d".toList

/-- A piece of an argument: a placeholder, or any other character. -/
inductive Piece where
  | archive
  | output
  | plain (c : Char)

/-- What stands for a piece. -/
def Piece.fill (input output : List Char) : Piece → List Char
  | .archive => input
  | .output => output
  | .plain c => [c]

/-- The pieces of an argument, from left to right. -/
def pieces (s : List Char) : List Piece :=
  match s with
  | [] => []
  | c :: rest =>
    if archiveMark.isPrefixOf (c :: rest) then
      .archive :: pieces (rest.drop (archiveMark.length - 1))
    else if outputMark.isPrefixOf (c :: rest) then
      .output :: pieces (rest.drop (outputMark.length - 1))
    else .plain c :: pieces rest
termination_by s.length
decreasing_by all_goals simp only [List.length_drop, List.length_cons]; omega

/-- The argument with both paths put in at the same time. -/
def substitute (input output : Path) (arg : String) : String :=
  String.ofList ((pieces arg.toList).flatMap (Piece.fill input.text.toList output.text.toList))

/-- The argument with the archive put in, and with marks for the placeholders of the output. -/
def withArchive (input : List Char) (ps : List Piece) : List (Option Char) :=
  ps.flatMap fun
    | .archive => input.map some
    | .output => [none]
    | .plain c => [some c]

/-- Where the placeholder of the output stands once the archive is put in, it has stood before. -/
def Settled (input : Path) (arg : String) : Prop :=
  OnlyAtMarks outputMark (withArchive input.text.toList (pieces arg.toList))

/-! ## Pieces -/

theorem archiveMark_eq : archiveMark = '\x7b' :: "input\x7d".toList := by decide

theorem outputMark_eq : outputMark = '\x7b' :: "output\x7d".toList := by decide

/-- The placeholders differ in their second characters. -/
theorem archiveMark_not_prefix_outputMark (rest : List Char) :
    ¬ archiveMark <+: outputMark ++ rest := by
  intro hp
  have htail := (List.cons_prefix_cons.1 hp).2
  exact absurd (List.cons_prefix_cons.1 htail).1 (by decide)

section Pieces

variable {c : Char} {rest : List Char}

theorem pieces_nil : pieces [] = [] := by rw [pieces]

theorem pieces_archive (rest : List Char) :
    pieces (archiveMark ++ rest) = .archive :: pieces rest := by
  have hfound : archiveMark.isPrefixOf (archiveMark ++ rest) = true :=
    List.isPrefixOf_iff_prefix.2 (List.prefix_append archiveMark rest)
  have hlength : archiveMark.length - 1 = "input\x7d".toList.length := by decide
  rw [archiveMark_eq, List.cons_append, ← archiveMark_eq] at hfound
  rw [archiveMark_eq, List.cons_append, pieces, if_pos hfound, hlength, List.drop_left]

theorem pieces_output (rest : List Char) :
    pieces (outputMark ++ rest) = .output :: pieces rest := by
  have hother : ¬ archiveMark.isPrefixOf (outputMark ++ rest) = true :=
    mt List.isPrefixOf_iff_prefix.1 (archiveMark_not_prefix_outputMark rest)
  have hfound : outputMark.isPrefixOf (outputMark ++ rest) = true :=
    List.isPrefixOf_iff_prefix.2 (List.prefix_append outputMark rest)
  have hlength : outputMark.length - 1 = "output\x7d".toList.length := by decide
  rw [outputMark_eq, List.cons_append, ← outputMark_eq] at hfound
  rw [outputMark_eq, List.cons_append] at hother
  rw [outputMark_eq, List.cons_append, pieces, if_neg hother, if_pos hfound, hlength,
    List.drop_left]

theorem pieces_plain (ha : ¬ archiveMark <+: c :: rest) (ho : ¬ outputMark <+: c :: rest) :
    pieces (c :: rest) = .plain c :: pieces rest := by
  rw [pieces, if_neg (by rwa [List.isPrefixOf_iff_prefix]),
    if_neg (by rwa [List.isPrefixOf_iff_prefix])]

/-- An argument is made of placeholders and of characters at which none begins. -/
theorem pieces_induction {P : List Char → Prop} (nil : P [])
    (archive : ∀ rest, P rest → P (archiveMark ++ rest))
    (output : ∀ rest, P rest → P (outputMark ++ rest))
    (plain : ∀ c rest, ¬ archiveMark <+: c :: rest → ¬ outputMark <+: c :: rest → P rest →
      P (c :: rest)) (s : List Char) : P s := by
  induction hn : s.length using Nat.strongRecOn generalizing s with
  | ind n ih =>
    subst hn
    by_cases ha : archiveMark <+: s
    · obtain ⟨rest, rfl⟩ := ha
      have hlt : rest.length < (archiveMark ++ rest).length := by
        rw [List.length_append]
        exact Nat.lt_add_of_pos_left (by decide)
      exact archive rest (ih _ hlt rest rfl)
    · by_cases ho : outputMark <+: s
      · obtain ⟨rest, rfl⟩ := ho
        have hlt : rest.length < (outputMark ++ rest).length := by
          rw [List.length_append]
          exact Nat.lt_add_of_pos_left (by decide)
        exact output rest (ih _ hlt rest rfl)
      · cases s with
        | nil => exact nil
        | cons c rest => exact plain c rest ha ho (ih _ (Nat.lt_succ_self _) rest rfl)

end Pieces

theorem writeMarks_withArchive (input output : List Char) (ps : List Piece) :
    writeMarks output (withArchive input ps) = ps.flatMap (Piece.fill input output) := by
  induction ps with
  | nil => rfl
  | cons p ps ih =>
    rw [withArchive, List.flatMap_cons, Text.writeMarks_append, ← withArchive, ih,
      List.flatMap_cons]
    cases p with
    | archive => rw [Text.writeMarks_map_some, Piece.fill]
    | output => rw [Text.writeMarks_mark, Text.writeMarks_nil, List.append_nil, Piece.fill]
    | plain c => rfl

/-! ## One replacement after the other -/

/-- The first replacement leaves the placeholders of the output as they are. -/
theorem replaceChars_archiveMark (input s : List Char) :
    replaceChars archiveMark input s =
      writeMarks outputMark (withArchive input (pieces s)) := by
  rw [writeMarks_withArchive]
  induction s using pieces_induction with
  | nil => rw [pieces_nil, List.flatMap_nil, replaceChars]
  | archive rest ih =>
    rw [pieces_archive, List.flatMap_cons, ← ih]
    exact Text.replaceChars_found input rest
  | output rest ih =>
    have hfirst := archiveMark_not_prefix_outputMark rest
    have hothers : replaceChars archiveMark input ("output\x7d".toList ++ rest) =
        "output\x7d".toList ++ replaceChars archiveMark input rest :=
      Text.replaceChars_plain_append (by decide) input rest
    rw [pieces_output, List.flatMap_cons, ← ih, Piece.fill]
    rw [outputMark_eq, List.cons_append] at hfirst ⊢
    rw [Text.replaceChars_kept hfirst, hothers, List.cons_append]
  | plain c rest ha ho ih =>
    rw [pieces_plain ha ho, List.flatMap_cons, ← ih, Text.replaceChars_kept ha]
    rfl

theorem fillIn_eq (input output : Path) (arg : String) :
    fillIn input output arg = String.ofList (replaceChars outputMark output.text.toList
      (writeMarks outputMark (withArchive input.text.toList (pieces arg.toList)))) := by
  change String.ofList (replaceChars outputMark output.text.toList
    (String.ofList (replaceChars archiveMark input.text.toList arg.toList)).toList) = _
  rw [String.toList_ofList, replaceChars_archiveMark]

/-- Whatever the output, it is put in where the argument has its placeholder, just if no other
placeholder arises. -/
theorem fillIn_eq_substitute_iff {input : Path} {arg : String} :
    (∀ output, fillIn input output arg = substitute input output arg) ↔ Settled input arg := by
  have hfirst : '\x7b' ∉ "output\x7d".toList := by decide
  have hmarks : Settled input arg ↔
      ReplacesMarks outputMark (withArchive input.text.toList (pieces arg.toList)) :=
    (Text.replacesMarks_iff hfirst).symm
  rw [hmarks]
  constructor
  · intro h new
    have hnew := h ⟨String.ofList new⟩
    rw [fillIn_eq, substitute, ← writeMarks_withArchive, String.ofList_inj] at hnew
    rwa [String.toList_ofList] at hnew
  · intro h output
    rw [fillIn_eq, substitute, ← writeMarks_withArchive, h]

/-! ## Names that settle every argument -/

section Plain

variable {input : List Char} (hclose : '\x7d' ∉ input) (hpart : ¬ input <:+: outputMark)

include hclose hpart in
/-- Such a name adds nothing that goes on with the placeholder. -/
theorem prefix_of_prefix_withArchive {s w : List Char} (hw : w <:+ "output\x7d".toList)
    (h : w <+: writeMarks outputMark (withArchive input (pieces s))) : w <+: s := by
  rw [writeMarks_withArchive] at h
  induction s using pieces_induction generalizing w with
  | nil => rwa [pieces_nil, List.flatMap_nil] at h
  | archive rest ih =>
    rw [pieces_archive, List.flatMap_cons] at h
    by_cases hne : w = []
    · rw [hne]
      exact List.nil_prefix
    · -- The name and what is left of the placeholder begin alike, but neither begins the other.
      obtain ⟨front, hfront⟩ := hw
      have hlast : w.getLast? = some '\x7d' := by
        rw [← List.getLast?_append_of_ne_nil front hne, hfront]
        decide
      obtain hin | hin := List.prefix_or_prefix_of_prefix h (List.prefix_append input _)
      · exact absurd (hin.subset (List.mem_of_getLast? hlast)) hclose
      · have hmark : '\x7b' :: front ++ w = outputMark := by
          rw [List.cons_append, hfront, outputMark_eq]
        exact absurd (hin.isInfix.trans (List.IsSuffix.isInfix ⟨_, hmark⟩)) hpart
  | output rest ih =>
    cases w with
    | nil => exact List.nil_prefix
    | cons d w =>
      rw [pieces_output, List.flatMap_cons, Piece.fill, outputMark_eq, List.cons_append] at h
      obtain ⟨rfl, -⟩ := List.cons_prefix_cons.1 h
      exact absurd (hw.subset List.mem_cons_self) (by decide)
  | plain c rest ha ho ih =>
    rw [pieces_plain ha ho, List.flatMap_cons] at h
    cases w with
    | nil => exact List.nil_prefix
    | cons d w =>
      obtain ⟨rfl, htail⟩ := List.cons_prefix_cons.1 h
      exact List.cons_prefix_cons.2 ⟨rfl, ih ((List.suffix_cons d w).trans hw) htail⟩

end Plain

/-- A name without braces, which is no stretch of the placeholder, settles every argument. -/
theorem settled_of_plain {input : Path} (hopen : '\x7b' ∉ input.text.toList)
    (hclose : '\x7d' ∉ input.text.toList) (hpart : ¬ input.text.toList <:+: outputMark)
    (arg : String) : Settled input arg := by
  unfold Settled
  generalize arg.toList = s
  induction s using pieces_induction with
  | nil =>
    rw [pieces_nil]
    exact Text.onlyAtMarks_nil
  | archive rest ih =>
    rw [pieces_archive]
    exact (Text.onlyAtMarks_plain_append hopen).2 ih
  | output rest ih =>
    rw [pieces_output]
    exact (Text.onlyAtMarks_mark (by decide)).2 ih
  | plain c rest ha ho ih =>
    rw [pieces_plain ha ho]
    refine Text.onlyAtMarks_plain.2 ⟨fun hp => ?_, ih⟩
    obtain ⟨rfl, htail⟩ := List.cons_prefix_cons.1 hp
    have hrest := prefix_of_prefix_withArchive hclose hpart List.suffix_rfl htail
    exact ho (List.cons_prefix_cons.2 ⟨rfl, hrest⟩)

/-- The arguments have both paths put in at the same time, whatever the output is, just if the
archive's name lets no other placeholder of the output arise. A name without braces that is no
stretch of the placeholder never does. -/
theorem arguments_simultaneous_iff (d : Decompiler) (input : Path) :
    ((∀ output, d.arguments input output = d.args.map (substitute input output)) ↔
      ∀ arg ∈ d.args, Settled input arg) ∧
    ('\x7b' ∉ input.text.toList → '\x7d' ∉ input.text.toList →
      ¬ input.text.toList <:+: outputMark → ∀ arg, Settled input arg) := by
  refine ⟨?_, settled_of_plain⟩
  unfold arguments
  constructor
  · intro h arg harg
    exact fillIn_eq_substitute_iff.1 fun output => List.map_inj_left.1 (h output) arg harg
  · intro h output
    exact List.map_inj_left.2 fun arg harg => fillIn_eq_substitute_iff.2 (h arg harg) output

/-- The usual arguments, for an archive of the usual name. -/
theorem arguments_simultaneous_fred (output : Path) :
    default.arguments ⟨"Fred.chm"⟩ output =
      default.args.map (substitute ⟨"Fred.chm"⟩ output) := by
  have hopen : '\x7b' ∉ "Fred.chm".toList := by decide
  have hclose : '\x7d' ∉ "Fred.chm".toList := by decide
  have hpart : ¬ "Fred.chm".toList <:+: outputMark := fun h =>
    absurd (h.subset (show 'F' ∈ "Fred.chm".toList by decide)) (by decide)
  obtain ⟨hiff, hplain⟩ := arguments_simultaneous_iff default ⟨"Fred.chm"⟩
  exact hiff.2 (fun arg _ => hplain hopen hclose hpart arg) output

/-- A placeholder in the archive's name is filled in as well. -/
theorem output_in_archive_name :
    default.arguments ⟨"\x7boutput\x7d.chm"⟩ ⟨"html"⟩ = ["-decompile", "html", "html.chm"] ∧
    default.args.map (substitute ⟨"\x7boutput\x7d.chm"⟩ ⟨"html"⟩) =
      ["-decompile", "html", "\x7boutput\x7d.chm"] := by
  decide +kernel

end HelpMiner.Decompiler
