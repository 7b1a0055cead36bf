import HelpMiner.Proofs.Page.Normal
import HelpMiner.Proofs.Text.Letter
import HelpMiner.Render.Topic

/-! The rendering of a topic holds all its text, up to white space, and every line of a section stands
under the indent that its number gives it. -/
namespace HelpMiner.Render

open Text (isBlank)
open Page (ink)

/-! ## Blanks before commas -/

/-- The text `s` with the blanks before some of its commas left out. -/
inductive Tightened : List Char → List Char → Prop
  | nil : Tightened [] []
  | keep (c : Char) {s t : List Char} (h : Tightened s t) : Tightened (c :: s) (c :: t)
  | comma {gap s t : List Char} (hgap : ∀ c ∈ gap, isBlank c = true) (h : Tightened s t) :
      Tightened (gap ++ ',' :: s) (',' :: t)

/-- No blank stands immediately before a comma. -/
def Tight (t : List Char) : Prop :=
  ∀ front c back, t = front ++ c :: ',' :: back → isBlank c = false

/-- The text `s` without the blanks before its commas. -/
structure IsTightened (s t : List Char) : Prop where
  tightened : Tightened s t
  tight : Tight t

theorem tight_nil : Tight [] := by
  intro front c back h
  exact absurd h.symm (List.append_ne_nil_of_right_ne_nil front (List.cons_ne_nil c _))

theorem tight_cons {c : Char} {t : List Char} :
    Tight (c :: t) ↔ (t.head? = some ',' → isBlank c = false) ∧ Tight t := by
  constructor
  · intro h
    constructor
    · intro hcomma
      obtain ⟨back, rfl⟩ := List.head?_eq_some_iff.1 hcomma
      exact h [] c back rfl
    · rintro front d back rfl
      exact h (c :: front) d back rfl
  · rintro ⟨hc, ht⟩ front d back h
    cases front with
    | nil =>
      obtain ⟨rfl, rfl⟩ := List.cons.inj h
      exact hc rfl
    | cons e front => exact ht front d back (List.cons.inj h).2

/-- A comma comes next, after any blanks. -/
def BeforeComma (s : List Char) : Prop := (s.dropWhile isBlank).head? = some ','

theorem beforeComma_iff {s : List Char} :
    BeforeComma s ↔ ∃ gap rest, s = gap ++ ',' :: rest ∧ ∀ c ∈ gap, isBlank c = true := by
  unfold BeforeComma
  constructor
  · intro h
    obtain ⟨rest, hrest⟩ := List.head?_eq_some_iff.1 h
    refine ⟨s.takeWhile isBlank, rest, ?_, fun c hc => List.mem_takeWhile_imp hc⟩
    rw [← hrest, List.takeWhile_append_dropWhile]
  · rintro ⟨gap, rest, rfl, hgap⟩
    rw [List.dropWhile_append_of_pos hgap]
    rfl

theorem tightenCommas_nil : tightenCommas [] = [] := by rw [tightenCommas.eq_def]

theorem tightenCommas_cons (c : Char) (rest : List Char) : tightenCommas (c :: rest) =
    if isBlank c && (rest.dropWhile isBlank).head? == some ',' then
      tightenCommas (rest.dropWhile isBlank)
    else c :: tightenCommas rest := by
  rw [tightenCommas.eq_def]

theorem tightenCommas_cons_of_pos {c : Char} {rest : List Char} (hc : isBlank c = true)
    (h : BeforeComma rest) :
    tightenCommas (c :: rest) = tightenCommas (rest.dropWhile isBlank) := by
  have hguard : (isBlank c && (rest.dropWhile isBlank).head? == some ',') = true := by
    rw [hc, Bool.true_and, beq_iff_eq]
    exact h
  rw [tightenCommas_cons, if_pos hguard]

theorem tightenCommas_cons_of_neg {c : Char} {rest : List Char}
    (h : isBlank c = true → ¬ BeforeComma rest) :
    tightenCommas (c :: rest) = c :: tightenCommas rest := by
  have hguard : ¬ (isBlank c && (rest.dropWhile isBlank).head? == some ',') = true := by
    rw [Bool.and_eq_true, beq_iff_eq]
    exact fun hboth => h hboth.1 hboth.2
  rw [tightenCommas_cons, if_neg hguard]

theorem tightenCommas_comma {gap : List Char} (hgap : ∀ c ∈ gap, isBlank c = true)
    (rest : List Char) : tightenCommas (gap ++ ',' :: rest) = ',' :: tightenCommas rest := by
  have hcomma : tightenCommas (',' :: rest) = ',' :: tightenCommas rest :=
    tightenCommas_cons_of_neg fun hblank => by cases hblank
  cases gap with
  | nil => exact hcomma
  | cons c gap =>
    obtain ⟨hc, hgap⟩ := List.forall_mem_cons.1 hgap
    have hnext : BeforeComma (gap ++ ',' :: rest) := beforeComma_iff.2 ⟨gap, rest, rfl, hgap⟩
    rw [List.cons_append, tightenCommas_cons_of_pos hc hnext, List.dropWhile_append_of_pos hgap]
    exact hcomma

/-- A text is empty, or it begins with a comma after blanks, or with a character that stays. -/
theorem tighten_induction {motive : List Char → Prop} (nil : motive [])
    (comma : ∀ gap rest, (∀ c ∈ gap, isBlank c = true) → motive rest →
      motive (gap ++ ',' :: rest))
    (keep : ∀ c rest, (isBlank c = true → ¬ BeforeComma rest) → motive rest → motive (c :: rest))
    (s : List Char) : motive s := by
  induction hn : s.length using Nat.strong_induction_on generalizing s with
  | _ n ih =>
    subst hn
    by_cases hcomma : BeforeComma s
    · obtain ⟨gap, rest, rfl, hgap⟩ := beforeComma_iff.1 hcomma
      refine comma gap rest hgap (ih rest.length ?_ rest rfl)
      rw [List.length_append, List.length_cons]
      omega
    · cases s with
      | nil => exact nil
      | cons c rest =>
        refine keep c rest (fun hc hrest => hcomma ?_) (ih rest.length (by simp) rest rfl)
        unfold BeforeComma at hrest ⊢
        rwa [List.dropWhile_cons_of_pos hc]

theorem head?_tightenCommas {s : List Char} (h : (tightenCommas s).head? = some ',') :
    BeforeComma s := by
  induction s using tighten_induction with
  | nil => exact absurd h (by simp [tightenCommas_nil])
  | comma gap rest hgap ih => exact beforeComma_iff.2 ⟨gap, rest, rfl, hgap⟩
  | keep c rest hc ih =>
    rw [tightenCommas_cons_of_neg hc] at h
    obtain rfl : c = ',' := Option.some.inj h
    exact beforeComma_iff.2 ⟨[], rest, rfl, List.forall_mem_nil _⟩

theorem isTightened_tightenCommas (s : List Char) : IsTightened s (tightenCommas s) := by
  induction s using tighten_induction with
  | nil =>
    rw [tightenCommas_nil]
    exact ⟨Tightened.nil, tight_nil⟩
  | comma gap rest hgap ih =>
    rw [tightenCommas_comma hgap]
    exact ⟨Tightened.comma hgap ih.tightened, tight_cons.2 ⟨fun _ => by decide, ih.tight⟩⟩
  | keep c rest hc ih =>
    rw [tightenCommas_cons_of_neg hc]
    refine ⟨Tightened.keep c ih.tightened, tight_cons.2 ⟨fun hcomma => ?_, ih.tight⟩⟩
    exact Bool.eq_false_of_not_eq_true fun hblank => hc hblank (head?_tightenCommas hcomma)

/-- All blanks before commas are left out, and nothing else. -/
theorem isTightened_iff {s t : List Char} : IsTightened s t ↔ t = tightenCommas s := by
  constructor
  · rintro ⟨h, ht⟩
    induction h with
    | nil => exact tightenCommas_nil.symm
    | keep c h ih =>
      obtain ⟨hc, ht⟩ := tight_cons.1 ht
      obtain rfl := ih ht
      rw [tightenCommas_cons_of_neg fun hblank hnext => ?_]
      obtain ⟨gap, rest, rfl, hgap⟩ := beforeComma_iff.1 hnext
      rw [tightenCommas_comma hgap, hblank] at hc
      exact Bool.noConfusion (hc rfl)
    | comma hgap h ih => rw [tightenCommas_comma hgap, ih (tight_cons.1 ht).2]
  · rintro rfl
    exact isTightened_tightenCommas s

theorem Tightened.ink_eq {s t : List Char} (h : Tightened s t) : ink t = ink s := by
  induction h with
  | nil => rfl
  | keep c h ih => rw [Page.ink_cons, ih, ← Page.ink_cons]
  | comma hgap h ih =>
    rw [Page.ink_append, Page.ink_blanks hgap, List.nil_append, Page.ink_cons, ih, ← Page.ink_cons]

/-! ## Indents -/

/-- Headings that begin with one of two words in any letter case. Only the letters A to Z have the
letters of these words for their lower case. -/
def Paired (heading : String) : Prop :=
  ∃ lead ∈ ["param", "member"], lead.toList <+: Text.lower heading.toList

theorem isPaired_iff {heading : String} : isPaired heading = true ↔ Paired heading := by
  have hlower : ∀ lead ∈ ["param", "member"], Text.lower lead.toList = lead.toList := by decide
  unfold isPaired Paired
  rw [List.any_eq_true]
  refine exists_congr fun lead => and_congr_right fun hlead => ?_
  rw [Text.startsWithLetters_iff, hlower lead hlead]
  constructor
  · rintro ⟨front, rest, hheading, hfront⟩
    rw [hheading, Text.lower_append, hfront]
    exact List.prefix_append _ _
  · rintro ⟨more, hmore⟩
    obtain ⟨front, rest, hheading, hfront, -⟩ := List.map_eq_append_iff.1 hmore.symm
    exact ⟨front, rest, hheading, hfront⟩

instance (heading : String) : Decidable (Paired heading) := decidable_of_iff _ isPaired_iff

/-- The indent of a line of a section, by the number of the line. -/
def lineIndent (heading : String) (i : Nat) : String :=
  if i % 2 = 1 ∧ Paired heading then "    " else "  "

/-- A line with its indent. -/
def indentedLine (heading : String) (i : Nat) (line : List Char) : List Char :=
  (lineIndent heading i).toList ++ line

theorem lineIndent_blank {heading : String} {i : Nat} :
    ∀ c ∈ (lineIndent heading i).toList, c = ' ' := by
  unfold lineIndent
  split
  · simp
  · simp

theorem indented_eq (heading : String) (lines : List (List Char)) (n : Nat) :
    indented (isPaired heading) (n % 2 == 1) lines =
      String.join (lines.mapIdx fun i line =>
        String.ofList (indentedLine heading (i + n) line) ++ "\n") := by
  induction lines generalizing n with
  | nil => rfl
  | cons line rest ih =>
    have hnext : (!(n % 2 == 1)) = ((n + 1) % 2 == 1) := by
      obtain hn | hn := Nat.mod_two_eq_zero_or_one n
      · simp [hn, Nat.add_mod]
      · simp [hn, Nat.add_mod]
    have hindent : (if (isPaired heading && n % 2 == 1) = true then indent ++ indent else indent) =
        lineIndent heading n := by
      unfold lineIndent
      simp only [← isPaired_iff, Bool.and_eq_true, beq_iff_eq, and_comm]
      rfl
    have hshift : ∀ i, i + (n + 1) = i + 1 + n := by omega
    rw [indented, hnext, ih, hindent, List.mapIdx_cons, String.join_cons, Nat.zero_add]
    simp only [hshift, indentedLine, String.ofList_append, String.ofList_toList]

/-- In a line with its indent, a blank immediately before a comma is the end of the indent. -/
theorem eq_lineIndent_of_blank {line : List Char} (h : Tight line) {heading : String} {i : Nat}
    {front back : List Char} {c : Char}
    (hline : indentedLine heading i line = front ++ c :: ',' :: back) (hc : isBlank c = true) :
    front ++ [c] = (lineIndent heading i).toList := by
  have hfree : ∀ before, line ≠ before ++ c :: ',' :: back := by
    intro before hbefore
    rw [h before c back hbefore] at hc
    cases hc
  unfold indentedLine at hline
  rw [List.append_eq_append_iff] at hline
  obtain ⟨before, -, hbefore⟩ | ⟨last, hindent, hlast⟩ := hline
  · exact absurd hbefore (hfree before)
  · cases last with
    | nil => exact absurd hlast.symm (hfree [])
    | cons d last =>
      obtain ⟨rfl, htail⟩ := List.cons.inj hlast
      cases last with
      | nil => exact hindent.symm
      | cons e last =>
        obtain ⟨rfl, -⟩ := List.cons.inj htail
        have hcomma : ',' ∈ (lineIndent heading i).toList := by simp [hindent]
        exact absurd (lineIndent_blank ',' hcomma) (by decide)

/-! ## Topics -/

/-- A section as it is laid out: its heading, and then the lines of its text without the blanks
before commas, each with its indent. -/
def LaidOut (heading text block : String) : Prop :=
  ∃ tight, (∀ t, IsTightened text.toList t ↔ t = tight) ∧
    block = "\n" ++ heading ++ ":\n" ++ String.join ((Text.cutLines tight).mapIdx fun i line =>
      String.ofList (indentedLine heading i line) ++ "\n") ∧
    ∀ line ∈ Text.cutLines tight, ∀ i front c back,
      indentedLine heading i line = front ++ c :: ',' :: back → isBlank c = true →
        front ++ [c] = (lineIndent heading i).toList

theorem laidOut_sectionText (heading text : String) :
    LaidOut heading text (sectionText heading text) := by
  have htight := (isTightened_tightenCommas text.toList).tight
  refine ⟨_, fun _ => isTightened_iff, ?_, fun line hline i front c back hsplit hc => ?_⟩
  · exact congrArg _ (indented_eq heading (Text.cutLines (tightenCommas text.toList)) 0)
  · refine eq_lineIndent_of_blank ?_ hsplit hc
    obtain ⟨before, after, hinfix⟩ := Text.isInfix_of_mem_cutWhere hline
    rintro start d rest rfl
    exact htight (before ++ start) d (rest ++ after) (by rw [← hinfix]; simp)

theorem ink_join (texts : List String) :
    ink (String.join texts).toList = texts.flatMap fun text => ink text.toList := by
  induction texts with
  | nil => rfl
  | cons text rest ih =>
    rw [String.join_cons, String.toList_append, Page.ink_append, ih, List.flatMap_cons]

theorem ink_indented (paired second : Bool) (lines : List (List Char)) :
    ink (indented paired second lines).toList = ink lines.flatten := by
  induction lines generalizing second with
  | nil => rfl
  | cons line rest ih =>
    have hindent : ink (if (paired && second) = true then indent ++ indent else indent).toList =
        [] := by
      split
      · decide
      · decide
    have hfeed : ink "\n".toList = [] := by decide
    calc ink (indented paired second (line :: rest)).toList
        = ink (if (paired && second) = true then indent ++ indent else indent).toList ++
            ink line ++ ink "\n".toList ++ ink (indented paired (!second) rest).toList := by
          simp only [indented, String.toList_append, String.toList_ofList, Page.ink_append]
      _ = ink line ++ ink rest.flatten := by
          rw [hindent, hfeed, ih, List.nil_append, List.append_nil]
      _ = ink (line :: rest).flatten := by rw [List.flatten_cons, Page.ink_append]

theorem ink_cutLines (s : List Char) : ink (Text.cutLines s).flatten = ink s := by
  have hfeed : isBlank '\n' = true := by decide
  unfold Text.cutLines ink
  rw [Text.flatten_cutWhere, List.filter_filter]
  apply List.filter_congr
  intro c _
  by_cases hc : c = '\n'
  · rw [hc, hfeed]
    rfl
  · simp [hc]

theorem ink_sectionText (heading text : String) :
    ink (sectionText heading text).toList = ink heading.toList ++ ':' :: ink text.toList := by
  have hfeed : ink "\n".toList = [] := by decide
  have hcolon : ink ":\n".toList = [':'] := by decide
  have htight := (isTightened_tightenCommas text.toList).tightened.ink_eq
  calc ink (sectionText heading text).toList
      = ink "\n".toList ++ ink heading.toList ++ ink ":\n".toList ++
          ink (Text.cutLines (tightenCommas text.toList)).flatten := by
        simp only [sectionText, String.toList_append, Page.ink_append, ink_indented]
    _ = ink heading.toList ++ [':'] ++ ink text.toList := by
        rw [ink_cutLines, htight, hfeed, hcolon, List.nil_append]
    _ = ink heading.toList ++ ':' :: ink text.toList := by
        rw [List.append_assoc, List.singleton_append]

theorem ink_rule {c : Char} (hc : isBlank c = false) (width : Nat) :
    ink (rule c width).toList = List.replicate width c := by
  unfold rule ink
  rw [String.toList_ofList, List.filter_replicate_of_pos (by rw [hc]; rfl)]

/-- The rendering of a topic has all ink of the topic under its rules, and each section is laid out
line by line. -/
theorem topic_layout (name : String) (doc : Doc) :
    ink (topic name doc).toList =
      List.replicate 80 '=' ++ "TOPIC:".toList ++ ink name.toList ++
        List.replicate (name.length + 8) '-' ++
        (doc.entries.flatMap fun e => ink e.1.toList ++ ':' :: ink e.2.toList) ∧
    ∃ blocks : List String,
      topic name doc = "\n" ++ rule '=' 80 ++ "\nTOPIC: " ++ name ++ "\n" ++
        rule '-' (name.length + 8) ++ "\n" ++ String.join blocks ∧
      List.Forall₂ (fun e block => LaidOut e.1 e.2 block) doc.entries blocks := by
  constructor
  · have hfeed : ink "\n".toList = [] := by decide
    have htitle : ink "\nTOPIC: ".toList = "TOPIC:".toList := by decide
    unfold topic
    simp only [String.toList_append, Page.ink_append, ink_join, List.flatMap_map, ink_sectionText,
      ink_rule (show isBlank '=' = false by decide), ink_rule (show isBlank '-' = false by decide),
      hfeed, htitle, List.nil_append, List.append_nil]
  · refine ⟨doc.entries.map fun e => sectionText e.1 e.2, by rw [topic], ?_⟩
    rw [List.forall₂_map_right_iff, List.forall₂_same]
    exact fun e _ => laidOut_sectionText e.1 e.2

end HelpMiner.Render
