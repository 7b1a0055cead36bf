import HelpMiner.Proofs.Markup.Canonical
import HelpMiner.Proofs.Page.Normal
import HelpMiner.Proofs.Page.Streaming
import HelpMiner.Proofs.Signature.Block
import HelpMiner.Proofs.Table.Ordered

/-! What a page of a usual form tells, from its markup to the entry of its command. -/
namespace HelpMiner.Page

open Markup (Token tokensForm tokenForm Lexical Folded)
open Signature (Declared)

/-! ## Pages -/

/-- A text in markup: ampersands and opening angles by name. -/
def written (s : String) : List Char :=
  s.toList.flatMap fun c => if c = '&' then "&amp;".toList else if c = '<' then "&lt;".toList else [c]

/-- The line `name As type`. -/
def declarationLine (d : Declared) : List Char := d.name ++ (" As ".toList ++ d.type)

/-- The page of a command with a description, a usage and declared parameters. -/
def pageText (description usage : String) (ds : List Declared) : String :=
  String.ofList
    ("<body><span class=\"ts14\">Description</span>".toList ++ written description ++
      "<span class=\"ts14\">Syntax</span>".toList ++ written usage ++
      "<span class=\"ts7\">Parameters</span>".toList ++
      "<br>".toList.intercalate (ds.map declarationLine) ++ "</body>".toList)

/-! ## Tokens -/

/-- The tokens of a heading. -/
def headingTokens (class_ heading : String) : List Token :=
  [.startTag "span" [("class", class_)] false, .text heading, .endTag "span"]

/-- The tokens of a text: none, if it is empty. -/
def textTokens (s : String) : List Token := if s = "" then [] else [.text s]

/-- The tag of a line break. -/
def breakTag : Token := .startTag "br" [] false

/-- The tokens of declarations with line breaks between them. -/
def lineTokens : List Declared → List Token
  | [] => []
  | [d] => [.text (String.ofList (declarationLine d))]
  | d :: e :: ds => .text (String.ofList (declarationLine d)) :: breakTag :: lineTokens (e :: ds)

/-- The tokens of a page. -/
def pageTokens (description usage : String) (ds : List Declared) : List Token :=
  .startTag "body" [] false :: (headingTokens "ts14" "Description" ++ (textTokens description ++
    (headingTokens "ts14" "Syntax" ++ (textTokens usage ++
      (headingTokens "ts7" "Parameters" ++ (lineTokens ds ++ [.endTag "body"]))))))

theorem eq_of_mem_textTokens {s : String} {t : Token} (ht : t ∈ textTokens s) : t = .text s := by
  unfold textTokens at ht
  split at ht
  · cases ht
  · exact List.mem_singleton.1 ht

theorem eq_of_mem_lineTokens {ds : List Declared} {t : Token} (ht : t ∈ lineTokens ds) :
    t = breakTag ∨ ∃ s, t = .text s := by
  fun_induction lineTokens ds with
  | case1 => cases ht
  | case2 d => exact .inr ⟨_, List.mem_singleton.1 ht⟩
  | case3 d e ds ih =>
    obtain rfl | ht := List.mem_cons.1 ht
    · exact .inr ⟨_, rfl⟩
    · obtain rfl | ht := List.mem_cons.1 ht
      · exact .inl rfl
      · exact ih ht

theorem escapeChar_plain {c : Char} (ha : c ≠ '&') (hl : c ≠ '<') :
    Markup.escapeChar Markup.textNames c = [c] := by
  have hfa : ('&' == c) = false := beq_eq_false_iff_ne.2 ha.symm
  have hfl : ('<' == c) = false := beq_eq_false_iff_ne.2 hl.symm
  simp [Markup.escapeChar, Markup.textNames, hfa, hfl]

theorem escape_plain {s : List Char} (hs : ∀ c ∈ s, c ≠ '&' ∧ c ≠ '<') :
    Markup.escape Markup.textNames s = s := by
  unfold Markup.escape
  induction s with
  | nil => rfl
  | cons c rest ih =>
    obtain ⟨ha, hl⟩ := hs c List.mem_cons_self
    rw [List.flatMap_cons, escapeChar_plain ha hl, ih fun d hd => hs d (List.mem_cons_of_mem c hd)]
    rfl

theorem written_eq (s : String) : written s = Markup.escape Markup.textNames s.toList := by
  unfold written Markup.escape
  refine List.flatMap_congr fun c _ => ?_
  by_cases ha : c = '&'
  · subst ha; rfl
  · by_cases hl : c = '<'
    · subst hl; rfl
    · rw [if_neg ha, if_neg hl, escapeChar_plain ha hl]

theorem declarationLine_plain (d : Declared) :
    ∀ c ∈ declarationLine d, c ≠ '&' ∧ c ≠ '<' ∧ isBreak c = false := by
  have hword : ∀ c, Text.isWord c = true → c ≠ '&' ∧ c ≠ '<' ∧ isBreak c = false := by
    intro c hc
    refine ⟨?_, ?_, ?_⟩
    · rintro rfl
      exact absurd hc (by decide)
    · rintro rfl
      exact absurd hc (by decide)
    · by_contra hb
      have hblank := isBlank_of_isBreak (Bool.eq_true_of_not_eq_false hb)
      rw [Text.isWord_of_isBlank hblank] at hc
      cases hc
  have hmarks : ∀ c ∈ d.marks, c ≠ '&' ∧ c ≠ '<' ∧ isBreak c = false := by
    have hall : ∀ c ∈ ['(', ')'], c ≠ '&' ∧ c ≠ '<' ∧ isBreak c = false := by
      simp only [List.forall_mem_cons, List.not_mem_nil, false_implies, implies_true, and_true]
      decide
    unfold Declared.marks
    by_cases ha : d.isArray = true
    · rwa [if_pos ha]
    · rw [if_neg ha]
      simp
  have hconnector : ∀ c ∈ " As ".toList, c ≠ '&' ∧ c ≠ '<' ∧ isBreak c = false := by
    change ∀ c ∈ [' ', 'A', 's', ' '], c ≠ '&' ∧ c ≠ '<' ∧ isBreak c = false
    simp only [List.forall_mem_cons, List.not_mem_nil, false_implies, implies_true, and_true]
    decide
  intro c hc
  unfold declarationLine Declared.name at hc
  simp only [List.mem_append] at hc
  rcases hc with (hc | hc) | hc | hc
  · exact hword c (d.isIdent.isWord c hc)
  · exact hmarks c hc
  · exact hconnector c hc
  · exact hword c (d.isType.isWord c hc)

theorem declarationLine_inked (d : Declared) : Text.Inked (declarationLine d) :=
  d.name_inked.append d.isType.inked _

theorem declarationLine_ne_nil (d : Declared) : declarationLine d ≠ [] := by
  obtain ⟨c, rest, h, -⟩ := (declarationLine_inked d).first
  rw [h]
  exact List.cons_ne_nil c rest

/-! ## The tokens of a page -/

theorem tokensForm_tag {t : Token} (ht : ∀ s, t ≠ .text s) (rest : List Token) :
    tokensForm (t :: rest) = tokenForm t ++ tokensForm rest := by
  rw [tokensForm, Markup.gap_tag ht, List.nil_append]

theorem tokensForm_text (s : String) {rest : List Token}
    (hr : ∀ u ∈ rest.head?, ∀ s, u ≠ .text s) :
    tokensForm (.text s :: rest) = tokenForm (.text s) ++ tokensForm rest := by
  cases rest with
  | nil => rfl
  | cons u rest =>
    cases u with
    | text content => exact absurd rfl (hr _ rfl content)
    | startTag => rfl
    | endTag => rfl

theorem tokensForm_textTokens (s : String) {rest : List Token}
    (hr : ∀ u ∈ rest.head?, ∀ s, u ≠ .text s) :
    tokensForm (textTokens s ++ rest) = written s ++ tokensForm rest := by
  unfold textTokens
  by_cases hs : s = ""
  · subst hs
    rfl
  · rw [if_neg hs, List.singleton_append, tokensForm_text s hr, tokenForm, written_eq]

theorem tokensForm_headingTokens (class_ heading : String) (rest : List Token) :
    tokensForm (headingTokens class_ heading ++ rest) =
      tokenForm (.startTag "span" [("class", class_)] false) ++
        (tokenForm (.text heading) ++ (tokenForm (.endTag "span") ++ tokensForm rest)) := by
  change tokensForm (Token.startTag "span" [("class", class_)] false :: .text heading ::
    .endTag "span" :: rest) = _
  rw [tokensForm_tag (by simp), tokensForm_text heading (by simp), tokensForm_tag (by simp)]

theorem tokensForm_lineTokens (ds : List Declared) :
    tokensForm (lineTokens ds ++ [.endTag "body"]) =
      "<br>".toList.intercalate (ds.map declarationLine) ++ "</body>".toList := by
  have htext : ∀ d : Declared, tokenForm (.text (String.ofList (declarationLine d))) =
      declarationLine d := by
    intro d
    rw [tokenForm, String.toList_ofList, escape_plain fun c hc =>
      ⟨(declarationLine_plain d c hc).1, (declarationLine_plain d c hc).2.1⟩]
  fun_induction lineTokens ds with
  | case1 => rfl
  | case2 d =>
    rw [List.singleton_append, tokensForm_text _ (by simp), htext, List.map_singleton,
      List.intercalate_singleton]
    rfl
  | case3 d e ds ih =>
    rw [List.cons_append, List.cons_append, tokensForm_text _ (by simp [breakTag]), htext,
      tokensForm_tag (by simp [breakTag]), ih]
    simp only [List.map_cons, List.intercalate_cons_cons, List.append_assoc]
    rfl

theorem pageText_eq (description usage : String) (ds : List Declared) :
    pageText description usage ds = Markup.serialize (pageTokens description usage ds) := by
  unfold pageText Markup.serialize pageTokens
  rw [tokensForm_tag (by simp), tokensForm_headingTokens,
    tokensForm_textTokens _ (by simp [headingTokens]), tokensForm_headingTokens,
    tokensForm_textTokens _ (by simp [headingTokens]), tokensForm_headingTokens,
    tokensForm_lineTokens]
  simp [tokenForm, Markup.attrForm, Markup.closeForm, Markup.escape, Markup.escapeChar,
    Markup.textNames, Markup.valueNames]

theorem lexical_append {ts us : List Token} (ht : Lexical ts) (hr : ∀ t ∈ ts, t.rawBody? = none)
    (hu : Lexical us) : Lexical (ts ++ us) := by
  induction ts with
  | nil => exact hu
  | cons t rest ih =>
    refine ⟨ht.1, fun name hn => ?_, ih ht.2.2 fun u h => hr u (List.mem_cons_of_mem t h)⟩
    rw [hr t List.mem_cons_self] at hn
    cases hn

theorem lexical_headingTokens {class_ heading : String} (hh : heading.toList ≠ []) :
    Lexical (headingTokens class_ heading) := by
  have hspan : Folded Markup.isTagNameChar "span" :=
    ⟨by decide, List.all_eq_true.1 (by decide), by decide⟩
  have hclass : Folded Markup.isKeyChar "class" :=
    ⟨by decide, List.all_eq_true.1 (by decide), by decide⟩
  have hraw : (Token.startTag "span" [("class", class_)] false).rawBody? = none := rfl
  refine ⟨⟨hspan, ⟨'s', rfl, by decide⟩, by simpa using hclass⟩, ?_, hh, ?_, hspan, ?_, trivial⟩
  · rw [hraw]
    rintro name ⟨⟩
  · rintro name ⟨⟩
  · rintro name ⟨⟩

theorem lexical_textTokens (s : String) : Lexical (textTokens s) := by
  unfold textTokens
  by_cases hs : s = ""
  · rw [if_pos hs]
    trivial
  · rw [if_neg hs]
    refine ⟨fun h => hs (String.toList_eq_nil_iff.1 h), ?_, trivial⟩
    rintro name ⟨⟩

theorem lexical_lineTokens (ds : List Declared) : Lexical (lineTokens ds) := by
  have htext : ∀ d : Declared, (Token.text (String.ofList (declarationLine d))).Lexical := by
    intro d
    change (String.ofList (declarationLine d)).toList ≠ []
    rw [String.toList_ofList]
    exact declarationLine_ne_nil d
  have hbr : Folded Markup.isTagNameChar "br" :=
    ⟨by decide, List.all_eq_true.1 (by decide), by decide⟩
  have hraw : breakTag.rawBody? = none := rfl
  fun_induction lineTokens ds with
  | case1 => trivial
  | case2 d =>
    refine ⟨htext d, ?_, trivial⟩
    rintro name ⟨⟩
  | case3 d e ds ih =>
    refine ⟨htext d, ?_, ⟨hbr, ⟨'b', rfl, by decide⟩, by simp⟩, ?_, ih⟩
    · rintro name ⟨⟩
    · rw [hraw]
      rintro name ⟨⟩

/-- A page is read as its headings, texts and line breaks. -/
theorem tokenize_pageText (description usage : String) (ds : List Declared) :
    Markup.tokenize (pageText description usage ds) = pageTokens description usage ds := by
  have hbody : Folded Markup.isTagNameChar "body" :=
    ⟨by decide, List.all_eq_true.1 (by decide), by decide⟩
  have hstart : Lexical [Token.startTag "body" [] false] :=
    ⟨⟨hbody, ⟨'b', rfl, by decide⟩, by simp⟩, by rintro name ⟨⟩, trivial⟩
  have hend : Lexical [Token.endTag "body"] := ⟨hbody, by rintro name ⟨⟩, trivial⟩
  have hheading : ∀ c h, ∀ t ∈ headingTokens c h, t.rawBody? = none := by
    intro c h
    simp only [headingTokens, List.forall_mem_cons, List.not_mem_nil, false_implies, implies_true,
      and_true]
    exact ⟨rfl, rfl, rfl⟩
  have htext : ∀ s, ∀ t ∈ textTokens s, t.rawBody? = none := by
    intro s t ht
    rw [eq_of_mem_textTokens ht]
    rfl
  have hline : ∀ t ∈ lineTokens ds, t.rawBody? = none := by
    intro t ht
    obtain rfl | ⟨s, rfl⟩ := eq_of_mem_lineTokens ht
    · rfl
    · rfl
  have hpage : Lexical (pageTokens description usage ds) := by
    refine lexical_append hstart (by simp [Token.rawBody?, Markup.isRawElement]) ?_
    refine lexical_append (lexical_headingTokens (by decide)) (hheading _ _) ?_
    refine lexical_append (lexical_textTokens _) (htext _) ?_
    refine lexical_append (lexical_headingTokens (by decide)) (hheading _ _) ?_
    refine lexical_append (lexical_textTokens _) (htext _) ?_
    refine lexical_append (lexical_headingTokens (by decide)) (hheading _ _) ?_
    exact lexical_append (lexical_lineTokens _) hline hend
  rw [pageText_eq, Markup.serialize, Markup.tokenize, String.toList_ofList]
  exact Markup.lex_tokensForm hpage

/-! ## Sections -/

/-- The text that a section gets from tokens. -/
def sectionChars (ts : List Token) : List Char := ts.flatMap sectionPiece

theorem foldl_feed_section {ts : List Token}
    (h : ∀ t ∈ ts, isHeading t = false ∧ t.isEnd "body" = false) (heading : String)
    (text : List Char) (doc : Doc) (keep : Bool) :
    ts.foldl Reader.feed ⟨.section heading text, doc, keep⟩ =
      ⟨.section heading (text ++ sectionChars ts), doc, keep⟩ := by
  induction ts generalizing text with
  | nil => simp [sectionChars]
  | cons t rest ih =>
    obtain ⟨hh, hb⟩ := h t List.mem_cons_self
    rw [List.foldl_cons, Reader.feed_section_other doc keep heading text hh hb,
      ih fun u hu => h u (List.mem_cons_of_mem t hu), List.append_assoc]
    rfl

/-- A heading closes the section before it. -/
theorem foldl_feed_heading {class_ : String} (hc : class_ ∈ headingClasses)
    {heading : String} (hh : Text.Inked heading.toList) {r : Reader}
    (hr : r.position = .start ∨ ∃ h text, r.position = .section h text) :
    (headingTokens class_ heading).foldl Reader.feed r =
      ⟨.section heading [], r.flushed, true⟩ := by
  have hopen : isHeading (.startTag "span" [("class", class_)] false) = true := by
    simp only [headingClasses, List.mem_cons, List.not_mem_nil, or_false] at hc
    rcases hc with rfl | rfl <;> decide
  obtain ⟨position, doc, keep⟩ := r
  have hfirst : (⟨position, doc, keep⟩ : Reader).feed (.startTag "span" [("class", class_)] false) =
      ⟨.heading 1 [], (⟨position, doc, keep⟩ : Reader).flushed, true⟩ := by
    rcases hr with rfl | ⟨h, text, rfl⟩ <;> simp only [Reader.feed, Reader.feedSection, hopen, if_true]
  have htrim : String.ofList (Text.trim heading.toList) = heading := by
    rw [Text.trim_inked hh, String.ofList_toList]
  -- The three tokens: the span opens the heading, its text is read, and its end closes it.
  unfold headingTokens
  rw [List.foldl_cons, hfirst]
  rw [List.foldl_cons, Reader.feed_heading_other _ _ _ _ rfl rfl rfl, List.nil_append, tokenText]
  rw [List.foldl_cons, Reader.feed_heading_last _ _ _ rfl, htrim, List.foldl_nil]

/-- A heading with the tokens of its section. -/
theorem foldl_feed_part {class_ : String} (hc : class_ ∈ headingClasses)
    {heading : String} (hh : Text.Inked heading.toList) {ts : List Token}
    (hts : ∀ t ∈ ts, isHeading t = false ∧ t.isEnd "body" = false) {r : Reader}
    (hr : r.position = .start ∨ ∃ h text, r.position = .section h text) :
    (headingTokens class_ heading ++ ts).foldl Reader.feed r =
      ⟨.section heading (sectionChars ts), r.flushed, true⟩ := by
  rw [List.foldl_append, foldl_feed_heading hc hh hr, foldl_feed_section hts, List.nil_append]

/-- The end of the body closes the open section, with nothing left to close at the end. -/
theorem finish_feed_bodyEnd (r : Reader) :
    (r.feed (.endTag "body")).finish.doc = r.flushed := by
  obtain ⟨hfinished, hdoc⟩ := Reader.feed_bodyEnd (t := .endTag "body") r rfl
  rw [Reader.finish, ← hdoc]
  unfold Reader.flushed
  rw [hfinished]

theorem inked_of_ends {c d : Char} (hc : Text.isBlank c = false) (hd : Text.isBlank d = false)
    (m : List Char) : Text.Inked (c :: (m ++ [d])) where
  first := ⟨c, _, rfl, hc⟩
  last := ⟨c :: m, d, rfl, hd⟩

theorem pageTokens_eq (description usage : String) (ds : List Declared) :
    pageTokens description usage ds = .startTag "body" [] false ::
      ((headingTokens "ts14" "Description" ++ textTokens description) ++
        ((headingTokens "ts14" "Syntax" ++ textTokens usage) ++
          ((headingTokens "ts7" "Parameters" ++ lineTokens ds) ++ [.endTag "body"]))) := by
  simp only [pageTokens, List.append_assoc]

/-- The sections of a page. -/
theorem parse_pageText (description usage : String) (ds : List Declared) :
    (Topic.parse (pageText description usage ds)).doc =
      ((OrderedTable.empty.insert "Description"
          (String.ofList (normalizeChars "Description" (sectionChars (textTokens description))))).insert
        "Syntax" (String.ofList (normalizeChars "Syntax" (sectionChars (textTokens usage))))).insert
        "Parameters" (String.ofList (normalizeChars "Parameters" (sectionChars (lineTokens ds)))) := by
  have htext : ∀ s, ∀ t ∈ textTokens s, isHeading t = false ∧ t.isEnd "body" = false := by
    intro s t ht
    rw [eq_of_mem_textTokens ht]
    exact ⟨rfl, rfl⟩
  have hline : ∀ t ∈ lineTokens ds, isHeading t = false ∧ t.isEnd "body" = false := by
    intro t ht
    obtain rfl | ⟨s, rfl⟩ := eq_of_mem_lineTokens ht
    · exact ⟨rfl, rfl⟩
    · exact ⟨rfl, rfl⟩
  have hdesc : Text.Inked "Description".toList :=
    inked_of_ends (by decide) (by decide) "escriptio".toList
  have hsyn : Text.Inked "Syntax".toList := inked_of_ends (by decide) (by decide) "ynta".toList
  have hpar : Text.Inked "Parameters".toList :=
    inked_of_ends (by decide) (by decide) "arameter".toList
  have hstart : Reader.initial.feed (.startTag "body" [] false) = Reader.initial :=
    Reader.feed_start_other _ _ rfl rfl
  -- Each heading closes the section before it, and the end of the body closes the last one.
  unfold Topic.parse Topic.ofTokens
  rw [tokenize_pageText, pageTokens_eq, List.foldl_cons, hstart]
  rw [List.foldl_append, foldl_feed_part (by decide) hdesc (htext description) (.inl rfl)]
  rw [List.foldl_append, foldl_feed_part (by decide) hsyn (htext usage) (.inr ⟨_, _, rfl⟩)]
  rw [List.foldl_append, foldl_feed_part (by decide) hpar hline (.inr ⟨_, _, rfl⟩)]
  rw [List.foldl_cons, List.foldl_nil, finish_feed_bodyEnd]
  rfl

theorem isBlank_of_isEdgeBlank (c : Char) (h : isEdgeBlank c = true) : Text.isBlank c = true := by
  simp only [isEdgeBlank, Bool.or_eq_true, beq_iff_eq] at h
  rcases h with ((rfl | rfl) | rfl) | rfl <;> decide

theorem normalizeChars_textTokens (heading s : String) :
    normalizeChars heading (sectionChars (textTokens s)) = normalizeChars heading s.toList := by
  unfold textTokens
  by_cases hs : s = ""
  · subst hs
    rfl
  · rw [if_neg hs, sectionChars, List.flatMap_singleton, sectionPiece]
    exact normalizeChars_trimWhile heading isBlank_of_isEdgeBlank (by simp [Text.isBlank]) s.toList

/-! ## Lines of parameters -/

/-- The lines of a section with declarations: a space is left before each line break. -/
def spelledLines : List Declared → List (List Char)
  | [] => []
  | [d] => [declarationLine d]
  | d :: e :: ds => (declarationLine d ++ [' ']) :: spelledLines (e :: ds)

theorem spells_declarationLine (d : Declared) {trail : List Char} (ht : Signature.Blanks trail) :
    Signature.Spells d (declarationLine d ++ trail) := by
  have hspace : Signature.Blanks [' '] := Signature.connector_blanks
  have hconnects : Signature.Connects d.type " As ".toList [] :=
    .word (w := ['A', 's']) hspace (List.cons_ne_nil _ _) rfl hspace (List.cons_ne_nil _ _)
  have h := @Signature.Spells.intro d [] [] _ [] trail Signature.Blanks.nil .nil hconnects ht
  unfold declarationLine
  rwa [List.append_assoc, List.append_assoc]

theorem block_spelledLines (ds : List Declared) : Signature.Block ds (spelledLines ds) := by
  fun_induction spelledLines ds with
  | case1 => exact .nil
  | case2 d =>
    have hd := spells_declarationLine d Signature.Blanks.nil
    rw [List.append_nil] at hd
    exact Signature.Block.cons hd (List.forall_mem_nil _) .nil
  | case3 d e ds ih =>
    exact Signature.Block.cons (spells_declarationLine d Signature.connector_blanks)
      (List.forall_mem_nil _) ih

/-- The lines of declarations as one text, without the space at its end. -/
def spelledText (ds : List Declared) : List Char := ['\n'].intercalate (spelledLines ds)

theorem spelledText_cons_cons (d e : Declared) (ds : List Declared) :
    spelledText (d :: e :: ds) =
      declarationLine d ++ ([' ', '\n'] ++ spelledText (e :: ds)) := by
  have hcons : ∃ l ls, spelledLines (e :: ds) = l :: ls := by
    cases ds with
    | nil => exact ⟨_, _, rfl⟩
    | cons f ds => exact ⟨_, _, rfl⟩
  obtain ⟨l, ls, hl⟩ := hcons
  unfold spelledText
  rw [spelledLines, hl, List.intercalate_cons_cons, List.append_assoc, List.append_assoc]
  rfl

theorem spelledText_singleton (d : Declared) : spelledText [d] = declarationLine d :=
  List.intercalate_singleton

theorem inked_spelledText (d : Declared) (ds : List Declared) :
    Text.Inked (spelledText (d :: ds)) := by
  induction ds generalizing d with
  | nil =>
    rw [spelledText_singleton]
    exact declarationLine_inked d
  | cons e ds ih =>
    rw [spelledText_cons_cons]
    exact (declarationLine_inked d).append (ih e) [' ', '\n']

theorem collapseBlankLines_spelledText (d : Declared) (ds : List Declared) :
    collapseBlankLines (spelledText (d :: ds)) = spelledText (d :: ds) := by
  have hline : ∀ d : Declared, ∀ c ∈ declarationLine d, isBreak c = false :=
    fun d c hc => (declarationLine_plain d c hc).2.2
  induction ds generalizing d with
  | nil =>
    have h := collapseBlankLines_plain (hline d) []
    rwa [collapseBlankLines_nil, List.append_nil, ← spelledText_singleton] at h
  | cons e ds ih =>
    obtain ⟨c, rest, hc, hcb⟩ := (inked_spelledText e ds).first
    have hspace : ∀ c ∈ [' '], isBreak c = false := by simp [isBreak]
    have hbreak := collapseBlankLines_break hcb rest
    rw [← hc, ih e] at hbreak
    rw [spelledText_cons_cons, collapseBlankLines_plain (hline d)]
    exact congrArg _ ((collapseBlankLines_plain hspace _).trans (congrArg _ hbreak))

theorem sectionChars_lineTokens (d : Declared) (ds : List Declared) :
    sectionChars (lineTokens (d :: ds)) = spelledText (d :: ds) ++ [' '] := by
  have hpiece : ∀ d : Declared, sectionPiece (.text (String.ofList (declarationLine d))) =
      declarationLine d ++ [' '] := by
    intro d
    rw [sectionPiece, String.toList_ofList, trimWhile_inked isBlank_of_isEdgeBlank (declarationLine_inked d)]
  induction ds generalizing d with
  | nil =>
    rw [lineTokens, sectionChars, List.flatMap_singleton, hpiece, spelledText_singleton]
  | cons e ds ih =>
    have hrest := ih e
    unfold sectionChars at hrest ⊢
    rw [lineTokens, List.flatMap_cons, List.flatMap_cons, hpiece, hrest, spelledText_cons_cons]
    simp [breakTag, sectionPiece]

/-- The section of the parameters has a line for each declaration. -/
theorem normalizeChars_lineTokens (ds : List Declared) :
    String.ofList (normalizeChars "Parameters" (sectionChars (lineTokens ds))) =
      Signature.joinLines (spelledLines ds) := by
  cases ds with
  | nil =>
    have hempty : normalizeChars "Parameters" (sectionChars (lineTokens [])) = [] := by
      unfold normalizeChars
      rw [lineTokens, sectionChars, List.flatMap_nil, List.dropWhile_nil, collapseBlankLines_nil]
      rfl
    rw [hempty]
    rfl
  | cons d ds =>
    rw [sectionChars_lineTokens, normalizeChars_inked (by decide) (inked_spelledText d ds)
      (collapseBlankLines_spelledText d ds) (by simp [Text.isBlank])]
    rfl

/-! ## The entry of a page -/

/-- The entry of a page has its description in normal form and each declared parameter in order,
    and no line is dropped. An equals sign in the usage tells a function, whose first declaration
    binds what it returns. -/
theorem infer_pageText {name : String} (hname : ¬ recordLead.toList <+: name.toList)
    {ds : List Declared} {limit : Nat} (hlimit : ∀ d ∈ ds, d.name.length ≤ limit)
    (description usage : String) :
    Signature.infer name (Topic.parse (pageText description usage ds)).doc limit =
      if '=' ∈ usage.toList then
        ⟨⟨normalizeSection "Description" description, ds.tail.map Declared.param,
          (ds.head?.map Declared.binding).getD [], .function⟩, some .parameters, []⟩
      else
        ⟨⟨normalizeSection "Description" description, ds.map Declared.param, [], .subroutine⟩,
          some .parameters, []⟩ := by
  have hdoc := parse_pageText description usage ds
  rw [normalizeChars_textTokens, normalizeChars_textTokens, normalizeChars_lineTokens] at hdoc
  generalize (Topic.parse (pageText description usage ds)).doc = doc at hdoc ⊢
  -- From here on only the three sections of the page matter.
  have hget : ∀ heading, doc.get? heading =
      if heading = "Parameters" then some (Signature.joinLines (spelledLines ds))
      else if heading = "Syntax" then some (normalizeSection "Syntax" usage)
      else if heading = "Description" then some (normalizeSection "Description" description)
      else none := by
    intro heading
    rw [hdoc, OrderedTable.get?_insert, OrderedTable.get?_insert, OrderedTable.get?_insert]
    rfl
  have hsource : Signature.Source.locate? doc =
      some (.parameters, Signature.joinLines (spelledLines ds)) := by
    have hp := hget "Parameters"
    rw [if_pos rfl] at hp
    simp [Signature.Source.locate?, Signature.Source.heading, hp]
  have husage : doc.get? "Syntax" = some (normalizeSection "Syntax" usage) := by
    rw [hget, if_neg (by decide), if_pos rfl]
  have hequals : '=' ∈ (normalizeSection "Syntax" usage).toList ↔ '=' ∈ usage.toList := by
    rw [normalizeSection, String.toList_ofList]
    exact mem_normalizeChars (by decide) (by decide) _
  have hdescription : Signature.description doc = normalizeSection "Description" description := by
    unfold Signature.description
    rw [hget, if_neg (by decide), if_neg (by decide), if_pos rfl]
    simp only [normalizeSection, String.toList_ofList]
    rw [trim_normalizeChars (by decide)]
  obtain ⟨first, rest, hlines, hreturns, hall, hrest⟩ :=
    Signature.normalizedLines_block (block_spelledLines ds) hlimit
  have hkind := Signature.classify_of_usage hname husage
  simp only [hequals] at hkind
  -- A function gives its first line to the return binding; anything else reads all of them.
  by_cases he : '=' ∈ usage.toList
  · rw [if_pos he] at hkind ⊢
    rw [Signature.infer_of_function hsource hkind hlines hrest, hreturns, hdescription]
    rfl
  · rw [if_neg he] at hkind ⊢
    rw [← hlines] at hall
    rw [Signature.infer_of_ne_function hsource (by rw [hkind]; decide) hall, hkind, hdescription]
    rfl

/-- A function whose usage and description need names of characters. The description has a blank
    line, and a parameter has a reserved name. -/
theorem infer_pageText_fill :
    pageText "Fill\n\n it & do." "n = Fill(as) < 2"
        [Signature.countDeclared, Signature.asDeclared] =
      "<body><span class=\"ts14\">Description</span>Fill\n\n it &amp; do." ++
        "<span class=\"ts14\">Syntax</span>n = Fill(as) &lt; 2" ++
        "<span class=\"ts7\">Parameters</span>Count As Long<br>as As T_Row</body>" ∧
    Signature.infer "Fill" (Topic.parse (pageText "Fill\n\n it & do." "n = Fill(as) < 2"
        [Signature.countDeclared, Signature.asDeclared])).doc 5 =
      ⟨⟨"Fill\n it & do.", [⟨"as_", "T_Row"⟩], ["Count", "Long"], .function⟩,
        some .parameters, []⟩ := by
  have hcollapse : collapseBlankLines "Fill\n\n it & do.".toList = "Fill\n it & do.".toList := by
    simp [collapseBlankLines_cons, collapseBlankLines_nil, isBreak, pastBlankBreaks?, Text.isBlank]
  have hfront : "Fill\n\n it & do.".toList.dropWhile Text.isBlank =
      "Fill\n\n it & do.".toList := by decide
  have hdescription : normalizeSection "Description" "Fill\n\n it & do." = "Fill\n it & do." := by
    unfold normalizeSection normalizeChars
    rw [hfront, hcollapse]
    decide
  have hparam : Signature.asDeclared.param = ⟨"as_", "T_Row"⟩ := by decide
  have hbinding : Signature.countDeclared.binding = ["Count", "Long"] := by decide
  refine ⟨by decide +kernel, ?_⟩
  rw [infer_pageText (by decide) (by decide), if_pos (by decide), hdescription]
  simp only [List.tail_cons, List.map_singleton, hparam, List.head?_cons, Option.map_some,
    hbinding, Option.getD_some]

end HelpMiner.Page
