import HelpMiner.Proofs.Page.Outline

/-! Reading a page token by token finds the sections that its outline tells. The invariant of a run
is that the sections inserted, followed by those still to come, stay the same. -/
namespace HelpMiner.Page

open Markup (Token)

/-- The sections that are still to come, the one that is open included, when the reader stands at
    `p` with `ts` left to read. -/
def pending (p : Position) (ts : List Token) : List (String × String) :=
  match p with
  | .start => outline ts
  | .finished => []
  | .section heading text =>
    (heading, normalizeSection heading (String.ofList text ++ sectionText ts)) :: outline ts
  | .heading depth text =>
    match balanced? depth ts with
    | none => [(String.ofList (Text.trim (text ++ ts.flatMap tokenText)), "")]
    | some n =>
      let heading := String.ofList (Text.trim (text ++ (ts.take n).flatMap tokenText))
      let after := ts.drop (n + 1)
      (heading, normalizeSection heading (sectionText after)) :: outline after

/-- Insert sections one after another. -/
def insertAll (doc : Doc) (sections : List (String × String)) : Doc :=
  sections.foldl (fun d e => d.insert e.1 e.2) doc

/-- A heading that is open has at least one open span: its own. -/
def Position.Sound : Position → Prop
  | .heading depth _ => 0 < depth
  | _ => True

theorem outline_cons_heading {t : Token} (h : isHeading t = true) (ts : List Token) :
    outline (t :: ts) = pending (.heading 1 []) ts := by
  rw [outline, if_pos h]
  unfold pending headingOf
  rfl

theorem outline_cons_other {t : Token} (h : isHeading t = false) (ts : List Token) :
    outline (t :: ts) = outline ts := by
  rw [outline, h]
  rfl

theorem sectionText_cons_heading {t : Token} (h : isHeading t = true) (ts : List Token) :
    sectionText (t :: ts) = "" := by
  unfold sectionText
  rw [List.takeWhile_cons, h]
  rfl

theorem sectionText_cons_other {t : Token} (h : isHeading t = false) (ts : List Token) :
    sectionText (t :: ts) = String.ofList (sectionPiece t) ++ sectionText ts := by
  unfold sectionText
  rw [List.takeWhile_cons, h]
  simp [String.ofList_append]

/-- In a heading, `pending` moves on with the balance. -/
theorem pending_heading_shift {before after : Nat} {text : List Char} {t : Token} {ts : List Token}
    (h : balanced? before (t :: ts) = (balanced? after ts).map (· + 1)) :
    pending (.heading before text) (t :: ts) = pending (.heading after (text ++ tokenText t)) ts := by
  simp only [pending, h]
  cases balanced? after ts with
  | none => simp
  | some n => simp

theorem pending_heading_last {text : List Char} {t : Token} (ht : t.isEnd "span" = true)
    (ts : List Token) :
    pending (.heading 1 text) (t :: ts) =
      pending (.section (String.ofList (Text.trim text)) []) ts := by
  simp only [pending, balanced?_last ht]
  simp

theorem pending_section_other {heading : String} {text : List Char} {t : Token}
    (h : isHeading t = false) (ts : List Token) :
    pending (.section heading text) (t :: ts) =
      pending (.section heading (text ++ sectionPiece t)) ts := by
  simp only [pending, outline_cons_other h, sectionText_cons_other h, String.ofList_append,
    String.append_assoc]

theorem tokenText_of_opensSpan {t : Token} (h : opensSpan t = true) : tokenText t = [] := by
  cases t with
  | text => cases h
  | startTag => rfl
  | endTag => rfl

theorem eq_endTag {t : Token} {name : String} (h : t.isEnd name = true) : t = .endTag name := by
  cases t with
  | endTag other => exact congrArg Token.endTag (beq_iff_eq.1 h)
  | startTag => cases h
  | text => cases h

theorem tokenText_of_isEnd {t : Token} {name : String} (h : t.isEnd name = true) :
    tokenText t = [] := by
  rw [eq_endTag h]
  rfl

namespace Reader

variable (doc : Doc) (keep : Bool) {t : Token}

theorem feed_start_heading (h : isHeading t = true) :
    (⟨.start, doc, keep⟩ : Reader).feed t = ⟨.heading 1 [], doc, true⟩ := by
  simp only [feed, feedSection, h, if_true, flushed]

theorem feed_start_other (h : isHeading t = false) (hb : t.isEnd "body" = false) :
    (⟨.start, doc, keep⟩ : Reader).feed t = ⟨.start, doc, keep⟩ := by
  unfold feed feedSection
  rw [h]
  cases t with
  | startTag name attrs selfClosing => simp [extend]
  | endTag name =>
    have hn : (name == "body") = false := hb
    simp [hn]
  | text content => simp [extend]

theorem feed_section_heading (heading : String) (text : List Char) (h : isHeading t = true) :
    (⟨.section heading text, doc, keep⟩ : Reader).feed t =
      ⟨.heading 1 [], doc.insert heading (normalizeSection heading (String.ofList text)), true⟩ := by
  simp only [feed, feedSection, h, if_true, flushed, normalizeSection, String.toList_ofList]

theorem feed_section_other (heading : String) (text : List Char) (h : isHeading t = false)
    (hb : t.isEnd "body" = false) :
    (⟨.section heading text, doc, keep⟩ : Reader).feed t =
      ⟨.section heading (text ++ sectionPiece t), doc, keep⟩ := by
  unfold feed feedSection
  rw [h]
  cases t with
  | startTag name attrs selfClosing =>
    by_cases hn : name = "br"
    · simp [extend, sectionPiece, hn]
    · simp [sectionPiece, hn]
  | endTag name =>
    have hn : (name == "body") = false := hb
    simp [hn, sectionPiece]
  | text content => simp [extend, sectionPiece]

theorem feed_heading_open (depth : Nat) (text : List Char) (h : opensSpan t = true) :
    (⟨.heading depth text, doc, keep⟩ : Reader).feed t =
      ⟨.heading (depth + 1) text, doc, keep⟩ := by
  simp only [feed, feedHeading, h, if_true]

theorem feed_heading_last (text : List Char) (h : t.isEnd "span" = true) :
    (⟨.heading 1 text, doc, keep⟩ : Reader).feed t =
      ⟨.section (String.ofList (Text.trim text)) [], doc, keep⟩ := by
  rw [eq_endTag h]
  rfl

theorem feed_heading_end (depth : Nat) (text : List Char) (h : t.isEnd "span" = true) :
    (⟨.heading (depth + 2) text, doc, keep⟩ : Reader).feed t =
      ⟨.heading (depth + 1) text, doc, keep⟩ := by
  rw [eq_endTag h]
  rfl

theorem feed_heading_other (depth : Nat) (text : List Char) (ho : opensSpan t = false)
    (he : t.isEnd "span" = false) (hb : t.isEnd "body" = false) :
    (⟨.heading depth text, doc, keep⟩ : Reader).feed t =
      ⟨.heading depth (text ++ tokenText t), doc, keep⟩ := by
  unfold feed feedHeading
  rw [ho]
  cases t with
  | startTag name attrs selfClosing => simp [tokenText]
  | endTag name =>
    have hs : (name == "span") = false := he
    have hn : (name == "body") = false := hb
    simp [hs, hn, tokenText]
  | text content => simp [tokenText]

theorem feed_finished {r : Reader} (hp : r.position = .finished) : r.feed t = r := by
  unfold feed
  rw [hp]

theorem feed_stops {r : Reader} (hp : r.position ≠ .finished) (hb : t.isEnd "body" = true) :
    r.feed t = r.close := by
  obtain ⟨position, doc, keep⟩ := r
  rw [eq_endTag hb]
  cases position with
  | finished => exact absurd rfl hp
  | start => rfl
  | heading => rfl
  | «section» => rfl

theorem feed_bodyEnd (r : Reader) (hb : t.isEnd "body" = true) :
    (r.feed t).position = .finished ∧ (r.feed t).doc = r.flushed := by
  by_cases hp : r.position = .finished
  · rw [feed_finished hp]
    unfold flushed
    rw [hp]
    exact ⟨rfl, rfl⟩
  · rw [feed_stops hp hb]
    exact ⟨rfl, rfl⟩

/-- One token moves sections from those to come to those inserted, and loses none. -/
theorem feed_insertAll {r : Reader} (hr : r.position.Sound) (hb : t.isEnd "body" = false)
    (ts : List Token) :
    (r.feed t).position.Sound ∧
      insertAll (r.feed t).doc (pending (r.feed t).position ts) =
        insertAll r.doc (pending r.position (t :: ts)) := by
  obtain ⟨position, doc, keep⟩ := r
  cases position with
  | finished => exact ⟨trivial, rfl⟩
  | start =>
    cases hh : isHeading t with
    | true =>
      rw [feed_start_heading doc keep hh]
      simp only [pending, outline_cons_heading hh]
      exact ⟨Nat.one_pos, trivial⟩
    | false =>
      rw [feed_start_other doc keep hh hb]
      simp only [pending, outline_cons_other hh]
      exact ⟨trivial, trivial⟩
  | «section» heading text =>
    cases hh : isHeading t with
    | true =>
      rw [feed_section_heading doc keep heading text hh]
      refine ⟨Nat.one_pos, ?_⟩
      simp only [pending, outline_cons_heading hh, sectionText_cons_heading hh, insertAll,
        List.foldl_cons, String.append_empty]
    | false =>
      rw [feed_section_other doc keep heading text hh hb, pending_section_other hh]
      exact ⟨trivial, rfl⟩
  | heading depth text =>
    -- The span of the heading is open, so only the last end tag closes it.
    obtain ⟨d, rfl⟩ : ∃ d, depth = d + 1 := ⟨depth - 1, by have : 0 < depth := hr; omega⟩
    cases ho : opensSpan t with
    | true =>
      rw [feed_heading_open doc keep _ text ho, pending_heading_shift (balanced?_open ho d ts),
        tokenText_of_opensSpan ho, List.append_nil]
      exact ⟨Nat.succ_pos _, rfl⟩
    | false =>
      cases he : t.isEnd "span" with
      | false =>
        rw [feed_heading_other doc keep _ text ho he hb,
          pending_heading_shift (balanced?_other ho he d ts)]
        exact ⟨Nat.succ_pos _, rfl⟩
      | true =>
        cases d with
        | zero =>
          rw [feed_heading_last doc keep text he, pending_heading_last he]
          exact ⟨trivial, rfl⟩
        | succ d =>
          rw [feed_heading_end doc keep d text he, pending_heading_shift (balanced?_end he d ts),
            tokenText_of_isEnd he, List.append_nil]
          exact ⟨Nat.succ_pos _, rfl⟩

theorem sound_feed {r : Reader} (h : r.position.Sound) (t : Token) :
    (r.feed t).position.Sound := by
  cases hb : t.isEnd "body" with
  | true =>
    rw [(feed_bodyEnd r hb).1]
    trivial
  | false => exact (feed_insertAll h hb []).1

theorem sound_foldl {r : Reader} (h : r.position.Sound) (ts : List Token) :
    (ts.foldl feed r).position.Sound := by
  induction ts generalizing r with
  | nil => exact h
  | cons t rest ih => exact ih (sound_feed h t)

/-- With nothing left to read, the sections to come are those that the end of the page closes. -/
theorem insertAll_pending_nil (r : Reader) :
    insertAll r.doc (pending r.position []) = r.flushed := by
  obtain ⟨position, doc, keep⟩ := r
  cases position with
  | start => simp [pending, outline, insertAll, flushed]
  | finished => rfl
  | «section» heading text =>
    simp [pending, outline, insertAll, flushed, sectionText, normalizeSection]
  | heading depth text =>
    have hopen : balanced? depth [] = none := rfl
    simp [pending, hopen, insertAll, flushed]

/-- A run over tokens without an end of the body inserts the sections to come. -/
theorem foldl_feed_flushed {r : Reader} (hr : r.position.Sound) {ts : List Token}
    (hb : ∀ t ∈ ts, t.isEnd "body" = false) :
    (ts.foldl feed r).flushed = insertAll r.doc (pending r.position ts) := by
  induction ts generalizing r with
  | nil => exact (insertAll_pending_nil r).symm
  | cons t rest ih =>
    obtain ⟨hs, he⟩ := feed_insertAll hr (hb t List.mem_cons_self) rest
    rw [List.foldl_cons, ih hs fun u hu => hb u (List.mem_cons_of_mem _ hu), he]

theorem foldl_feed_finished (ts : List Token) {r : Reader} (h : r.position = .finished) :
    ts.foldl feed r = r := by
  induction ts with
  | nil => rfl
  | cons t rest ih => rw [List.foldl_cons, feed_finished h, ih]

/-- Nothing after the end of the body is read. -/
theorem foldl_feed_body (r : Reader) (ts : List Token) :
    (ts.foldl feed r).flushed = ((bodyTokens ts).foldl feed r).flushed := by
  induction ts generalizing r with
  | nil => rfl
  | cons t rest ih =>
    cases hb : t.isEnd "body" with
    | false =>
      rw [bodyTokens_cons hb]
      exact ih (r.feed t)
    | true =>
      obtain ⟨hp, hd⟩ := feed_bodyEnd r hb
      rw [List.foldl_cons, foldl_feed_finished rest hp, bodyTokens_end hb, List.foldl_nil, ← hd]
      unfold flushed
      rw [hp]

end Reader

end HelpMiner.Page

namespace HelpMiner.Topic

/-- Reading token by token gives the sections of the whole list of tokens up to the end of the
    body, inserted in order. -/
theorem ofTokens_doc_eq_outline (ts : List Markup.Token) :
    (ofTokens ts).doc = OrderedTable.ofList (Page.outline (Page.bodyTokens ts)) := by
  have hb : ∀ t ∈ Page.bodyTokens ts, t.isEnd "body" = false := by
    intro t ht
    simpa using List.all_eq_true.1 List.all_takeWhile t ht
  have hf := Page.Reader.foldl_feed_flushed (r := .initial) trivial hb
  calc
    (ofTokens ts).doc = (ts.foldl Page.Reader.feed .initial).flushed := rfl
    _ = ((Page.bodyTokens ts).foldl Page.Reader.feed .initial).flushed :=
      Page.Reader.foldl_feed_body _ ts
    _ = OrderedTable.ofList (Page.outline (Page.bodyTokens ts)) := hf

end HelpMiner.Topic
