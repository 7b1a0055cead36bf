import HelpMiner.Proofs.Page.Streaming

/-! Spans that close themselves. Such a span is read as one with its end tag, wherever it begins no
heading; a span that begins a heading is read as if it were left open. -/
namespace HelpMiner.Page

open Markup (Token)

/-- A span with its attributes. -/
def span (attrs : List (String × String)) (selfClosing : Bool) : Token :=
  .startTag "span" attrs selfClosing

theorem isHeading_span (attrs : List (String × String)) :
    isHeading (span attrs false) = isHeading (span attrs true) := rfl

/-- Where a span of a heading class begins a heading. -/
def Position.takesHeading : Position → Bool
  | .start => true
  | .heading .. => false
  | .section .. => true
  | .finished => false

/-- Whether a token that is read after `before` begins a heading. -/
def beginsHeading (before : List Token) (t : Token) : Bool :=
  isHeading t && (before.foldl Reader.feed .initial).position.takesHeading

namespace Reader

variable {r : Reader} (attrs : List (String × String))

/-- A heading begins alike with a span that closes itself and with one that does not. -/
theorem feed_span_heading (hs : isHeading (span attrs true) = true)
    (hp : r.position.takesHeading = true) :
    r.feed (span attrs true) = r.feed (span attrs false) := by
  have ho := (isHeading_span attrs).trans hs
  obtain ⟨position, doc, keep⟩ := r
  cases position with
  | start => rw [feed_start_heading doc keep hs, feed_start_heading doc keep ho]
  | heading depth text => cases hp
  | «section» heading text =>
    rw [feed_section_heading doc keep heading text hs,
      feed_section_heading doc keep heading text ho]
  | finished => cases hp

/-- A span that closes itself is passed over, as is one with its end tag. -/
theorem feed_span_other (hr : r.position.Sound)
    (h : isHeading (span attrs true) = false ∨ r.position.takesHeading = false) :
    r.feed (span attrs true) = r ∧ (r.feed (span attrs false)).feed (.endTag "span") = r := by
  obtain ⟨position, doc, keep⟩ := r
  cases position with
  | start =>
    have hs := h.resolve_right (by simp [Position.takesHeading])
    have ho := (isHeading_span attrs).trans hs
    constructor
    · exact feed_start_other doc keep hs rfl
    · rw [feed_start_other doc keep ho rfl]
      exact feed_start_other doc keep rfl rfl
  | «section» heading text =>
    have hs := h.resolve_right (by simp [Position.takesHeading])
    have ho := (isHeading_span attrs).trans hs
    constructor
    · rw [feed_section_other doc keep heading text hs rfl]
      simp [sectionPiece, span]
    · rw [feed_section_other doc keep heading text ho rfl,
        feed_section_other doc keep heading _ rfl rfl]
      simp [sectionPiece, span]
  | heading depth text =>
    -- the span of the heading is open, so another end tag closes the span that was opened here
    obtain ⟨d, rfl⟩ : ∃ d, depth = d + 1 := ⟨depth - 1, by have : 0 < depth := hr; omega⟩
    constructor
    · rw [feed_heading_other doc keep (d + 1) text rfl rfl rfl]
      simp [tokenText, span]
    · rw [feed_heading_open doc keep (d + 1) text rfl, feed_heading_end doc keep d text rfl]
  | finished => exact ⟨rfl, rfl⟩

end Reader

end HelpMiner.Page

namespace HelpMiner.Topic

open Page Markup

/-- A span that closes itself is read as one with its end tag, unless it begins a heading. Then it
    is read as one without: what follows it up to some later end tag is text of the heading. -/
theorem ofTokens_selfClosed (before after : List Token) (attrs : List (String × String)) :
    ofTokens (before ++ span attrs true :: after) =
      ofTokens (before ++ span attrs false ::
        if beginsHeading before (span attrs true) then after else .endTag "span" :: after) := by
  have hsound := Reader.sound_foldl (r := .initial) trivial before
  unfold ofTokens
  rw [List.foldl_append, List.foldl_append, List.foldl_cons, List.foldl_cons]
  cases hb : beginsHeading before (span attrs true) with
  | true =>
    obtain ⟨hs, hp⟩ := Bool.and_eq_true_iff.mp hb
    rw [Reader.feed_span_heading attrs hs hp]
    rfl
  | false =>
    have hother := Bool.and_eq_false_iff.mp hb
    obtain ⟨hself, hends⟩ := Reader.feed_span_other attrs hsound hother
    rw [hself]
    simp only [Bool.false_eq_true, if_false, List.foldl_cons, hends]

/-- Text after a heading that closes itself becomes its heading, where it is section text after the
    same heading with an end tag. -/
theorem text_after_selfClosed_heading :
    ofTokens ([] ++ span [("class", "ts14")] true :: [.text "Note."]) ≠
      ofTokens ([] ++ span [("class", "ts14")] false :: .endTag "span" :: [.text "Note."]) := by
  decide +kernel

end HelpMiner.Topic
