import HelpMiner.Proofs.Page.NormalForm
import HelpMiner.Proofs.Page.SelfClosed
import HelpMiner.Proofs.Table.Insertion

/-! What every page has as it is read: it is kept just if a heading begins in its body, and then it
has sections; its sections are in normal form; and nothing after the end of its body is read. -/
namespace HelpMiner.Page

open Markup (Token)

/-! ## One token -/

/-- Where a token leaves a reader that it neither stops nor brings to a new heading. -/
inductive Position.Goes : Position → Position → Prop
  | start : Goes .start .start
  | heading (depth : Nat) (text : List Char) (depth' : Nat) (text' : List Char) :
    Goes (.heading depth text) (.heading depth' text')
  | headed (depth : Nat) (text : List Char) :
    Goes (.heading depth text) (.section (String.ofList (Text.trim text)) [])
  | within (heading : String) (text more : List Char) :
    Goes (.section heading text) (.section heading (text ++ more))

theorem Position.Goes.ne_finished {p q : Position} (h : p.Goes q) :
    p ≠ .finished ∧ q ≠ .finished := by
  cases h <;> exact ⟨nofun, nofun⟩

/-- What a token makes of a reader. -/
inductive Fed (t : Token) (r : Reader) : Reader → Prop
  | past (hp : r.position = .finished) : Fed t r r
  | stops (hp : r.position ≠ .finished) (hb : t.isEnd "body" = true) : Fed t r r.close
  | begins (hp : r.position.takesHeading = true) (hb : t.isEnd "body" = false)
    (hh : isHeading t = true) : Fed t r ⟨.heading 1 [], r.flushed, true⟩
  | goes (p : Position) (hp : r.position.Goes p) (hb : t.isEnd "body" = false)
    (hh : r.position.takesHeading = true → isHeading t = false) : Fed t r ⟨p, r.doc, r.keep⟩

namespace Reader

theorem feed_heading_goes (depth : Nat) (text : List Char) (doc : Doc) (keep : Bool) {t : Token}
    (hb : t.isEnd "body" = false) : ∃ p, Position.Goes (.heading depth text) p ∧
      (⟨.heading depth text, doc, keep⟩ : Reader).feed t = ⟨p, doc, keep⟩ := by
  cases ho : opensSpan t with
  | true => exact ⟨_, .heading .., feed_heading_open doc keep depth text ho⟩
  | false =>
    cases he : t.isEnd "span" with
    | false => exact ⟨_, .heading .., feed_heading_other doc keep depth text ho he hb⟩
    | true =>
      obtain rfl := eq_endTag he
      -- only an end tag for the last open span closes the heading
      cases depth with
      | zero => exact ⟨_, .headed .., rfl⟩
      | succ depth =>
        cases depth with
        | zero => exact ⟨_, .headed .., rfl⟩
        | succ depth => exact ⟨_, .heading .., rfl⟩

/-- All that a token can do, in each of the positions. -/
theorem fed_feed (r : Reader) (t : Token) : Fed t r (r.feed t) := by
  obtain ⟨position, doc, keep⟩ := r
  -- The end of the body comes first, since it stops the reader wherever it stands.
  by_cases hp : position = .finished
  · subst hp
    exact .past rfl
  cases hb : t.isEnd "body" with
  | true =>
    rw [feed_stops hp hb]
    exact .stops hp hb
  | false =>
    cases position with
    | finished => exact absurd rfl hp
    | heading depth text =>
      obtain ⟨p, hgoes, hfeed⟩ := feed_heading_goes depth text doc keep hb
      rw [hfeed]
      exact .goes p hgoes hb nofun
    | start =>
      cases hh : isHeading t with
      | true =>
        rw [feed_start_heading doc keep hh]
        exact .begins rfl hb hh
      | false =>
        rw [feed_start_other doc keep hh hb]
        exact .goes .start .start hb fun _ => hh
    | «section» heading text =>
      cases hh : isHeading t with
      | true =>
        have hfeed : (⟨.section heading text, doc, keep⟩ : Reader).feed t =
            ⟨.heading 1 [], flushed ⟨.section heading text, doc, keep⟩, true⟩ := by
          simp only [feed, feedSection, hh, if_true]
        rw [hfeed]
        exact .begins rfl hb hh
      | false =>
        rw [feed_section_other doc keep heading text hh hb]
        exact .goes _ (.within ..) hb fun _ => hh

end Reader

/-! ## A whole run -/

/-- A section as pages give it: its heading is trimmed, and its text is in normal form. -/
structure Settled (e : String × String) : Prop where
  trimmed : Text.trim e.1.toList = e.1.toList
  stable : normalizeSection e.1 e.2 = e.2

theorem settled_section {heading : String} (h : Text.trim heading.toList = heading.toList)
    (text : List Char) : Settled (heading, String.ofList (normalizeChars heading text)) where
  trimmed := h
  stable := by
    rw [normalizeSection, String.toList_ofList, normalizeChars_stable]

theorem trim_trimmed (text : List Char) :
    Text.trim (String.ofList (Text.trim text)).toList =
      (String.ofList (Text.trim text)).toList := by
  rw [String.toList_ofList, Text.trim_trim]

theorem settled_unclosed (text : List Char) : Settled (String.ofList (Text.trim text), "") where
  trimmed := trim_trimmed text
  stable := by
    have hempty : plainText [] = [] := by
      unfold plainText
      rw [List.dropWhile_nil, collapseBlankLines_nil]
      rfl
    have hchars : normalizeChars (String.ofList (Text.trim text)) [] = [] := by
      rw [normalizeChars_eq, hempty, joinLines_nil, ite_self]
    exact congrArg String.ofList hchars

namespace Reader

/-- What holds of a reader after every token. -/
structure Sane (r : Reader) : Prop where
  keep : r.keep = !r.flushed.isEmpty
  sections : ∀ e ∈ r.doc.entries, Settled e
  heading : ∀ heading text, r.position = .section heading text →
    Text.trim heading.toList = heading.toList

theorem isEmpty_flushed {p q : Position} (h : p.Goes q) (doc : Doc) (keep : Bool) :
    (flushed ⟨q, doc, keep⟩).isEmpty = (flushed ⟨p, doc, keep⟩).isEmpty := by
  cases h with
  | start => rfl
  | heading => simp only [flushed, OrderedTable.isEmpty_insert]
  | headed => simp only [flushed, OrderedTable.isEmpty_insert]
  | within => simp only [flushed, OrderedTable.isEmpty_insert]

namespace Sane

variable {r r' : Reader} {t : Token}

theorem initial : Sane .initial where
  keep := rfl
  sections := nofun
  heading := nofun

theorem flushed (h : Sane r) : ∀ e ∈ r.flushed.entries, Settled e := by
  obtain ⟨position, doc, keep⟩ := r
  cases position with
  | start => exact h.sections
  | finished => exact h.sections
  | heading depth text =>
    exact OrderedTable.forall_mem_insert h.sections (settled_unclosed text)
  | «section» heading text =>
    exact OrderedTable.forall_mem_insert h.sections (settled_section (h.heading _ _ rfl) text)

theorem fed (h : Sane r) (hf : Fed t r r') : Sane r' := by
  cases hf with
  | past => exact h
  | stops => exact ⟨h.keep, h.flushed, nofun⟩
  | begins => exact ⟨congrArg not (OrderedTable.isEmpty_insert ..).symm, h.flushed, nofun⟩
  | goes p hp =>
    obtain ⟨position, doc, keep⟩ := r
    refine ⟨?_, h.sections, ?_⟩
    · rw [isEmpty_flushed hp]
      exact h.keep
    · rintro heading text rfl
      cases hp with
      | headed depth text => exact trim_trimmed text
      | within => exact h.heading _ _ rfl

theorem foldl (h : Sane r) (ts : List Token) : Sane (ts.foldl feed r) := by
  induction ts generalizing r with
  | nil => exact h
  | cons t rest ih => exact ih (h.fed (fed_feed r t))

/-- A reader that stands in a heading has seen one. -/
theorem keep_of_heading (h : Sane r) (hp : r.position.takesHeading = false)
    (hf : r.position ≠ .finished) : r.keep = true := by
  obtain ⟨position, doc, keep⟩ := r
  cases position with
  | start => cases hp
  | finished => exact absurd rfl hf
  | heading depth text =>
    rw [h.keep]
    exact congrArg not (OrderedTable.isEmpty_insert ..)
  | «section» => cases hp

/-- A run keeps the page just if it was kept before or there is a heading still to be read. -/
theorem keep_foldl (h : Sane r) (ts : List Token) : (ts.foldl feed r).keep = true ↔
    r.keep = true ∨ r.position ≠ .finished ∧ ∃ t ∈ bodyTokens ts, isHeading t = true := by
  induction ts generalizing r with
  | nil => simp [bodyTokens]
  | cons t rest ih =>
    have hf := fed_feed r t
    rw [List.foldl_cons, ih (h.fed hf)]
    generalize r.feed t = r' at hf
    cases hf with
    | past hp => simp [hp]
    | stops hp hb => simp [bodyTokens_end hb, close]
    | begins hp hb hh =>
      have hpos : r.position ≠ .finished := by
        intro hf
        rw [hf] at hp
        cases hp
      rw [bodyTokens_cons hb]
      exact iff_of_true (.inl rfl) (.inr ⟨hpos, t, List.mem_cons_self, hh⟩)
    | goes p hp hb hh =>
      obtain ⟨hpos, hnext⟩ := hp.ne_finished
      cases htakes : r.position.takesHeading with
      | true => simp [bodyTokens_cons hb, hpos, hnext, hh htakes]
      | false =>
        -- a span of a heading class within a heading begins none, but the page is kept already
        have hkeep := h.keep_of_heading htakes hpos
        exact iff_of_true (.inl hkeep) (.inl hkeep)

end Sane

theorem feed_bodyEnd_finish (r : Reader) :
    (r.feed (.endTag "body")).position = .finished ∧
      (r.feed (.endTag "body")).finish = r.finish := by
  refine ⟨(feed_bodyEnd r rfl).1, ?_⟩
  by_cases hp : r.position = .finished
  · rw [feed_finished hp]
  · rw [feed_stops hp rfl]
    rfl

end Reader

end HelpMiner.Page

namespace HelpMiner.Topic

open Page Markup

/-- A page is kept just if it has sections, which is just if a heading begins in its body. What
    follows the end of the body changes nothing. The headings are distinct and trimmed, and their
    texts are in normal form. -/
theorem ofTokens_kept_settled (ts : List Token) :
    ((ofTokens ts).keep = true ↔ (ofTokens ts).doc.isEmpty = false) ∧
    ((ofTokens ts).keep = true ↔ ∃ t ∈ bodyTokens ts, isHeading t = true) ∧
    (∀ after, ofTokens (ts ++ .endTag "body" :: after) = ofTokens ts) ∧
    (ofTokens ts).doc.keys.Nodup ∧ ∀ e ∈ (ofTokens ts).doc.entries, Settled e := by
  have hrun := Reader.Sane.initial.foldl ts
  refine ⟨?_, ?_, ?_, OrderedTable.nodup _, hrun.flushed⟩
  · have hkeep : (ofTokens ts).keep = !(ofTokens ts).doc.isEmpty := hrun.keep
    rw [hkeep, Bool.not_eq_true']
  · have hstart : Reader.initial.position ≠ .finished := nofun
    have hkeep := Reader.Sane.initial.keep_foldl ts
    rw [or_iff_right (by decide), and_iff_right hstart] at hkeep
    exact hkeep
  · intro after
    obtain ⟨hstop, hsame⟩ := Reader.feed_bodyEnd_finish (ts.foldl Reader.feed .initial)
    unfold ofTokens
    rw [List.foldl_append, List.foldl_cons, Reader.foldl_feed_finished after hstop, hsame]

end HelpMiner.Topic
