import HelpMiner.Proofs.Contents.Element

/-! Reading a table of contents token by token gives the entries of its closed elements. The
invariant of a run is that the reader holds what its tokens tell of the elements still open, and the
entries of those that are closed. -/
namespace HelpMiner.Contents

open Markup (Token)
open Page (tokenText)

/-- What the reader knows of an open object. -/
def Element.node (e : Element) : Node := ⟨e.param? "name", e.param? "local"⟩

/-- What the reader knows of an open anchor. -/
def Element.link (e : Element) : Link := ⟨e.start.attr? "href", e.text⟩

theorem Element.asObject?_eq (e : Element) : Node.entry? e.node = e.asObject? := by
  unfold node Node.entry? asObject?
  cases e.param? "name" with
  | none => rfl
  | some name => cases e.param? "local" <;> rfl

theorem Element.asAnchor?_eq (e : Element) : Link.entry? e.link = e.asAnchor? := by
  unfold link Link.entry? asAnchor?
  cases e.start.attr? "href" with
  | none => rfl
  | some target =>
    by_cases h : target = ""
    · simp [h]
    · simp [h]

theorem Element.param?_add (key : String) (e : Element) (t : Token) :
    (e.add t).param? key = (paramValue? key t).or (e.param? key) := by
  unfold param? add
  rw [List.filterMap_append, List.getLast?_append]
  cases h : paramValue? key t <;> simp [h]

theorem paramValue?_eq {t : Token} (h : t.isStart "param" = true) {name value : String}
    (hn : t.attr? "name" = some name) (hv : t.attr? "value" = some value) (key : String) :
    paramValue? key t = if Text.sameLetters key.toList name.toList then some value else none := by
  unfold paramValue?
  rw [h, hn, hv]
  by_cases hk : Text.sameLetters key.toList name.toList = true
  · rw [if_pos hk]
    simp [hk]
  · rw [if_neg hk]
    simp [hk]

theorem Element.node_add_param {t : Token} (h : t.isStart "param" = true) (e : Element) :
    (e.add t).node = e.node.take t := by
  unfold node Node.take
  rw [param?_add, param?_add]
  cases hn : t.attr? "name" with
  | none => simp [paramValue?, hn]
  | some name =>
    cases hv : t.attr? "value" with
    | none => simp [paramValue?, hv]
    | some value =>
      rw [paramValue?_eq h hn hv, paramValue?_eq h hn hv]
      by_cases hname : Text.sameLetters "name".toList name.toList = true
      · -- one name is not both of the two names in other letter cases
        have htarget : ¬ Text.sameLetters "local".toList name.toList = true := by
          unfold Text.sameLetters at hname ⊢
          rw [← beq_iff_eq.mp hname]
          decide
        simp only [if_pos hname, if_neg htarget, Option.some_or, Option.none_or]
      · by_cases htarget : Text.sameLetters "local".toList name.toList = true
        · simp only [if_neg hname, if_pos htarget, Option.some_or, Option.none_or]
        · simp only [if_neg hname, if_neg htarget, Option.none_or]

theorem Element.node_add_other {t : Token} (h : t.isStart "param" = false) (e : Element) :
    (e.add t).node = e.node := by
  have hvalue : ∀ key, paramValue? key t = none := by simp [paramValue?, h]
  unfold node
  rw [param?_add, param?_add, hvalue, hvalue, Option.none_or, Option.none_or]

theorem Element.link_add (e : Element) (t : Token) :
    (e.add t).link = { e.link with text := e.link.text ++ tokenText t } := by
  simp [link, add, text]

namespace Reader

/-! ## What one token does -/

section Feed

variable (r : Reader) (t : Token)

theorem feed_node :
    (r.feed t).node =
      if t.isEnd "object" then none
      else if t.isStart "object" then some .blank
      else if t.isStart "param" then r.node.map (·.take t) else r.node := by
  cases t with
  | startTag name attrs selfClosing =>
    simp only [feed, openTag, Token.isStart, Token.isEnd]
    by_cases ho : name = "object"
    · simp [ho]
    · by_cases hp : name = "param"
      · simp [hp]
      · by_cases ha : name = "a" <;> simp [ho, hp, ha]
  | endTag name =>
    simp only [feed, closeTag, Token.isStart, Token.isEnd]
    by_cases ho : name = "object"
    · simp [ho]
    · by_cases ha : name = "a" <;> simp [ho, ha]
  | text content => simp [feed, Token.isStart, Token.isEnd]

theorem feed_objects :
    (r.feed t).objects =
      r.objects ++ ((if t.isEnd "object" then r.node else none).bind Node.entry?).toList := by
  cases t with
  | startTag name attrs selfClosing =>
    have hkeep : (r.openTag name (.startTag name attrs selfClosing)).objects = r.objects := by
      unfold openTag
      split_ifs <;> rfl
    simpa [feed, Token.isEnd] using hkeep
  | endTag name =>
    simp only [feed, closeTag, Token.isEnd]
    by_cases ho : name = "object"
    · simp [ho]
    · by_cases ha : name = "a" <;> simp [ho, ha]
  | text content => simp [feed, Token.isEnd]

theorem feed_link :
    (r.feed t).link =
      if t.isEnd "a" then none
      else if t.isStart "a" then some ⟨t.attr? "href", []⟩
      else r.link.map fun l => { l with text := l.text ++ tokenText t } := by
  cases t with
  | startTag name attrs selfClosing =>
    simp only [feed, openTag, Token.isStart, Token.isEnd, tokenText]
    by_cases ha : name = "a"
    · simp [ha]
    · by_cases ho : name = "object"
      · simp [ho]
      · by_cases hp : name = "param" <;> simp [ha, ho, hp]
  | endTag name =>
    simp only [feed, closeTag, Token.isStart, Token.isEnd, tokenText]
    by_cases ha : name = "a"
    · simp [ha]
    · by_cases ho : name = "object" <;> simp [ha, ho]
  | text content => simp [feed, Token.isStart, Token.isEnd, tokenText]

theorem feed_links :
    (r.feed t).links =
      r.links ++ ((if t.isEnd "a" then r.link else none).bind Link.entry?).toList := by
  cases t with
  | startTag name attrs selfClosing =>
    have hkeep : (r.openTag name (.startTag name attrs selfClosing)).links = r.links := by
      unfold openTag
      split_ifs <;> rfl
    simpa [feed, Token.isEnd] using hkeep
  | endTag name =>
    simp only [feed, closeTag, Token.isEnd]
    by_cases ha : name = "a"
    · simp [ha]
    · by_cases ho : name = "object" <;> simp [ha, ho]
  | text content => simp [feed, Token.isEnd]

end Feed

/-- The reader holds what `ts` tells of the elements. -/
structure Holds (r : Reader) (ts : List Token) : Prop where
  node : r.node = (openElement? "object" ts).map Element.node
  objects : r.objects = (closedElements "object" ts).filterMap Element.asObject?
  link : r.link = (openElement? "a" ts).map Element.link
  links : r.links = (closedElements "a" ts).filterMap Element.asAnchor?

theorem holds_initial : initial.Holds [] := ⟨rfl, rfl, rfl, rfl⟩

/-- The entry that an end tag makes of what the reader holds is that of the element it closes. -/
theorem entries_concat {α : Type} {held : Option α} {known : Element → α}
    {entryOf : α → Option ContentsEntry} {listed? : Element → Option ContentsEntry} {tag : String}
    {ts : List Token} (hheld : held = (openElement? tag ts).map known)
    (hentry : ∀ e, entryOf (known e) = listed? e) (t : Token) :
    (closedElements tag ts).filterMap listed? ++
        ((if t.isEnd tag then held else none).bind entryOf).toList =
      (closedElements tag (ts ++ [t])).filterMap listed? := by
  rw [closedElements_concat, List.filterMap_append, hheld]
  congr 1
  split
  · cases openElement? tag ts with
    | none => rfl
    | some e =>
      rw [Option.map_some, Option.bind_some, hentry, Option.toList_some, List.filterMap_cons]
      cases listed? e <;> rfl
  · rfl

theorem Holds.feed {r : Reader} {ts : List Token} (h : r.Holds ts) (t : Token) :
    (r.feed t).Holds (ts ++ [t]) where
  node := by
    rw [feed_node, openElement?_concat, h.node]
    split
    · rfl
    · split
      · rfl
      · cases hp : t.isStart "param" with
        | true => simp [Function.comp_def, Element.node_add_param hp]
        | false => simp [Function.comp_def, Element.node_add_other hp]
  objects := by
    rw [feed_objects, h.objects]
    exact entries_concat h.node Element.asObject?_eq t
  link := by
    rw [feed_link, openElement?_concat, h.link]
    split
    · rfl
    · split
      · rfl
      · simp [Function.comp_def, Element.link_add]
  links := by
    rw [feed_links, h.links]
    exact entries_concat h.link Element.asAnchor?_eq t

theorem holds_foldl (ts : List Token) : (ts.foldl Reader.feed .initial).Holds ts := by
  induction ts using List.reverseRecOn with
  | nil => exact holds_initial
  | append_singleton ts t ih =>
    rw [List.foldl_append]
    exact ih.feed t

/-- An end tag of an element that is not open changes nothing. -/
theorem Holds.feed_unmatched {r : Reader} {ts : List Token} (h : r.Holds ts) {name : String}
    (hn : openElement? name ts = none) : r.feed (.endTag name) = r := by
  obtain ⟨node, objects, link, links⟩ := r
  have hnode := h.node
  have hlink := h.link
  simp only [Reader.feed, closeTag]
  by_cases ho : name = "object"
  · subst ho
    rw [hn] at hnode
    simp_all
  · by_cases ha : name = "a"
    · subst ha
      rw [hn] at hlink
      simp_all
    · simp [ho, ha]

end Reader

theorem ofTokens_eq (layout : Layout) (ts : List Token) :
    ofTokens layout ts = (closedElements layout.tag ts).filterMap layout.listed? := by
  have h := Reader.holds_foldl ts
  cases layout with
  | objects => exact h.objects
  | links => exact h.links

theorem ofTokens_unmatched (layout : Layout) {before : List Token} {name : String}
    (h : openElement? name before = none) (after : List Token) :
    ofTokens layout (before ++ .endTag name :: after) = ofTokens layout (before ++ after) := by
  unfold ofTokens
  rw [List.foldl_append, List.foldl_append, List.foldl_cons,
    (Reader.holds_foldl before).feed_unmatched h]

/-- In either layout the entries are those of the closed elements, in the order of their end tags.
    They depend on the tokens that the layout reads, an end tag that closes nothing has no part in
    them, and what is read later leaves those that are there. -/
theorem ofTokens_closedElements (layout : Layout) (ts : List Token) :
    ofTokens layout ts = (closedElements layout.tag ts).filterMap layout.listed? ∧
      ofTokens layout (ts.filter layout.reads) = ofTokens layout ts ∧
      (∀ name more, openElement? name ts = none →
        ofTokens layout (ts ++ .endTag name :: more) = ofTokens layout (ts ++ more)) ∧
      ∀ more, ofTokens layout ts <+: ofTokens layout (ts ++ more) := by
  refine ⟨ofTokens_eq layout ts, ?_, ?_, ?_⟩
  · rw [ofTokens_eq, ofTokens_eq]
    exact filterMap_listed?_filter layout ts
  · intro name more hn
    exact ofTokens_unmatched layout hn more
  · intro more
    rw [ofTokens_eq, ofTokens_eq]
    exact (closedElements_append layout.tag ts more).filterMap layout.listed?

end HelpMiner.Contents
