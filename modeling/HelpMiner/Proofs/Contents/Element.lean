import Mathlib
import HelpMiner.Contents.Reader
import HelpMiner.Proofs.Page.Outline

/-! The elements of a table of contents, told from its whole list of tokens: which start tag an end
tag closes, what stands between the two, and what entry that makes in either layout. -/
namespace HelpMiner.Contents

open Markup (Token)
open Page (tokenText)

/-- An element: its start tag, and the tokens after it up to its end. -/
structure Element where
  start : Token
  inner : List Token

/-- The element that is open at the end of `before`. Among the tokens since the last end tag of its
    name it is begun by the last start tag of its name. -/
def openElement? (tag : String) (before : List Token) : Option Element :=
  let since := before.rtakeWhile fun t => !t.isEnd tag
  (since.rdropWhile fun t => !t.isStart tag).getLast?.map fun t =>
    ⟨t, since.rtakeWhile fun u => !u.isStart tag⟩

/-- The element that the token at place `n` closes, if that is an end tag and closes one. -/
def closedAt? (tag : String) (ts : List Token) (n : Nat) : Option Element :=
  if ts[n]?.any (·.isEnd tag) then openElement? tag (ts.take n) else none

/-- All elements of a name that are closed, in the order of their end tags. -/
def closedElements (tag : String) (ts : List Token) : List Element :=
  (List.range ts.length).filterMap (closedAt? tag ts)

/-- The value of a parameter, if it has this name in some letter case. -/
def paramValue? (key : String) (t : Token) : Option String := do
  guard (t.isStart "param")
  let name ← t.attr? "name"
  let value ← t.attr? "value"
  guard (Text.sameLetters key.toList name.toList)
  return value

namespace Element

/-- The value of the last parameter with this name. -/
def param? (key : String) (e : Element) : Option String :=
  (e.inner.filterMap (paramValue? key)).getLast?

/-- The text of all text tokens. -/
def text (e : Element) : List Char := e.inner.flatMap tokenText

/-- The entry of an object: it needs a name and a target. -/
def asObject? (e : Element) : Option ContentsEntry := do
  let name ← e.param? "name"
  let target ← e.param? "local"
  return ⟨name, target⟩

/-- The entry of an anchor: it needs a target that is not empty. -/
def asAnchor? (e : Element) : Option ContentsEntry := do
  let target ← e.start.attr? "href"
  guard (target ≠ "")
  return ⟨String.ofList (Text.trim e.text), target⟩

/-- One more token before the end of an element. -/
def add (e : Element) (t : Token) : Element := { e with inner := e.inner ++ [t] }

/-- The tokens of an element that satisfy `p`. -/
def keep (p : Token → Bool) (e : Element) : Element := { e with inner := e.inner.filter p }

end Element

namespace Layout

/-- The name of the elements that are entries. -/
def tag : Layout → String
  | objects => "object"
  | links => "a"

/-- The entry of an element. -/
def listed? : Layout → Element → Option ContentsEntry
  | objects => Element.asObject?
  | links => Element.asAnchor?

/-- The tokens on which the entries depend. -/
def reads : Layout → Token → Bool
  | objects, t => t.isStart "object" || t.isEnd "object" || t.isStart "param"
  | links, t => t.isStart "a" || t.isEnd "a" || !(tokenText t).isEmpty

end Layout

/-! ## One token more -/

section Concat

variable (tag : String) (ts : List Token) (t : Token)

theorem openElement?_concat :
    openElement? tag (ts ++ [t]) =
      if t.isEnd tag then none
      else if t.isStart tag then some ⟨t, []⟩
      else (openElement? tag ts).map (·.add t) := by
  unfold openElement?
  cases he : t.isEnd tag with
  | true => simp [he]
  | false =>
    cases hs : t.isStart tag with
    | true => simp [he, hs]
    | false => simp [he, hs, Element.add, Function.comp_def]

theorem closedElements_concat :
    closedElements tag (ts ++ [t]) =
      closedElements tag ts ++ (if t.isEnd tag then openElement? tag ts else none).toList := by
  have hlast : closedAt? tag (ts ++ [t]) ts.length =
      if t.isEnd tag then openElement? tag ts else none := by
    simp [closedAt?]
  have hearlier : ∀ n ∈ List.range ts.length,
      closedAt? tag (ts ++ [t]) n = closedAt? tag ts n := by
    intro n hn
    have hlt : n < ts.length := List.mem_range.mp hn
    unfold closedAt?
    rw [List.getElem?_append_left hlt, List.take_append_of_le_length hlt.le]
  unfold closedElements
  rw [List.length_append, List.length_singleton, List.range_succ, List.filterMap_append,
    List.filterMap_congr hearlier]
  rw [List.filterMap_cons, hlast]
  cases (if t.isEnd tag then openElement? tag ts else none) <;> rfl

end Concat

/-- What is read later closes other elements, and leaves those that are closed. -/
theorem closedElements_append (tag : String) (ts more : List Token) :
    closedElements tag ts <+: closedElements tag (ts ++ more) := by
  induction more using List.reverseRecOn with
  | nil => simp
  | append_singleton more t ih =>
    rw [← List.append_assoc, closedElements_concat]
    exact ih.trans (List.prefix_append _ _)

/-! ## Tokens that play no part -/

section Filter

variable {tag : String} {p : Token → Bool} (hs : ∀ t, t.isStart tag = true → p t = true)
  (he : ∀ t, t.isEnd tag = true → p t = true)

include hs he

theorem openElement?_filter (ts : List Token) :
    openElement? tag (ts.filter p) = (openElement? tag ts).map (·.keep p) := by
  induction ts using List.reverseRecOn with
  | nil => rfl
  | append_singleton ts t ih =>
    rw [List.filter_append, openElement?_concat]
    by_cases hp : p t = true
    · rw [List.filter_cons_of_pos hp, List.filter_nil, openElement?_concat, ih]
      split
      · rfl
      · split
        · rfl
        · simp [Element.add, Element.keep, Function.comp_def, hp]
    · have hns : t.isStart tag = false := Bool.eq_false_of_not_eq_true fun h => hp (hs t h)
      have hne : t.isEnd tag = false := Bool.eq_false_of_not_eq_true fun h => hp (he t h)
      rw [List.filter_cons_of_neg hp, List.filter_nil, List.append_nil, ih, hns, hne]
      simp [Element.add, Element.keep, Function.comp_def, hp]

theorem closedElements_filter (ts : List Token) :
    closedElements tag (ts.filter p) = (closedElements tag ts).map (·.keep p) := by
  induction ts using List.reverseRecOn with
  | nil => rfl
  | append_singleton ts t ih =>
    rw [List.filter_append, closedElements_concat, List.map_append, ← ih]
    by_cases hp : p t = true
    · rw [List.filter_cons_of_pos hp, List.filter_nil, closedElements_concat,
        openElement?_filter hs he]
      split
      · cases openElement? tag ts <;> rfl
      · rfl
    · have hne : t.isEnd tag = false := Bool.eq_false_of_not_eq_true fun h => hp (he t h)
      rw [List.filter_cons_of_neg hp, List.filter_nil, hne]
      simp

end Filter

theorem Element.param?_keep (key : String) (e : Element) :
    (e.keep Layout.objects.reads).param? key = e.param? key := by
  have hvalue : ∀ t ∈ e.inner,
      (if Layout.objects.reads t = true then paramValue? key t else none) =
        paramValue? key t := by
    intro t _
    split
    · rfl
    · rename_i hr
      have hp : t.isStart "param" = false := by
        simp only [Layout.reads, Bool.or_eq_true, not_or, Bool.not_eq_true] at hr
        exact hr.2
      simp [paramValue?, hp]
  unfold param? keep
  rw [List.filterMap_filter, List.filterMap_congr hvalue]

theorem Element.text_keep (e : Element) : (e.keep Layout.links.reads).text = e.text := by
  unfold text keep
  induction e.inner with
  | nil => rfl
  | cons t rest ih =>
    cases hr : Layout.links.reads t with
    | true => rw [List.filter_cons_of_pos hr, List.flatMap_cons, List.flatMap_cons, ih]
    | false =>
      have ht : tokenText t = [] := by
        simp only [Layout.reads, Bool.or_eq_false_iff, Bool.not_eq_false'] at hr
        exact List.isEmpty_iff.mp hr.2
      rw [List.filter_cons_of_neg (by simp [hr]), ih, List.flatMap_cons, ht, List.nil_append]

theorem Layout.listed?_keep (layout : Layout) (e : Element) :
    layout.listed? (e.keep layout.reads) = layout.listed? e := by
  cases layout with
  | objects =>
    change (e.keep objects.reads).asObject? = e.asObject?
    unfold Element.asObject?
    rw [Element.param?_keep, Element.param?_keep]
  | links =>
    change (e.keep links.reads).asAnchor? = e.asAnchor?
    unfold Element.asAnchor?
    rw [Element.text_keep]
    rfl

/-- The entries are told from the tokens that a layout reads. -/
theorem filterMap_listed?_filter (layout : Layout) (ts : List Token) :
    (closedElements layout.tag (ts.filter layout.reads)).filterMap layout.listed? =
      (closedElements layout.tag ts).filterMap layout.listed? := by
  have hs : ∀ t, t.isStart layout.tag = true → layout.reads t = true := by
    intro t ht
    cases layout <;> simp_all [Layout.tag, Layout.reads]
  have he : ∀ t, t.isEnd layout.tag = true → layout.reads t = true := by
    intro t ht
    cases layout <;> simp_all [Layout.tag, Layout.reads]
  rw [closedElements_filter hs he, List.filterMap_map]
  apply List.filterMap_congr
  intro e _
  exact layout.listed?_keep e

end HelpMiner.Contents
