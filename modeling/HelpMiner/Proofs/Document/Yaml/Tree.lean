import HelpMiner.Document.Yaml.Node
import HelpMiner.Proofs.Document.Yaml.Tokens

/-! The tokens of a value are parsed into the nodes that stand for it. -/
namespace HelpMiner.Document.Yaml

mutual

/-- The node of a value. -/
def nodeOf : Value → Node
  | .null => .scalar none .plain "null"
  | .bool true => .scalar none .plain "true"
  | .bool false => .scalar none .plain "false"
  | .nat n => .scalar none .plain (String.ofList (Nat.toDigits 10 n))
  | .text s => .scalar none (Form.of s.toList).style s
  | .list vs => .sequence none (itemNodes vs)
  | .map ms => .mapping none (memberNodes ms)

/-- The nodes of items. -/
def itemNodes : List Value → List Node
  | [] => []
  | v :: vs => nodeOf v :: itemNodes vs

/-- The nodes of members. -/
def memberNodes : List (String × Value) → List (Node × Node)
  | [] => []
  | (k, v) :: ms => (.scalar none (Form.of k.toList).style k, nodeOf v) :: memberNodes ms

end

theorem nodeOf_leaf {v : Value} {form : Form} {s : List Char} (h : leaf? v = some (form, s)) :
    nodeOf v = .scalar none form.style (String.ofList s) := by
  unfold leaf? at h
  split at h
  all_goals cases h
  all_goals simp [nodeOf, Form.style]

/-- The same parse with other tokens to come. -/
def Parse.at (p : Parse) (ts : List Token) : Parse := { p with tokens := ts }

namespace Parser

variable {α β : Type} (p : Parse) (t : Token) (ts : List Token)

theorem bind_of_run {x : Parser α} {f : α → Parser β} {p q : Parse} {a : α}
    (h : x p = some (a, q)) : (x >>= f) p = f a q := by
  simp [bind, StateT.bind, h]

theorem peek_at : peek (p.at ts) = some (ts.head?, p.at ts) := rfl

theorem advance_at : advance (p.at (t :: ts)) = some ((), p.at ts) := rfl

theorem accept_at : accept t (p.at (t :: ts)) = some (true, p.at ts) := by
  simp [accept, Parse.at]

theorem accept_ne {t : Token} {ts : List Token} (h : ts.head? ≠ some t) :
    accept t (p.at ts) = some (false, p.at ts) := by
  have hne : (ts.head? == some t) = false := beq_eq_false_iff_ne.2 h
  rw [accept, Parse.at, hne]
  rfl

theorem sees_at (ends : List Token) :
    sees ends (p.at (t :: ts)) = some (ends.contains t, p.at (t :: ts)) := rfl

/-! ## Beginnings of nodes -/

/-- A token that begins a node without properties. -/
inductive Begins : Token → Prop
  | scalar {style : Style} {text : String} : Begins (.scalar style text)
  | entry : Begins .blockEntry
  | flowSequence : Begins .flowSequence
  | flowMapping : Begins .flowMapping
  | blockSequence : Begins .blockSequence
  | blockMapping : Begins .blockMapping

/-- Tokens that end what may have nothing in it. -/
def separators : List Token := [.key, .value, .blockEnd]

theorem Begins.not_mem_separators {t : Token} (h : Begins t) : t ∉ separators := by
  cases h <;> simp [separators]

/-- A node without properties is what it holds. -/
theorem node_of_begins {t : Token} (h : Begins t) (fuel : Nat) (block items : Bool) :
    node (fuel + 1) block items (p.at (t :: ts)) =
      content fuel block items none false (p.at (t :: ts)) := by
  have hproperties : properties (p.at (t :: ts)) = some ((none, none), p.at (t :: ts)) := by
    cases h <;> rfl
  have hkeep : (content fuel block items none false >>= keep none) (p.at (t :: ts)) =
      content fuel block items none false (p.at (t :: ts)) := by
    simp only [bind, StateT.bind]
    cases content fuel block items none false (p.at (t :: ts)) <;> rfl
  rw [node, bind_of_run (peek_at p _)]
  cases h
  all_goals exact (bind_of_run hproperties).trans hkeep

theorem content_scalar (fuel : Nat) (items : Bool) (style : Style) (text : String) :
    content (fuel + 1) true items none false (p.at (.scalar style text :: ts)) =
      some (.scalar none style text, p.at ts) := by
  rw [content]
  rfl

theorem content_blockSequence {p q : Parse} {ts : List Token} {fuel : Nat} {ns : List Node}
    (h : blockItems fuel (p.at ts) = some (ns, q)) (items : Bool) :
    content (fuel + 1) true items none false (p.at (.blockSequence :: ts)) =
      some (.sequence none ns, q) := by
  rw [content, bind_of_run (peek_at p _)]
  exact (bind_of_run (advance_at p _ ts)).trans (bind_of_run h)

theorem content_blockMapping {p q : Parse} {ts : List Token} {fuel : Nat}
    {ns : List (Node × Node)} (h : blockMembers fuel (p.at ts) = some (ns, q)) (items : Bool) :
    content (fuel + 1) true items none false (p.at (.blockMapping :: ts)) =
      some (.mapping none ns, q) := by
  rw [content, bind_of_run (peek_at p _)]
  exact (bind_of_run (advance_at p _ ts)).trans (bind_of_run h)

/-- Where items can stand without a block of their own, they make a sequence. -/
theorem content_entry {p q : Parse} {ts : List Token} {fuel : Nat} {ns : List Node}
    (h : bareItems fuel (p.at (.blockEntry :: ts)) = some (ns, q)) :
    content (fuel + 1) true true none false (p.at (.blockEntry :: ts)) =
      some (.sequence none ns, q) := by
  rw [content, bind_of_run (peek_at p _)]
  exact bind_of_run h

theorem content_flowSequence (fuel : Nat) (items : Bool) :
    content (fuel + 2) true items none false (p.at (.flowSequence :: .flowSequenceEnd :: ts)) =
      some (.sequence none [], p.at ts) := by
  rw [content, bind_of_run (peek_at p _)]
  refine (bind_of_run (advance_at p _ _)).trans (bind_of_run (a := []) (q := p.at ts) ?_)
  rw [flowItems, bind_of_run (accept_at p _ ts)]
  rfl

theorem content_flowMapping (fuel : Nat) (items : Bool) :
    content (fuel + 2) true items none false (p.at (.flowMapping :: .flowMappingEnd :: ts)) =
      some (.mapping none [], p.at ts) := by
  rw [content, bind_of_run (peek_at p _)]
  refine (bind_of_run (advance_at p _ _)).trans (bind_of_run (a := []) (q := p.at ts) ?_)
  rw [flowMembers, bind_of_run (accept_at p _ ts)]
  rfl

/-! ## Values -/

theorem exists_valueTokens (compact : Bool) (v : Value) :
    ∃ t ts, valueTokens compact v = t :: ts ∧ Begins t ∧ (compact = true → t ≠ .blockEntry) := by
  cases hleaf : leaf? v with
  | some l => exact ⟨_, _, valueTokens_leaf hleaf compact, .scalar, fun _ => nofun⟩
  | none =>
    match v, compact with
    | .list [], _ => exact ⟨_, _, rfl, .flowSequence, fun _ => nofun⟩
    -- These items have no block, so the dash of the first one begins the node.
    | .list (v :: vs), false => exact ⟨_, _, rfl, .entry, nofun⟩
    | .list (v :: vs), true => exact ⟨_, _, rfl, .blockSequence, fun _ => nofun⟩
    | .map [], _ => exact ⟨_, _, rfl, .flowMapping, fun _ => nofun⟩
    | .map ((k, v) :: ms), _ => exact ⟨_, _, rfl, .blockMapping, fun _ => nofun⟩

/-- The tokens of a value are parsed into its node. Items without a block must be allowed where the
    value stands, and they end with the last of them. -/
def Parses (v : Value) : Prop :=
  ∀ (compact items : Bool) (fuel : Nat) (p : Parse) (rest : List Token),
    (compact = false → items = true ∧ rest.head? ≠ some .blockEntry) →
    4 * (valueTokens compact v).length ≤ fuel →
      node fuel true items (p.at (valueTokens compact v ++ rest)) = some (nodeOf v, p.at rest)

theorem Parses.nodeUnless {v : Value} (hv : Parses v) {compact items : Bool}
    {ends rest : List Token}
    (hends : ∀ t ∈ ends, compact = true ∧ t = .blockEntry ∨ t ∈ separators)
    (hrest : compact = false → items = true ∧ rest.head? ≠ some .blockEntry) {fuel : Nat}
    (hfuel : 4 * (valueTokens compact v).length + 1 ≤ fuel) (p : Parse) :
    nodeUnless fuel ends true items (p.at (valueTokens compact v ++ rest)) =
      some (nodeOf v, p.at rest) := by
  obtain ⟨fuel, rfl⟩ : ∃ m, fuel = m + 1 := ⟨fuel - 1, by omega⟩
  obtain ⟨t, ts, htokens, hbegins, hentry⟩ := exists_valueTokens compact v
  have hother : ends.contains t = false := by
    rw [Bool.eq_false_iff]
    intro ht
    rcases hends t (List.elem_iff.1 ht) with ⟨hcompact, rfl⟩ | hmem
    · exact hentry hcompact rfl
    · exact hbegins.not_mem_separators hmem
  have hnode := hv compact items fuel p rest hrest (by omega)
  rw [htokens, List.cons_append] at hnode ⊢
  rw [Parser.nodeUnless, bind_of_run (sees_at p t _ ends), hother]
  exact hnode

theorem blockItems_itemTokens {vs : List Value} (hvs : ∀ v ∈ vs, Parses v) {fuel : Nat}
    (hfuel : 4 * (itemTokens vs).length ≤ fuel + 2) (hpos : 0 < fuel) (p : Parse)
    (rest : List Token) :
    blockItems fuel (p.at (itemTokens vs ++ .blockEnd :: rest)) =
      some (itemNodes vs, p.at rest) := by
  induction vs generalizing fuel with
  | nil =>
    obtain ⟨fuel, rfl⟩ : ∃ m, fuel = m + 1 := ⟨fuel - 1, by omega⟩
    rw [itemTokens, List.nil_append, blockItems, bind_of_run (accept_ne p (by simp))]
    exact bind_of_run (accept_at p _ rest)
  | cons v vs ih =>
    obtain ⟨fuel, rfl⟩ : ∃ m, fuel = m + 1 := ⟨fuel - 1, by omega⟩
    rw [List.forall_mem_cons] at hvs
    simp only [itemTokens, List.cons_append, List.length_cons, List.length_append] at hfuel
    have hv : Parser.nodeUnless fuel [.blockEntry, .blockEnd] true false
        (p.at (valueTokens true v ++ (itemTokens vs ++ .blockEnd :: rest))) =
          some (nodeOf v, p.at (itemTokens vs ++ .blockEnd :: rest)) := by
      refine hvs.1.nodeUnless ?_ ?_ ?_ p
      · decide
      · simp
      · omega
    have hrest := ih hvs.2 (show 4 * (itemTokens vs).length ≤ fuel + 2 by omega) (by omega)
    rw [itemTokens, List.cons_append, List.cons_append, List.append_assoc, blockItems,
      bind_of_run (accept_at p _ _)]
    exact (bind_of_run hv).trans (bind_of_run hrest)

/-- Items without a block of their own end before any other token. -/
theorem bareItems_itemTokens {vs : List Value} (hvs : ∀ v ∈ vs, Parses v) {fuel : Nat}
    (hfuel : 4 * (itemTokens vs).length ≤ fuel + 2) (hpos : 0 < fuel) (p : Parse)
    {rest : List Token} (hrest : rest.head? ≠ some .blockEntry) :
    bareItems fuel (p.at (itemTokens vs ++ rest)) = some (itemNodes vs, p.at rest) := by
  induction vs generalizing fuel with
  | nil =>
    obtain ⟨fuel, rfl⟩ : ∃ m, fuel = m + 1 := ⟨fuel - 1, by omega⟩
    rw [itemTokens, List.nil_append, bareItems, bind_of_run (accept_ne p hrest)]
    rfl
  | cons v vs ih =>
    obtain ⟨fuel, rfl⟩ : ∃ m, fuel = m + 1 := ⟨fuel - 1, by omega⟩
    rw [List.forall_mem_cons] at hvs
    simp only [itemTokens, List.cons_append, List.length_cons, List.length_append] at hfuel
    have hv : Parser.nodeUnless fuel [.blockEntry, .key, .value, .blockEnd] true false
        (p.at (valueTokens true v ++ (itemTokens vs ++ rest))) =
          some (nodeOf v, p.at (itemTokens vs ++ rest)) := by
      refine hvs.1.nodeUnless ?_ ?_ ?_ p
      · decide
      · simp
      · omega
    have hmore := ih hvs.2 (show 4 * (itemTokens vs).length ≤ fuel + 2 by omega) (by omega)
    rw [itemTokens, List.cons_append, List.cons_append, List.append_assoc, bareItems,
      bind_of_run (accept_at p _ _)]
    exact (bind_of_run hv).trans (bind_of_run hmore)

theorem nodeUnless_key (k : String) {fuel : Nat} (hfuel : 3 ≤ fuel) (p : Parse) (ts : List Token) :
    Parser.nodeUnless fuel separators true true
      (p.at (.scalar (Form.of k.toList).style k :: ts)) =
        some (.scalar none (Form.of k.toList).style k, p.at ts) := by
  obtain ⟨fuel, rfl⟩ : ∃ m, fuel = m + 3 := ⟨fuel - 3, by omega⟩
  rw [Parser.nodeUnless, bind_of_run (sees_at p _ ts separators)]
  exact (node_of_begins p ts .scalar (fuel + 1) true true).trans (content_scalar p ts fuel true _ k)

theorem blockMembers_memberTokens {ms : List (String × Value)} (hms : ∀ m ∈ ms, Parses m.2)
    {fuel : Nat} (hfuel : 4 * (memberTokens ms).length ≤ fuel + 2) (hpos : 0 < fuel) (p : Parse)
    (rest : List Token) :
    blockMembers fuel (p.at (memberTokens ms ++ .blockEnd :: rest)) =
      some (memberNodes ms, p.at rest) := by
  induction ms generalizing fuel with
  | nil =>
    obtain ⟨fuel, rfl⟩ : ∃ m, fuel = m + 1 := ⟨fuel - 1, by omega⟩
    rw [memberTokens, List.nil_append, blockMembers, bind_of_run (accept_ne p (by simp))]
    exact bind_of_run (accept_at p _ rest)
  | cons m ms ih =>
    obtain ⟨fuel, rfl⟩ : ∃ m, fuel = m + 1 := ⟨fuel - 1, by omega⟩
    obtain ⟨k, v⟩ := m
    rw [List.forall_mem_cons] at hms
    simp only [memberTokens, List.length_cons, List.length_append] at hfuel
    have hnext : (memberTokens ms ++ .blockEnd :: rest).head? ≠ some .blockEntry := by
      cases ms <;> simp [memberTokens]
    -- The parser takes up the mark of the key, the key, the mark of the value and the value.
    have hk := nodeUnless_key k (show 3 ≤ fuel by omega) p
      (.value :: (valueTokens (!isSimpleKey k) v ++ (memberTokens ms ++ .blockEnd :: rest)))
    have hv : Parser.nodeUnless fuel separators true true
        (p.at (valueTokens (!isSimpleKey k) v ++ (memberTokens ms ++ .blockEnd :: rest))) =
          some (nodeOf v, p.at (memberTokens ms ++ .blockEnd :: rest)) := by
      refine Parses.nodeUnless hms.1 ?_ ?_ ?_ p
      · exact fun t ht => Or.inr ht
      · exact fun _ => ⟨rfl, hnext⟩
      · simp only
        omega
    have hmore := ih hms.2 (show 4 * (memberTokens ms).length ≤ fuel + 2 by omega) (by omega)
    rw [memberTokens, List.cons_append, List.cons_append, List.cons_append, List.append_assoc,
      blockMembers, bind_of_run (accept_at p _ _)]
    exact (bind_of_run hk).trans ((bind_of_run (accept_at p _ _)).trans
      ((bind_of_run hv).trans (bind_of_run hmore)))

theorem parses_leaf {v : Value} {form : Form} {s : List Char} (h : leaf? v = some (form, s)) :
    Parses v := by
  intro compact items fuel p rest _ hfuel
  rw [valueTokens_leaf h] at hfuel ⊢
  obtain ⟨fuel, rfl⟩ : ∃ m, fuel = m + 2 := ⟨fuel - 2, by simp at hfuel; omega⟩
  rw [nodeOf_leaf h]
  exact (node_of_begins p rest .scalar (fuel + 1) true items).trans
    (content_scalar p rest fuel items _ _)

theorem parses_list {vs : List Value} (hvs : ∀ v ∈ vs, Parses v) : Parses (.list vs) := by
  intro compact items fuel p rest hrest hfuel
  match vs, compact with
  | [], compact =>
    obtain ⟨fuel, rfl⟩ : ∃ m, fuel = m + 3 := ⟨fuel - 3, by simp [valueTokens] at hfuel; omega⟩
    exact (node_of_begins p _ .flowSequence (fuel + 2) true items).trans
      (content_flowSequence p rest fuel items)
  | v :: vs, false =>
    obtain ⟨rfl, hhead⟩ := hrest rfl
    have htokens : valueTokens false (.list (v :: vs)) = itemTokens (v :: vs) := rfl
    have hlength : 2 ≤ (itemTokens (v :: vs)).length := by
      obtain ⟨t, ts, hv, -⟩ := exists_valueTokens true v
      simp [itemTokens, hv]
    rw [htokens] at hfuel ⊢
    obtain ⟨fuel, rfl⟩ : ∃ m, fuel = m + 2 := ⟨fuel - 2, by omega⟩
    have hitems := bareItems_itemTokens hvs hfuel (by omega) p hhead
    exact (node_of_begins p _ .entry (fuel + 1) true true).trans (content_entry hitems)
  | v :: vs, true =>
    have htokens : valueTokens true (.list (v :: vs)) =
        .blockSequence :: itemTokens (v :: vs) ++ [.blockEnd] := rfl
    rw [htokens] at hfuel ⊢
    simp only [List.length_append, List.length_cons, List.length_nil] at hfuel
    obtain ⟨fuel, rfl⟩ : ∃ m, fuel = m + 2 := ⟨fuel - 2, by omega⟩
    have hitems := blockItems_itemTokens hvs
      (show 4 * (itemTokens (v :: vs)).length ≤ fuel + 2 by omega) (by omega) p rest
    rw [List.append_assoc]
    exact (node_of_begins p _ .blockSequence (fuel + 1) true items).trans
      (content_blockSequence hitems items)

theorem parses_map {ms : List (String × Value)} (hms : ∀ m ∈ ms, Parses m.2) :
    Parses (.map ms) := by
  intro compact items fuel p rest hrest hfuel
  match ms with
  | [] =>
    obtain ⟨fuel, rfl⟩ : ∃ m, fuel = m + 3 := ⟨fuel - 3, by simp [valueTokens] at hfuel; omega⟩
    exact (node_of_begins p _ .flowMapping (fuel + 2) true items).trans
      (content_flowMapping p rest fuel items)
  | m :: ms =>
    have htokens : valueTokens compact (.map (m :: ms)) =
        .blockMapping :: memberTokens (m :: ms) ++ [.blockEnd] := rfl
    rw [htokens] at hfuel ⊢
    simp only [List.length_append, List.length_cons, List.length_nil] at hfuel
    obtain ⟨fuel, rfl⟩ : ∃ m, fuel = m + 2 := ⟨fuel - 2, by omega⟩
    have hmembers := blockMembers_memberTokens hms
      (show 4 * (memberTokens (m :: ms)).length ≤ fuel + 2 by omega) (by omega) p rest
    rw [List.append_assoc]
    exact (node_of_begins p _ .blockMapping (fuel + 1) true items).trans
      (content_blockMapping hmembers items)

theorem parses (v : Value) : Parses v := by
  induction v using Value.induction with
  | null => exact parses_leaf rfl
  | bool b => cases b <;> exact parses_leaf rfl
  | nat k => exact parses_leaf rfl
  | text s => exact parses_leaf rfl
  | list vs ih => exact parses_list ih
  | map ms ih => exact parses_map ih

/-- A document that begins with a node has no directives and no marker. -/
theorem document_of_node {p q : Parse} {t : Token} {ts : List Token} (ht : Begins t) {n : Node}
    {fuel : Nat} (h : node (fuel + 1) true false (p.at (t :: ts)) = some (n, q.at [])) :
    document (fuel + 1) (p.at (t :: ts)) = some (n, q.at []) := by
  have hdirected : seesDirective (p.at (t :: ts)) = some (false, p.at (t :: ts)) := by
    cases ht <;> rfl
  have hdirectives :
      directives (fuel + 1) false [] (p.at (t :: ts)) = some ((), p.at (t :: ts)) := by
    rw [directives, bind_of_run (peek_at p _)]
    cases ht <;> rfl
  have hstart : accept .documentStart (p.at (t :: ts)) = some (false, p.at (t :: ts)) :=
    accept_ne p (by cases ht <;> simp)
  have hends : skipEnds (fuel + 1) (q.at []) = some ((), q.at []) := by
    rw [skipEnds, bind_of_run (accept_ne q (by simp))]
    rfl
  rw [document, bind_of_run (peek_at p _)]
  refine (bind_of_run hdirected).trans ((bind_of_run hdirectives).trans ?_)
  refine (bind_of_run hstart).trans ((bind_of_run h).trans ?_)
  exact bind_of_run hends

end Parser

/-- The text of a map is read as the node of the map. -/
theorem parse?_render (ms : List (String × Value)) :
    ∃ t, Tree.parse? (render (.map ms)).toList = some t ∧ t.root = nodeOf (.map ms) := by
  have htokens : tokens? (render (.map ms)).toList = some (valueTokens true (.map ms)) := by
    rw [tokens?_render]
    cases ms <;> rfl
  let start : Parse := ⟨[], [], 0, [], usualHandles⟩
  have hsteps : 4 * (valueTokens true (.map ms)).length ≤
      4 * (valueTokens true (.map ms)).length + 7 + 1 := by omega
  have hnode := Parser.parses (.map ms) true false _ start [] nofun hsteps
  rw [List.append_nil] at hnode
  obtain ⟨t, ts, hfirst, hbegins, -⟩ := Parser.exists_valueTokens true (.map ms)
  have hdocument : Parser.document (parseSteps (valueTokens true (.map ms)))
      (start.at (valueTokens true (.map ms))) = some (nodeOf (.map ms), start.at []) := by
    rw [hfirst] at hnode ⊢
    exact Parser.document_of_node hbegins hnode
  have hrun : (Parser.document (parseSteps (valueTokens true (.map ms)))).run
      ⟨valueTokens true (.map ms), [], 0, [], usualHandles⟩ =
        some (nodeOf (.map ms), start.at []) := hdocument
  refine ⟨⟨nodeOf (.map ms), ((List.range 1).map (latest [])).toArray⟩, ?_, rfl⟩
  simp only [Tree.parse?, htokens, bind, Option.bind, hrun]
  rfl

end HelpMiner.Document.Yaml
