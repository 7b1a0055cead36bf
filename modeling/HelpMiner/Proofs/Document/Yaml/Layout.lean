import HelpMiner.Proofs.Document.Yaml.Form

/-! The text of a value as rows: each item and each member of a block begins a line. -/
namespace HelpMiner.Document

/-- To prove something of all values, prove it of lists and maps of which it holds throughout. -/
@[elab_as_elim]
theorem Value.induction {P : Value → Prop} (null : P .null) (bool : ∀ b, P (.bool b))
    (nat : ∀ n, P (.nat n)) (text : ∀ s, P (.text s))
    (list : ∀ vs : List Value, (∀ v ∈ vs, P v) → P (.list vs))
    (map : ∀ ms : List (String × Value), (∀ m ∈ ms, P m.2) → P (.map ms)) (v : Value) : P v :=
  match v with
  | .null => null
  | .bool b => bool b
  | .nat n => nat n
  | .text s => text s
  | .list vs => list vs fun v _ => Value.induction null bool nat text list map v
  | .map ms => map ms fun m _ => Value.induction null bool nat text list map m.2
termination_by sizeOf v
decreasing_by
  · rename_i hv
    have hlt := List.sizeOf_lt_of_mem hv
    simp only [Value.list.sizeOf_spec]
    omega
  · rename_i hm
    have hlt := List.sizeOf_lt_of_mem hm
    have hpart : sizeOf m = 1 + sizeOf m.1 + sizeOf m.2 := by cases m; rfl
    simp only [Value.map.sizeOf_spec]
    omega

namespace Yaml

/-! ## Lines -/

/-- A text that ends with its line. -/
def EndsLine (s : List Char) : Prop := s.getLast?.any isBreak = true

theorem EndsLine.ended {s : List Char} (h : EndsLine s) : ended s = s := by
  rw [EndsLine] at h
  rw [Yaml.ended, h, if_pos rfl]

theorem endsLine_ended (s : List Char) : EndsLine (ended s) := by
  rw [ended]
  split
  · assumption
  · rw [EndsLine, List.getLast?_concat]
    rfl

theorem EndsLine.append_left {t : List Char} (h : EndsLine t) (s : List Char) :
    EndsLine (s ++ t) := by
  cases t with
  | nil => cases h
  | cons x t => rwa [EndsLine, List.getLast?_append_of_ne_nil _ (List.cons_ne_nil _ _)]

-- These hold by computation. The equations of the mutual definitions take seconds to generate.
theorem items_nil (n : Nat) : items n [] = [] := rfl

theorem members_nil (n : Nat) : members n [] = [] := rfl

theorem members_cons (n : Nat) (k : String) (v : Value) (ms : List (String × Value)) :
    members n ((k, v) :: ms) =
      spaces n ++ (member n k (fun compact => after n compact v) ++ members n ms) :=
  List.append_assoc _ _ _

/-- An item with its dash. -/
def item (n : Nat) (v : Value) : List Char := ended ('-' :: after n true v)

theorem endsLine_item (n : Nat) (v : Value) : EndsLine (item n v) := endsLine_ended _

theorem items_eq (n : Nat) (v : Value) (vs : List Value) :
    items n (v :: vs) = spaces n ++ (item n v ++ items n vs) :=
  List.append_assoc _ _ _

theorem endsLine_items {s : List Char} (hs : EndsLine s) (n : Nat) (vs : List Value) :
    EndsLine (s ++ items n vs) := by
  induction vs generalizing s with
  | nil => rwa [items_nil, List.append_nil]
  | cons v vs ih =>
    rw [items_eq, ← List.append_assoc, ← List.append_assoc]
    exact ih ((endsLine_item _ _).append_left _)

theorem endsLine_member (n : Nat) (k : String) (value : Bool → List Char) :
    EndsLine (member n k value) := by
  rw [member]
  split
  · exact endsLine_ended _
  · exact (endsLine_ended _).append_left _

theorem endsLine_members {s : List Char} (hs : EndsLine s) (n : Nat) (ms : List (String × Value)) :
    EndsLine (s ++ members n ms) := by
  induction ms generalizing s with
  | nil => rwa [members_nil, List.append_nil]
  | cons m ms ih =>
    rw [members_cons, ← List.append_assoc, ← List.append_assoc]
    exact ih ((endsLine_member _ _ _).append_left _)

/-! ## Values in their places -/

/-- What follows the indicator of a value, with the end of its last line. -/
def placed (n : Nat) (compact : Bool) (v : Value) : List Char := ended (after n compact v)

theorem after_ne_nil (n : Nat) (compact : Bool) (v : Value) : after n compact v ≠ [] := by
  match v, compact with
  | .null, _ | .bool true, _ | .bool false, _ | .list [], _ | .map [], _ => exact nofun
  | .nat k, _ => exact List.cons_ne_nil _ _
  | .text s, _ => exact List.cons_ne_nil _ _
  | .list (v :: vs), true | .list (v :: vs), false => exact List.cons_ne_nil _ _
  | .map ((k, v) :: ms), true | .map ((k, v) :: ms), false => exact List.cons_ne_nil _ _

theorem item_eq (n : Nat) (v : Value) : item n v = '-' :: placed n true v :=
  ended_cons '-' (after_ne_nil n true v)

theorem items_cons (n : Nat) (v : Value) (vs : List Value) :
    items n (v :: vs) = spaces n ++ ('-' :: (placed n true v ++ items n vs)) := by
  rw [items_eq, item_eq]
  rfl

/-- A member from its key on. -/
theorem member_eq (n : Nat) (k : String) (v : Value) :
    member n k (fun compact => after n compact v) =
      if isSimpleKey k then scalar (n + 2) k.toList ++ ':' :: placed n false v
      else '?' :: ' ' :: ((Form.of k.toList).line (n + 2) k.toList ++
        (spaces n ++ ':' :: placed n true v)) := by
  have hkey : ended (' ' :: scalar (n + 2) k.toList) =
      ' ' :: (Form.of k.toList).line (n + 2) k.toList := by
    have hfits := Form.fits_of k.toList
    rw [Form.scalar_eq, ended_cons _ (Form.write_ne_nil hfits), Form.ended_write hfits]
  rw [member]
  split
  · rw [ended_append _ (List.cons_ne_nil _ _), ended_cons _ (after_ne_nil n false v)]
    rfl
  · rw [ended_cons '?' (List.cons_ne_nil _ _), hkey, ended_cons ':' (after_ne_nil n true v)]
    simp [placed]

theorem placed_items (n : Nat) (v : Value) (vs : List Value) :
    placed n false (.list (v :: vs)) = '\n' :: items n (v :: vs) := by
  have hafter : after n false (.list (v :: vs)) = ('\n' :: spaces n ++ item n v) ++ items n vs :=
    rfl
  rw [placed, hafter, (endsLine_items ((endsLine_item n v).append_left _) n vs).ended,
    items_eq, List.cons_append, List.cons_append, List.append_assoc]

theorem placed_items_compact (n : Nat) (v : Value) (vs : List Value) :
    placed n true (.list (v :: vs)) =
      ' ' :: '-' :: (placed (n + 2) true v ++ items (n + 2) vs) := by
  have hafter : after n true (.list (v :: vs)) =
      ([' '] ++ item (n + 2) v) ++ items (n + 2) vs := rfl
  rw [placed, hafter,
    (endsLine_items ((endsLine_item (n + 2) v).append_left _) (n + 2) vs).ended, item_eq]
  rfl

theorem placed_members (n : Nat) (k : String) (v : Value) (ms : List (String × Value)) :
    placed n false (.map ((k, v) :: ms)) = '\n' :: members (n + 2) ((k, v) :: ms) := by
  have hafter : after n false (.map ((k, v) :: ms)) = ('\n' :: spaces (n + 2) ++
      member (n + 2) k (fun compact => after (n + 2) compact v)) ++ members (n + 2) ms := rfl
  rw [placed, hafter,
    (endsLine_members (EndsLine.append_left (endsLine_member _ _ _) _) (n + 2) ms).ended,
    members_cons, List.cons_append, List.cons_append, List.append_assoc]

theorem placed_members_compact (n : Nat) (k : String) (v : Value) (ms : List (String × Value)) :
    placed n true (.map ((k, v) :: ms)) =
      ' ' :: (member (n + 2) k (fun compact => after (n + 2) compact v) ++ members (n + 2) ms) :=
  (endsLine_members (EndsLine.append_left (endsLine_member _ _ _) [' ']) (n + 2) ms).ended

/-! ## Scalars -/

theorem isPrintable_of_isAlphanum {x : Char} (h : x.isAlphanum = true) : isPrintable x = true := by
  have hrange : 0x30 ≤ x.toNat ∧ x.toNat ≤ 0x7A := by
    rcases Bool.or_eq_true_iff.1 h with hletter | hdigit
    · rcases Bool.or_eq_true_iff.1 hletter with hupper | hlower
      · have hval : 0x41 ≤ x.toNat ∧ x.toNat ≤ 0x5A := of_decide_eq_true hupper
        omega
      · have hval := Bool.and_eq_true_iff.1 hlower
        have hfirst : 0x61 ≤ x.toNat := of_decide_eq_true hval.1
        have hlast : x.toNat ≤ 0x7A := of_decide_eq_true hval.2
        omega
    · have hval := Char.isDigit_iff_toNat.1 hdigit
      exact ⟨hval.1, Nat.le_trans hval.2 (by decide)⟩
  simp [isPrintable]
  omega

theorem hasPair_eq_false {p q : Char → Bool} {s : List Char} (h : ∀ x ∈ s, p x = false) :
    hasPair p q s = false := by
  induction s with
  | nil => rfl
  | cons x s ih =>
    rw [List.forall_mem_cons] at h
    cases s with
    | nil => rfl
    | cons y s => rw [hasPair, h.1, ih h.2, Bool.false_and, Bool.false_or]

theorem badInside_eq_false {s : List Char} (h : ∀ x ∈ s, x ≠ ':' ∧ x ≠ '#') :
    badInside s = false := by
  induction s with
  | nil => rfl
  | cons x s ih =>
    rw [List.forall_mem_cons] at h
    cases s with
    | nil => rfl
    | cons y s =>
      obtain ⟨hcolon, hcomment⟩ := h.2 y List.mem_cons_self
      simp [badInside, hcolon, hcomment, ih h.2]

theorem badLead_of_isAlphanum {x : Char} (h : x.isAlphanum = true) (s : List Char) :
    badLead (x :: s) = false := by
  have hx : ∀ c, c.isAlphanum = false → x ≠ c := by
    rintro c hc rfl
    exact Bool.false_ne_true (hc.symm.trans h)
  have hindicator : leadIndicators.contains x = false := by
    have hall : ∀ c ∈ leadIndicators, c.isAlphanum = false := by decide
    rw [Bool.eq_false_iff]
    exact fun hc => hx x (hall x (List.elem_iff.1 hc)) rfl
  have hmarker : ∀ c, c.isAlphanum = false → [c, c, c].isPrefixOf (x :: s) = false := by
    intro c hc
    simp [List.isPrefixOf, (hx c hc).symm]
  have hdash : "---".toList.isPrefixOf (x :: s) = false := hmarker '-' rfl
  have hdot : "...".toList.isPrefixOf (x :: s) = false := hmarker '.' rfl
  rw [badLead, hindicator, hdash, hdot]
  simp [hx '-' rfl, hx '?' rfl, hx ':' rfl]

/-- A word of letters and digits stands without quotes. -/
theorem plainAllowed_of_isAlphanum {s : List Char} (hne : s ≠ [])
    (h : ∀ x ∈ s, x.isAlphanum = true) : plainAllowed s = true := by
  have hother : ∀ c, c.isAlphanum = false → ∀ x ∈ s, x ≠ c := by
    rintro c hc x hx rfl
    exact Bool.false_ne_true (hc.symm.trans (h x hx))
  have hspace : ∀ x ∈ s, (x == ' ') = false := fun x hx =>
    beq_eq_false_iff_ne.2 (hother ' ' rfl x hx)
  have hbreak : ∀ x ∈ s, isBreak x = false := fun x hx => by
    simp [isBreak, hother '\n' rfl x hx, hother '\r' rfl x hx, hother '\u0085' rfl x hx,
      hother '\u2028' rfl x hx, hother '\u2029' rfl x hx]
  have hdouble : needsDouble s = false := by
    have hprint : s.all isPrintable = true :=
      List.all_eq_true.2 fun x hx => isPrintable_of_isAlphanum (h x hx)
    rw [needsDouble, hprint, hasPair_eq_false hspace]
    rfl
  have hedge : hasBlankEdge s = false := by
    simp only [hasBlankEdge, List.head?_eq_some_head hne, List.getLast?_eq_some_getLast hne,
      Option.any_some, hspace _ (List.head_mem hne), hbreak _ (List.head_mem hne),
      hspace _ (List.getLast_mem hne), hbreak _ (List.getLast_mem hne), Bool.or_self]
  have hlead : badLead s = false := by
    obtain ⟨x, s, rfl⟩ := List.exists_cons_of_ne_nil hne
    exact badLead_of_isAlphanum (h x List.mem_cons_self) s
  have hinside : badInside s = false :=
    badInside_eq_false fun x hx => ⟨hother ':' rfl x hx, hother '#' rfl x hx⟩
  have hany : s.any isBreak = false := by simpa using hbreak
  simp only [plainAllowed, hdouble, hedge, hany, hlead, hinside, Bool.not_false, Bool.and_self]

/-- The style and the text of a value that is a scalar. -/
def leaf? : Value → Option (Form × List Char)
  | .null => some (.plain, "null".toList)
  | .bool true => some (.plain, "true".toList)
  | .bool false => some (.plain, "false".toList)
  | .nat n => some (.plain, Nat.toDigits 10 n)
  | .text s => some (Form.of s.toList, s.toList)
  | .list _ | .map _ => none

theorem fits_of_leaf {v : Value} {form : Form} {s : List Char} (h : leaf? v = some (form, s)) :
    form.Fits s := by
  have hword : ∀ w : List Char, w ≠ [] → (∀ x ∈ w, x.isAlphanum = true) → Form.plain.Fits w :=
    fun w hne hw => .plain hne (plainAllowed_of_isAlphanum hne hw)
  unfold leaf? at h
  split at h
  · cases h
    exact hword _ (by decide) (by decide)
  · cases h
    exact hword _ (by decide) (by decide)
  · cases h
    exact hword _ (by decide) (by decide)
  · cases h
    rename_i k
    obtain ⟨d, ds, hds, -⟩ := Text.exists_toDigits_eq_cons k
    refine hword _ (hds ▸ List.cons_ne_nil d ds) fun x hx => ?_
    rw [Char.isAlphanum, Text.isDigit_of_mem_toDigits x hx, Bool.or_true]
  · cases h
    exact Form.fits_of _
  · cases h
  · cases h

theorem placed_leaf {v : Value} {form : Form} {s : List Char} (h : leaf? v = some (form, s))
    (n : Nat) (compact : Bool) : placed n compact v = ' ' :: form.line (n + 2) s := by
  have hfits := fits_of_leaf h
  have hwrite : after n compact v = ' ' :: form.write (n + 2) s := by
    unfold leaf? at h
    split at h
    all_goals cases h
    case h_5 => exact congrArg _ (Form.scalar_eq _ _)
    all_goals rfl
  rw [placed, hwrite, ended_cons _ (Form.write_ne_nil hfits), Form.ended_write hfits]

theorem placed_empty_list (n : Nat) (compact : Bool) :
    placed n compact (.list []) = " []\n".toList := rfl

theorem placed_empty_map (n : Nat) (compact : Bool) :
    placed n compact (.map []) = " \x7b\x7d\n".toList := rfl

theorem atGap_placed (n : Nat) (compact : Bool) (v : Value) (t : List Char) :
    atGap (placed n compact v ++ t) = true := by
  cases hleaf : leaf? v with
  | some l =>
    rw [placed_leaf hleaf]
    rfl
  | none =>
    match v, compact with
    | .list [], compact =>
      rw [placed_empty_list]
      rfl
    | .list (v :: vs), false =>
      rw [placed_items]
      rfl
    | .list (v :: vs), true =>
      rw [placed_items_compact]
      rfl
    | .map [], compact =>
      rw [placed_empty_map]
      rfl
    | .map ((k, v) :: ms), false =>
      rw [placed_members]
      rfl
    | .map ((k, v) :: ms), true =>
      rw [placed_members_compact]
      rfl

/-! ## Characters -/

/-- A text that a document can hold. -/
def Allowed (s : List Char) : Prop := ∀ x ∈ s, isAllowed x = true

instance (s : List Char) : Decidable (Allowed s) :=
  inferInstanceAs (Decidable (∀ x ∈ s, isAllowed x = true))

theorem allowed_append {s t : List Char} : Allowed (s ++ t) ↔ Allowed s ∧ Allowed t :=
  List.forall_mem_append

theorem allowed_cons {x : Char} {s : List Char} :
    Allowed (x :: s) ↔ isAllowed x = true ∧ Allowed s :=
  List.forall_mem_cons

theorem isAllowed_of_isPrintable {x : Char} (h : isPrintable x = true) : isAllowed x = true := by
  simp only [isPrintable, Bool.or_eq_true, Bool.and_eq_true, beq_iff_eq, decide_eq_true_eq,
    bne_iff_ne] at h
  simp only [isAllowed, Bool.or_eq_true, Bool.and_eq_true, beq_iff_eq, decide_eq_true_eq]
  omega

theorem allowed_spaces (n : Nat) : Allowed (spaces n) := fun x hx => by
  rw [List.eq_of_mem_replicate hx]
  rfl

theorem Allowed.singleRest {s : List Char} (h : Allowed s) (n : Nat) (newLine : Bool) :
    Allowed (singleRest n newLine s) := by
  have hfront : ∀ newLine : Bool, Allowed (if newLine then spaces n else []) := by
    intro newLine
    split
    · exact allowed_spaces n
    · exact List.forall_mem_nil _
  induction s generalizing newLine with
  | nil => exact allowed_append.2 ⟨hfront newLine, by decide⟩
  | cons x s ih =>
    rw [allowed_cons] at h
    rw [Yaml.singleRest]
    split
    · exact allowed_cons.2 ⟨h.1, ih h.2 true⟩
    · refine allowed_append.2 ⟨allowed_append.2 ⟨hfront newLine, ?_⟩, ih h.2 false⟩
      split
      · decide
      · exact allowed_cons.2 ⟨h.1, List.forall_mem_nil _⟩

theorem Allowed.blockText {s : List Char} (h : Allowed s) (n : Nat) (newLine : Bool) :
    Allowed (blockText n newLine s) := by
  induction s generalizing newLine with
  | nil => exact List.forall_mem_nil _
  | cons x s ih =>
    rw [allowed_cons] at h
    rw [Yaml.blockText]
    split
    · exact allowed_cons.2 ⟨h.1, ih h.2 true⟩
    · refine allowed_append.2 ⟨?_, allowed_cons.2 ⟨h.1, ih h.2 false⟩⟩
      split
      · exact allowed_spaces n
      · exact List.forall_mem_nil _

theorem allowed_hexDigits (k n : Nat) : Allowed (hexDigits k n) := by
  have hdigit : ∀ d < 16, isAllowed (Nat.digitChar d).toUpper = true := by decide
  intro x hx
  obtain ⟨i, -, rfl⟩ := List.mem_map.1 hx
  exact hdigit _ (Nat.mod_lt _ (by decide))

theorem allowed_escape (x : Char) : Allowed (escape x) := by
  unfold escape
  split
  case h_15 =>
    split_ifs with hprint hsmall hmiddle
    · exact allowed_cons.2 ⟨isAllowed_of_isPrintable hprint, List.forall_mem_nil _⟩
    all_goals exact allowed_cons.2 ⟨rfl, allowed_cons.2 ⟨rfl, allowed_hexDigits _ _⟩⟩
  all_goals decide

theorem allowed_write {form : Form} {s : List Char} (h : form.Fits s) (n : Nat) :
    Allowed (form.write n s) := by
  have hprint : ∀ {s : List Char}, (∀ x ∈ s, isPrintable x = true) → Allowed s :=
    fun hs x hx => isAllowed_of_isPrintable (hs x hx)
  cases h with
  | @plain s hne h =>
    simp only [plainAllowed, Bool.and_eq_true, Bool.not_eq_true'] at h
    exact hprint (all_isPrintable_of_needsDouble h.1.1.1.1)
  | single h => exact allowed_cons.2 ⟨rfl, (hprint h.printable).singleRest n false⟩
  | @double s =>
    refine allowed_cons.2 ⟨rfl, allowed_append.2 ⟨fun y hy => ?_, by decide⟩⟩
    obtain ⟨x, -, hy⟩ := List.mem_flatMap.1 hy
    exact allowed_escape x y hy
  | @block s hne h =>
    have hsigns : Allowed (indentSign s) ∧ Allowed (chompSign s) := by
      constructor
      · rcases indentSign_cases s with hs | hs <;> rw [hs] <;> decide
      · rcases chompSign_cases s with hs | hs | hs <;> rw [hs] <;> decide
    refine allowed_append.2 ⟨allowed_cons.2 ⟨rfl, ?_⟩, allowed_cons.2 ⟨rfl, ?_⟩⟩
    · exact allowed_append.2 hsigns
    · exact (hprint h).blockText n true

theorem allowed_line {form : Form} {s : List Char} (h : form.Fits s) (n : Nat) :
    Allowed (form.line n s) := by
  rw [← Form.ended_write h, ended_eq_append_lineEnd, allowed_append]
  refine ⟨allowed_write h n, ?_⟩
  rw [lineEnd]
  split <;> decide

theorem allowed_items {vs : List Value} (h : ∀ v ∈ vs, ∀ n compact, Allowed (placed n compact v))
    (n : Nat) : Allowed (items n vs) := by
  induction vs with
  | nil => exact List.forall_mem_nil _
  | cons v vs ih =>
    rw [List.forall_mem_cons] at h
    rw [items_cons]
    exact allowed_append.2 ⟨allowed_spaces n, allowed_cons.2 ⟨rfl, allowed_append.2
      ⟨h.1 n true, ih h.2⟩⟩⟩

theorem allowed_member {v : Value} (h : ∀ n compact, Allowed (placed n compact v)) (n : Nat)
    (k : String) : Allowed (member n k fun compact => after n compact v) := by
  have hfits := Form.fits_of k.toList
  rw [member_eq]
  split
  · rw [Form.scalar_eq]
    exact allowed_append.2 ⟨allowed_write hfits _, allowed_cons.2 ⟨rfl, h n false⟩⟩
  · refine allowed_cons.2 ⟨rfl, allowed_cons.2 ⟨rfl, allowed_append.2 ⟨allowed_line hfits _, ?_⟩⟩⟩
    exact allowed_append.2 ⟨allowed_spaces n, allowed_cons.2 ⟨rfl, h n true⟩⟩

theorem allowed_members {ms : List (String × Value)}
    (h : ∀ m ∈ ms, ∀ n compact, Allowed (placed n compact m.2)) (n : Nat) :
    Allowed (members n ms) := by
  induction ms with
  | nil => exact List.forall_mem_nil _
  | cons m ms ih =>
    obtain ⟨k, v⟩ := m
    rw [List.forall_mem_cons] at h
    rw [members_cons]
    exact allowed_append.2 ⟨allowed_spaces n, allowed_append.2 ⟨allowed_member h.1 n k, ih h.2⟩⟩

theorem allowed_placed (v : Value) : ∀ n compact, Allowed (placed n compact v) := by
  -- Values without parts are written as one scalar; the others by their place and their first part.
  have hleaf : ∀ v, (leaf? v).isSome = true → ∀ n compact, Allowed (placed n compact v) := by
    intro v hv n compact
    obtain ⟨⟨form, s⟩, hs⟩ := Option.isSome_iff_exists.1 hv
    rw [placed_leaf hs]
    exact allowed_cons.2 ⟨rfl, allowed_line (fits_of_leaf hs) _⟩
  induction v using Value.induction with
  | null => exact hleaf _ rfl
  | bool b => exact hleaf _ (by cases b <;> rfl)
  | nat k => exact hleaf _ rfl
  | text s => exact hleaf _ rfl
  | list vs ih =>
    intro n compact
    match vs, compact with
    | [], compact =>
      rw [placed_empty_list]
      decide
    | v :: vs, false =>
      rw [placed_items]
      exact allowed_cons.2 ⟨rfl, allowed_items ih n⟩
    | v :: vs, true =>
      rw [List.forall_mem_cons] at ih
      rw [placed_items_compact]
      exact allowed_cons.2 ⟨rfl, allowed_cons.2 ⟨rfl, allowed_append.2
        ⟨ih.1 _ true, allowed_items ih.2 _⟩⟩⟩
  | map ms ih =>
    intro n compact
    match ms, compact with
    | [], compact =>
      rw [placed_empty_map]
      decide
    | (k, v) :: ms, false =>
      rw [placed_members]
      exact allowed_cons.2 ⟨rfl, allowed_members ih _⟩
    | (k, v) :: ms, true =>
      rw [List.forall_mem_cons] at ih
      rw [placed_members_compact]
      exact allowed_cons.2 ⟨rfl, allowed_append.2
        ⟨allowed_member ih.1 _ k, allowed_members ih.2 _⟩⟩

end Yaml

end HelpMiner.Document
