import HelpMiner.Proofs.Document.Yaml.Layout
import HelpMiner.Proofs.Document.Yaml.Leaf

/-! The tokens of a value: its text yields them, wherever it stands in a document. -/
namespace HelpMiner.Document.Yaml

mutual

/-- The tokens of a value. A list right after a key has no block of its own, unless it stands in a
    compact place. -/
def valueTokens (compact : Bool) : Value → List Token
  | .null => [.scalar .plain "null"]
  | .bool true => [.scalar .plain "true"]
  | .bool false => [.scalar .plain "false"]
  | .nat n => [.scalar .plain (String.ofList (Nat.toDigits 10 n))]
  | .text s => [.scalar (Form.of s.toList).style s]
  | .list [] => [.flowSequence, .flowSequenceEnd]
  | .list (v :: vs) =>
    if compact then .blockSequence :: itemTokens (v :: vs) ++ [.blockEnd] else itemTokens (v :: vs)
  | .map [] => [.flowMapping, .flowMappingEnd]
  | .map (m :: ms) => .blockMapping :: memberTokens (m :: ms) ++ [.blockEnd]

/-- The tokens of items, with their indicators. -/
def itemTokens : List Value → List Token
  | [] => []
  | v :: vs => .blockEntry :: valueTokens true v ++ itemTokens vs

/-- The tokens of members, with their indicators. -/
def memberTokens : List (String × Value) → List Token
  | [] => []
  | (k, v) :: ms =>
    .key :: .scalar (Form.of k.toList).style k :: .value ::
      (valueTokens (!isSimpleKey k) v ++ memberTokens ms)

end

theorem valueTokens_leaf {v : Value} {form : Form} {s : List Char} (h : leaf? v = some (form, s))
    (compact : Bool) : valueTokens compact v = [.scalar form.style (String.ofList s)] := by
  unfold leaf? at h
  split at h
  all_goals cases h
  all_goals simp [valueTokens, Form.style]

namespace Scan

/-- A value in the block at `n` yields its tokens, whatever lines come after it. -/
def Reads (v : Value) : Prop :=
  ∀ (compact : Bool) (tokens : List Token) (n : Nat) (outer : List Int) (text : List Char)
    (ts : List Token),
    LinesYield n ((valueTokens compact v).reverse ++ tokens) ((n : Int) :: outer) text ts →
      ValueYields compact tokens n outer (placed n compact v ++ text) ts

variable {n : Nat} {tokens tokens' ts : List Token} {indents outer : List Int} {text : List Char}
  {v : Value} {k : String}

theorem reads_leaf {form : Form} {s : List Char} (h : leaf? v = some (form, s)) : Reads v := by
  intro compact tokens n outer text ts hlines
  rw [valueTokens_leaf h] at hlines
  rw [placed_leaf h]
  exact .scalar (fits_of_leaf h) hlines

/-! ## Rows -/

/-- An item from its dash on. -/
theorem Reads.item (hv : Reads v)
    (hopens : Opens n .blockSequence tokens indents tokens' ((n : Int) :: outer))
    (h : LinesYield n ((valueTokens true v).reverse ++ .blockEntry :: tokens') ((n : Int) :: outer)
      text ts) : RowYields tokens indents n ('-' :: (placed n true v ++ text)) ts :=
  .indicator .item hopens (atGap_placed _ _ _ _) (hv _ _ _ _ _ _ h)

/-- A member from its key on. -/
theorem Reads.member (hv : Reads v)
    (hopens : Opens n .blockMapping tokens indents tokens' ((n : Int) :: outer))
    (h : LinesYield n ((valueTokens (!isSimpleKey k) v).reverse ++
      .value :: .scalar (Form.of k.toList).style k :: .key :: tokens') ((n : Int) :: outer) text
      ts) :
    RowYields tokens indents n (member n k (fun compact => after n compact v) ++ text) ts := by
  rw [member_eq]
  split
  · rename_i hk
    rw [hk] at h
    rw [List.append_assoc, List.cons_append]
    exact .simpleKey hk hopens (atGap_placed _ _ _ _) (hv _ _ _ _ _ _ h)
  -- The key is a value after its own indicator, and the colon begins a second row.
  · rename_i hk
    rw [Bool.not_eq_true] at hk
    rw [hk] at h
    have hvalue : RowYields (.scalar (Form.of k.toList).style k :: .key :: tokens')
        ((n : Int) :: outer) n (':' :: (placed n true v ++ text)) ts :=
      .indicator .value (.already rfl) (atGap_placed _ _ _ _) (hv _ _ _ _ _ _ h)
    have hlines := hvalue.lines (begins_cons rfl rfl (by decide) (by decide) _)
    have hkey : ValueYields true (.key :: tokens') n outer
        (' ' :: ((Form.of k.toList).line (n + 2) k.toList ++
          (spaces n ++ ':' :: (placed n true v ++ text)))) ts :=
      .scalar (Form.fits_of k.toList) (by rwa [String.ofList_toList])
    have hrow := RowYields.indicator .key hopens rfl hkey
    simpa using hrow

theorem begins_member (n : Nat) (k : String) (v : Value) (t : List Char) :
    Begins (Yaml.member n k (fun compact => after n compact v) ++ t) := by
  rw [member_eq]
  split
  · rw [Form.scalar_eq, List.append_assoc]
    exact Form.begins_write (Form.fits_of _) _
  · exact begins_cons rfl rfl (by decide) (by decide) _

theorem LinesYield.items {vs : List Value} (hvs : ∀ v ∈ vs, Reads v)
    (h : LinesYield n ((itemTokens vs).reverse ++ tokens) ((n : Int) :: outer) text ts) :
    LinesYield n tokens ((n : Int) :: outer) (items n vs ++ text) ts := by
  induction vs generalizing tokens with
  | nil => exact h
  | cons v vs ih =>
    rw [List.forall_mem_cons] at hvs
    have hrest := @ih ((valueTokens true v).reverse ++ .blockEntry :: tokens) hvs.2
      (by simpa [itemTokens] using h)
    have hrow := (hvs.1.item (.already rfl) hrest).lines
      (begins_cons rfl rfl (by decide) (by decide) _)
    simpa [items_cons] using hrow

theorem LinesYield.members {ms : List (String × Value)} (hms : ∀ m ∈ ms, Reads m.2)
    (h : LinesYield n ((memberTokens ms).reverse ++ tokens) ((n : Int) :: outer) text ts) :
    LinesYield n tokens ((n : Int) :: outer) (members n ms ++ text) ts := by
  induction ms generalizing tokens with
  | nil => exact h
  | cons m ms ih =>
    obtain ⟨k, v⟩ := m
    rw [List.forall_mem_cons] at hms
    have hrest := @ih ((valueTokens (!isSimpleKey k) v).reverse ++
      .value :: .scalar (Form.of k.toList).style k :: .key :: tokens) hms.2
      (by simpa [memberTokens] using h)
    have hrow := (hms.1.member (.already rfl) hrest).lines (begins_member n k v _)
    simpa [members_cons] using hrow

/-! ## Blocks -/

/-- The rows of a list that opens a block of its own. -/
theorem RowYields.items {vs : List Value} (hv : Reads v) (hvs : ∀ v ∈ vs, Reads v)
    (hopens : indents.headD (-1) < (n : Int))
    (h : LinesYield n ((itemTokens (v :: vs)).reverse ++ .blockSequence :: tokens)
      ((n : Int) :: indents) text ts) :
    RowYields tokens indents n ('-' :: (placed n true v ++ (Yaml.items n vs ++ text))) ts :=
  hv.item (.opens hopens) (LinesYield.items hvs (by simpa [itemTokens] using h))

/-- The rows of a map, which opens a block. -/
theorem RowYields.members {ms : List (String × Value)} (hv : Reads v) (hms : ∀ m ∈ ms, Reads m.2)
    (hopens : indents.headD (-1) < (n : Int))
    (h : LinesYield n ((memberTokens ((k, v) :: ms)).reverse ++ .blockMapping :: tokens)
      ((n : Int) :: indents) text ts) :
    RowYields tokens indents n
      (Yaml.member n k (fun compact => after n compact v) ++ (Yaml.members n ms ++ text)) ts :=
  hv.member (.opens hopens) (LinesYield.members hms (by simpa [memberTokens] using h))

theorem headD_lt_inner (n : Nat) (outer : List Int) :
    ((n : Int) :: outer).headD (-1) < ((n + 2 : Nat) : Int) :=
  Int.ofNat_lt.2 (Nat.lt_add_of_pos_right (by decide))

/-- What comes after a block that is two columns inside another one. -/
theorem LinesYield.inner {t : Token} {block : List Token}
    (h : LinesYield n ((t :: block ++ [Token.blockEnd]).reverse ++ tokens) ((n : Int) :: outer) text
      ts) :
    LinesYield (n + 2) (block.reverse ++ t :: tokens) (((n + 2 : Nat) : Int) :: (n : Int) :: outer)
      text ts := by
  have hclosed : LinesYield n (.blockEnd :: (block.reverse ++ t :: tokens)) ((n : Int) :: outer)
      text ts := by
    simpa using h
  exact (hclosed.close (headD_lt_inner n outer)).mono (Nat.le_add_right n 2)

theorem reads_list {vs : List Value} (hvs : ∀ v ∈ vs, Reads v) : Reads (.list vs) := by
  intro compact tokens n outer text ts h
  match vs, compact with
  | [], compact =>
    rw [placed_empty_list]
    exact .brackets .list h
  | v :: vs, false =>
    rw [placed_items]
    exact (LinesYield.items hvs h).value
  | v :: vs, true =>
    rw [List.forall_mem_cons] at hvs
    have hrow := RowYields.items hvs.1 hvs.2 (headD_lt_inner n outer) (LinesYield.inner h)
    rw [placed_items_compact]
    simpa using hrow.value (begins_cons rfl rfl (by decide) (by decide) _)

theorem reads_map {ms : List (String × Value)} (hms : ∀ m ∈ ms, Reads m.2) : Reads (.map ms) := by
  intro compact tokens n outer text ts h
  match ms, compact with
  | [], compact =>
    rw [placed_empty_map]
    exact .brackets .map h
  | (k, v) :: ms, false =>
    rw [List.forall_mem_cons] at hms
    have hrow := RowYields.members hms.1 hms.2 (headD_lt_inner n outer) (LinesYield.inner h)
    have hvalue := (hrow.lines (begins_member (n + 2) k v _)).value
    rw [placed_members, members_cons]
    simpa using hvalue
  | (k, v) :: ms, true =>
    rw [List.forall_mem_cons] at hms
    have hrow := RowYields.members hms.1 hms.2 (headD_lt_inner n outer) (LinesYield.inner h)
    have hvalue := hrow.value (begins_member (n + 2) k v _)
    rw [placed_members_compact]
    simpa using hvalue

theorem reads (v : Value) : Reads v := by
  induction v using Value.induction with
  | null => exact reads_leaf rfl
  | bool b => cases b <;> exact reads_leaf rfl
  | nat k => exact reads_leaf rfl
  | text s => exact reads_leaf rfl
  | list vs ih => exact reads_list ih
  | map ms ih => exact reads_map ih

/-- A text that begins with a row is read from its beginning. -/
theorem RowYields.run {text : List Char} (htext : Begins text) (h : RowYields [] [] 0 text ts) :
    run (text.length + 2) (.initial text) = some ts := by
  have hgaps : ∀ fuel, (initial text).cursor.rest.length < fuel →
      (skipGaps fuel (.initial text)).dropStale = some (.initial text) := by
    intro fuel hfuel
    rw [skipGaps_spaces (n := 0) rfl htext (by omega)]
    rfl
  have hyields : Yields (.initial text) ts :=
    .of_here hgaps (Nat.le_refl _) (h _ ⟨rfl, rfl, rfl, rfl, rfl, rfl, rfl⟩)
  exact hyields _ (Nat.lt_succ_self _)

end Scan

/-- The text of a map has the tokens of the map. -/
theorem tokens?_render (ms : List (String × Value)) :
    tokens? (render (.map ms)).toList = some (valueTokens false (.map ms)) := by
  match ms with
  | [] => rfl
  | (k, v) :: ms =>
    have hallowed : Allowed (member 0 k (fun compact => after 0 compact v) ++ members 0 ms) :=
      allowed_append.2 ⟨allowed_member (allowed_placed v) 0 k,
        allowed_members (fun m _ => allowed_placed m.2) 0⟩
    have hend := Scan.linesYield_nil ((memberTokens ((k, v) :: ms)).reverse ++ [.blockMapping])
    have hrow : Scan.RowYields [] [] 0
        (member 0 k (fun compact => after 0 compact v) ++ (members 0 ms ++ [])) _ :=
      .members (Scan.reads v) (fun m _ => Scan.reads m.2) (by decide) hend
    have hrun := hrow.run (Scan.begins_member 0 k v _)
    rw [render, String.toList_ofList, tokens?, List.all_eq_true.2 hallowed, if_pos rfl]
    simpa [valueTokens] using hrun

end HelpMiner.Document.Yaml
