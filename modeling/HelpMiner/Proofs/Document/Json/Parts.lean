import HelpMiner.Document.Json.Skip
import HelpMiner.Proofs.Document.Json.Text

/-! Items of a list and members of a map are read one after another, as they are written. -/
namespace HelpMiner.Document.Json

/-! ## White space -/

theorem skipSpace_cons {c : Char} (hc : isSpace c = false) (s : List Char) :
    skipSpace (c :: s) = c :: s := by
  simp [skipSpace, hc]

theorem skipSpace_space (s : List Char) : skipSpace (' ' :: s) = skipSpace s := rfl

theorem skipSpace_newLine (level : Nat) (s : List Char) :
    skipSpace (newLine level ++ s) = skipSpace s := by
  have hspaces : ∀ c ∈ newLine level, isSpace c = true := by
    unfold newLine
    rw [List.forall_mem_cons]
    exact ⟨rfl, fun c hc => (List.eq_of_mem_replicate hc).symm ▸ rfl⟩
  unfold skipSpace
  exact List.dropWhile_append_of_pos hspaces

/-- No value begins with white space or a closing bracket, and only null begins as null does. -/
theorem value_eq_cons (level : Nat) (v : Value) :
    ∃ c more, value level v = c :: more ∧ isSpace c = false ∧ c ≠ ']' ∧ (v ≠ .null → c ≠ 'n') := by
  cases v with
  | null => exact ⟨'n', _, rfl, rfl, by decide, fun h => absurd rfl h⟩
  | bool b => cases b <;> exact ⟨_, _, rfl, rfl, by decide, fun _ => by decide⟩
  | nat n =>
    obtain ⟨c, ds, hds, hc, -⟩ := Text.exists_toDigits_eq_cons n
    refine ⟨c, ds, by rw [value, hds], ?_, ?_, ?_⟩
    · rw [Bool.eq_false_iff]
      intro hs
      simp only [isSpace, Bool.or_eq_true, beq_iff_eq] at hs
      rcases hs with ((rfl | rfl) | rfl) | rfl <;> exact absurd hc (by decide)
    · rintro rfl
      exact absurd hc (by decide)
    · rintro - rfl
      exact absurd hc (by decide)
  | text s => exact ⟨'"', _, rfl, rfl, by decide, fun _ => by decide⟩
  | list vs => cases vs <;> exact ⟨'[', _, rfl, rfl, by decide, fun _ => by decide⟩
  | map ms => rcases ms with _ | ⟨⟨k, v⟩, ms⟩ <;> exact ⟨'\x7b', _, rfl, rfl, by decide,
      fun _ => by decide⟩

theorem skipSpace_value (level : Nat) (v : Value) (rest : List Char) :
    skipSpace (value level v ++ rest) = value level v ++ rest := by
  obtain ⟨c, more, hv, hc, -⟩ := value_eq_cons level v
  rw [hv, List.cons_append, skipSpace_cons hc]

/-! ## Items and members -/

/-- The items of a list with the closing bracket, after the opening one or after an item. -/
def itemsFrom (level : Nat) : (first : Bool) → List Value → List Char
  | true, [] => [']']
  | true, v :: vs =>
    newLine (level + 1) ++ (value (level + 1) v ++
      (items (level + 1) vs ++ (newLine level ++ [']'])))
  | false, vs => items (level + 1) vs ++ (newLine level ++ [']'])

/-- The members of a map with the closing brace, after the opening one or after a member. -/
def membersFrom (level : Nat) : (first : Bool) → List (String × Value) → List Char
  | true, [] => ['\x7d']
  | true, (k, v) :: ms =>
    newLine (level + 1) ++ (string k ++ ([':', ' '] ++ (value (level + 1) v ++
      (members (level + 1) ms ++ (newLine level ++ ['\x7d'])))))
  | false, ms => members (level + 1) ms ++ (newLine level ++ ['\x7d'])

theorem value_list (level : Nat) (vs : List Value) :
    value level (.list vs) = '[' :: itemsFrom level true vs := by
  cases vs <;> simp [value, itemsFrom]

theorem value_map (level : Nat) (ms : List (String × Value)) :
    value level (.map ms) = '\x7b' :: membersFrom level true ms := by
  rcases ms with _ | ⟨⟨k, v⟩, ms⟩ <;> simp [value, membersFrom]

theorem followed_newLine (level : Nat) (s : List Char) : Followed (newLine level ++ s) :=
  ⟨'\n', _, rfl, Or.inr rfl⟩

theorem followed_itemsFrom (level : Nat) (vs : List Value) (rest : List Char) :
    Followed (itemsFrom level false vs ++ rest) := by
  cases vs with
  | nil =>
    rw [itemsFrom, items, List.nil_append, List.append_assoc]
    exact followed_newLine _ _
  | cons v vs => exact ⟨',', _, rfl, Or.inl rfl⟩

theorem followed_membersFrom (level : Nat) (ms : List (String × Value)) (rest : List Char) :
    Followed (membersFrom level false ms ++ rest) := by
  rcases ms with _ | ⟨⟨k, v⟩, ms⟩
  · rw [membersFrom, members, List.nil_append, List.append_assoc]
    exact followed_newLine _ _
  · exact ⟨',', _, rfl, Or.inl rfl⟩

theorem skipSpace_itemsFrom_nil (level : Nat) (first : Bool) (rest : List Char) :
    skipSpace (itemsFrom level first [] ++ rest) = ']' :: rest := by
  cases first with
  | true => rfl
  | false =>
    rw [itemsFrom, items, List.nil_append, List.append_assoc, skipSpace_newLine]
    rfl

theorem skipSpace_membersFrom_nil (level : Nat) (first : Bool) (rest : List Char) :
    skipSpace (membersFrom level first [] ++ rest) = '\x7d' :: rest := by
  cases first with
  | true => rfl
  | false =>
    rw [membersFrom, members, List.nil_append, List.append_assoc, skipSpace_newLine]
    rfl

theorem nextItem_nil (level : Nat) (first : Bool) (rest : List Char) :
    nextItem first (itemsFrom level first [] ++ rest) = .ok none := by
  unfold nextItem
  rw [skipSpace_itemsFrom_nil]
  rfl

theorem endList_nil (level : Nat) (first : Bool) (rest : List Char) :
    endList (itemsFrom level first [] ++ rest) = .ok rest := by
  unfold endList
  rw [skipSpace_itemsFrom_nil]
  rfl

theorem nextKey_nil (level : Nat) (first : Bool) (rest : List Char) :
    nextKey first (membersFrom level first [] ++ rest) = .ok none := by
  unfold nextKey
  rw [skipSpace_membersFrom_nil]
  rfl

theorem endMap_nil (level : Nat) (first : Bool) (rest : List Char) :
    endMap (membersFrom level first [] ++ rest) = .ok rest := by
  unfold endMap
  rw [skipSpace_membersFrom_nil]
  rfl

theorem nextItem_first {s rest : List Char} {c : Char} (hs : skipSpace s = c :: rest)
    (hc : c ≠ ']') : nextItem true s = .ok (some (c :: rest)) := by
  simp [nextItem, hs]

theorem nextItem_comma {s t rest : List Char} {c : Char} (hs : skipSpace s = ',' :: t)
    (ht : skipSpace t = c :: rest) (hc : c ≠ ']') :
    nextItem false s = .ok (some (c :: rest)) := by
  simp [nextItem, hs, ht, hc]

theorem nextKey_first {s rest : List Char} (hs : skipSpace s = '"' :: rest) :
    nextKey true s = .ok (some rest) := by
  simp [nextKey, hs]

theorem nextKey_comma {s t rest : List Char} (hs : skipSpace s = ',' :: t)
    (ht : skipSpace t = '"' :: rest) : nextKey false s = .ok (some rest) := by
  simp [nextKey, hs, ht]

theorem nextItem_cons (level : Nat) (first : Bool) (v : Value) (vs : List Value)
    (rest : List Char) :
    nextItem first (itemsFrom level first (v :: vs) ++ rest) =
      .ok (some (value (level + 1) v ++ (itemsFrom level false vs ++ rest))) := by
  obtain ⟨c, more, hv, hc, hend, -⟩ := value_eq_cons (level + 1) v
  have hitem : skipSpace (newLine (level + 1) ++
      (value (level + 1) v ++ (itemsFrom level false vs ++ rest))) =
      c :: (more ++ (itemsFrom level false vs ++ rest)) := by
    rw [skipSpace_newLine, skipSpace_value, hv, List.cons_append]
  rw [hv, List.cons_append]
  cases first with
  | true =>
    refine nextItem_first ?_ hend
    rw [← hitem]
    simp only [itemsFrom, List.append_assoc]
  | false =>
    refine nextItem_comma ?_ hitem hend
    rw [itemsFrom, items]
    simp only [itemsFrom, List.cons_append, List.append_assoc]
    exact skipSpace_cons rfl _

theorem nextKey_cons (level : Nat) (first : Bool) (k : String) (v : Value)
    (ms : List (String × Value)) (rest : List Char) :
    nextKey first (membersFrom level first ((k, v) :: ms) ++ rest) =
      .ok (some (k.toList.flatMap escape ++ '"' :: (':' :: ' ' :: (value (level + 1) v ++
        (membersFrom level false ms ++ rest))))) := by
  have hkey : ∀ s, skipSpace (newLine (level + 1) ++ (string k ++ s)) =
      '"' :: (k.toList.flatMap escape ++ '"' :: s) := by
    intro s
    rw [skipSpace_newLine, (stringBody_string k s).1, skipSpace_cons rfl]
  cases first with
  | true =>
    refine nextKey_first ?_
    simp only [membersFrom, List.append_assoc, hkey, List.cons_append, List.nil_append]
  | false =>
    refine nextKey_comma ?_ (hkey _)
    rw [membersFrom, members]
    simp only [membersFrom, List.cons_append, List.append_assoc, List.nil_append]
    exact skipSpace_cons rfl _

theorem colon_space (s : List Char) : colon (':' :: ' ' :: s) = .ok (' ' :: s) := rfl

/-! ## Lists and maps -/

/-- A way to read values gives `w` for the text of `v`, wherever that stands. -/
def ReadsAs {α : Type} (read : List Char → Except Problem (α × List Char)) (v : Value) (w : α) :
    Prop :=
  ∀ level s rest, Followed rest → skipSpace s = value level v ++ rest → read s = .ok (w, rest)

theorem ReadsAs.apply {α : Type} {read : List Char → Except Problem (α × List Char)} {v : Value}
    {w : α} (h : ReadsAs read v w) (level : Nat) {rest : List Char} (hrest : Followed rest) :
    read (value level v ++ rest) = .ok (w, rest) :=
  h level _ rest hrest (skipSpace_value level v rest)

theorem ReadsAs.apply_space {α : Type} {read : List Char → Except Problem (α × List Char)}
    {v : Value} {w : α} (h : ReadsAs read v w) (level : Nat) {rest : List Char}
    (hrest : Followed rest) :
    read (' ' :: (value level v ++ rest)) = .ok (w, rest) :=
  h level _ rest hrest ((skipSpace_space _).trans (skipSpace_value level v rest))

theorem allItems_itemsFrom {α : Type} {read : List Char → Except Problem (α × List Char)}
    {ps : List (Value × α)} (h : ∀ p ∈ ps, ReadsAs read p.1 p.2) (level : Nat) (rest : List Char)
    {fuel : Nat} (hfuel : ps.length < fuel) (first : Bool) :
    allItems read fuel first (itemsFrom level first (ps.map Prod.fst) ++ rest) =
      .ok (ps.map Prod.snd, rest) := by
  induction ps generalizing fuel first with
  | nil =>
    obtain ⟨fuel, rfl⟩ : ∃ n, fuel = n + 1 := ⟨fuel - 1, by simp at hfuel; omega⟩
    rw [List.map_nil, allItems, nextItem_nil]
    simp only [bind, Except.bind, endList_nil]
    rfl
  | cons p ps ih =>
    obtain ⟨fuel, rfl⟩ : ∃ n, fuel = n + 1 := ⟨fuel - 1, by simp at hfuel; omega⟩
    rw [List.forall_mem_cons] at h
    rw [List.length_cons, Nat.add_lt_add_iff_right] at hfuel
    have hread := h.1.apply (level + 1) (followed_itemsFrom level (ps.map Prod.fst) rest)
    rw [List.map_cons, allItems, nextItem_cons]
    simp only [bind, Except.bind, hread, ih h.2 hfuel false]
    rfl

/-- The keys with their values are read, if `read` gives the value of each member after its key. -/
theorem allMembers_membersFrom {α : Type}
    {read : String → List Char → Except Problem (α × List Char)} {ps : List (String × Value × α)}
    (level : Nat) (rest : List Char)
    (h : ∀ p ∈ ps, ∀ more, Followed more →
      read p.1 (':' :: ' ' :: (value (level + 1) p.2.1 ++ more)) = .ok (p.2.2, more))
    {fuel : Nat} (hfuel : ps.length < fuel) (first : Bool) :
    allMembers read fuel first (membersFrom level first (ps.map fun p => (p.1, p.2.1)) ++ rest) =
      .ok (ps.map fun p => (p.1, p.2.2), rest) := by
  induction ps generalizing fuel first with
  | nil =>
    obtain ⟨fuel, rfl⟩ : ∃ n, fuel = n + 1 := ⟨fuel - 1, by simp at hfuel; omega⟩
    rw [List.map_nil, allMembers, nextKey_nil]
    simp only [bind, Except.bind, endMap_nil]
    rfl
  | cons p ps ih =>
    obtain ⟨fuel, rfl⟩ : ∃ n, fuel = n + 1 := ⟨fuel - 1, by simp at hfuel; omega⟩
    rw [List.forall_mem_cons] at h
    rw [List.length_cons, Nat.add_lt_add_iff_right] at hfuel
    have hread := h.1 _ (followed_membersFrom level (ps.map fun p => (p.1, p.2.1)) rest)
    rw [List.map_cons, allMembers, nextKey_cons]
    simp only [bind, Except.bind, stringBody_flatMap_escape, String.ofList_toList, hread,
      ih h.2 hfuel false]
    rfl

/-! ## Fuel -/

theorem length_le_length_items (level : Nat) (vs : List Value) :
    vs.length ≤ (items level vs).length := by
  induction vs with
  | nil => exact Nat.zero_le _
  | cons v vs ih =>
    simp only [items, List.length_append, List.length_cons]
    omega

theorem length_le_length_members (level : Nat) (ms : List (String × Value)) :
    ms.length ≤ (members level ms).length := by
  induction ms with
  | nil => exact Nat.zero_le _
  | cons m ms ih =>
    simp only [members, List.length_append, List.length_cons]
    omega

theorem length_lt_steps_itemsFrom (level : Nat) (vs : List Value) (rest : List Char) :
    vs.length < steps (itemsFrom level true vs ++ rest) := by
  unfold steps
  cases vs with
  | nil => exact Nat.succ_pos _
  | cons v vs =>
    have h := length_le_length_items (level + 1) vs
    simp only [itemsFrom, List.length_append, List.length_cons]
    omega

theorem length_lt_steps_membersFrom (level : Nat) (ms : List (String × Value))
    (rest : List Char) : ms.length < steps (membersFrom level true ms ++ rest) := by
  unfold steps
  rcases ms with _ | ⟨⟨k, v⟩, ms⟩
  · exact Nat.succ_pos _
  · have h := length_le_length_members (level + 1) ms
    simp only [membersFrom, List.length_append, List.length_cons]
    omega

end HelpMiner.Document.Json
