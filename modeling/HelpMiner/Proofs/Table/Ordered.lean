import HelpMiner.Table.Ordered

/-! Tables in order of insertion: what an insertion changes, and the table of its own entries. -/
namespace HelpMiner

variable {α : Type}

/-- Look-up tries the first entry, and then the others. -/
theorem find?_cons_entry (e : String × α) (rest : List (String × α)) (key : String) :
    ((e :: rest).find? fun a => a.1 == key).map (·.2) =
      if key = e.1 then some e.2 else (rest.find? fun a => a.1 == key).map (·.2) := by
  rw [List.find?_cons]
  by_cases h : key = e.1
  · rw [if_pos h, h, beq_self_eq_true]
    rfl
  · have he : (e.1 == key) = false := beq_eq_false_iff_ne.2 fun he => h he.symm
    rw [if_neg h, he]

/-- Where keys are distinct, an entry is found under its key. -/
theorem find?_eq_some_iff_mem {es : List (String × α)} (h : (es.map Prod.fst).Nodup) {key : String}
    {value : α} : (es.find? fun e => e.1 == key).map (·.2) = some value ↔ (key, value) ∈ es := by
  induction es with
  | nil => simp
  | cons e rest ih =>
    rw [List.map_cons, List.nodup_cons] at h
    rw [find?_cons_entry, List.mem_cons]
    by_cases hk : key = e.1
    · have hrest : (key, value) ∉ rest := fun hm => h.1 (hk ▸ List.mem_map_of_mem hm)
      rw [if_pos hk, or_iff_left hrest, Option.some.injEq, Prod.ext_iff]
      exact ⟨fun hv => ⟨hk, hv.symm⟩, fun hv => hv.2.symm⟩
    · have hfirst : (key, value) ≠ e := fun he => hk (congrArg Prod.fst he)
      rw [if_neg hk, or_iff_right hfirst, ih h.2]

/-! ## The last value of a key in a list -/

/-- The value that a list gives a key last. -/
def lastValue? (key : String) (es : List (String × α)) : Option α :=
  (es.reverse.find? fun e => e.1 == key).map (·.2)

theorem lastValue?_cons (key : String) (e : String × α) (rest : List (String × α)) :
    lastValue? key (e :: rest) = (lastValue? key rest).or (if key = e.1 then some e.2 else none) := by
  have hone := find?_cons_entry e [] key
  unfold lastValue?
  rw [List.reverse_cons, List.find?_append, Option.map_or, hone]
  rfl

/-- The last value of a key stands before entries of other keys. -/
theorem exists_of_lastValue? {key : String} {value : α} {es : List (String × α)}
    (h : lastValue? key es = some value) :
    ∃ before after, es = before ++ (key, value) :: after ∧ key ∉ after.map Prod.fst := by
  obtain ⟨e, hfind, hvalue⟩ := Option.map_eq_some_iff.1 h
  obtain ⟨hkey, after, before, hsplit, hafter⟩ := List.find?_eq_some_iff_append.1 hfind
  have he : e = (key, value) := Prod.ext (beq_iff_eq.1 hkey) hvalue
  refine ⟨before.reverse, after.reverse, ?_, ?_⟩
  · have hes := congrArg List.reverse hsplit
    rw [List.reverse_reverse, List.reverse_append, List.reverse_cons, he] at hes
    rw [hes, List.append_assoc, List.singleton_append]
  · intro hm
    obtain ⟨a, ha, hak⟩ := List.mem_map.1 hm
    have hne := hafter a (List.mem_reverse.1 ha)
    simp [hak] at hne

theorem lastValue?_eq_find? {es : List (String × α)} (h : (es.map Prod.fst).Nodup) (key : String) :
    lastValue? key es = (es.find? fun e => e.1 == key).map (·.2) := by
  induction es with
  | nil => rfl
  | cons e rest ih =>
    rw [List.map_cons, List.nodup_cons] at h
    rw [lastValue?_cons, find?_cons_entry, ih h.2]
    by_cases hk : key = e.1
    · have hnone : rest.find? (fun a => a.1 == key) = none := by
        apply List.find?_eq_none.2
        intro a ha hak
        exact h.1 (List.mem_map.2 ⟨a, ha, (beq_iff_eq.1 hak).trans hk⟩)
      rw [hnone, if_pos hk, if_pos hk]
      rfl
    · rw [if_neg hk, if_neg hk, Option.or_none]

/-- Where each insertion sets the value of its key, a key is found with its last value. -/
theorem lookup_foldl {τ : Type} {insert : τ → String × α → τ} {key : String} (get : τ → Option α)
    (h : ∀ t e, get (insert t e) = if key = e.1 then some e.2 else get t)
    (es : List (String × α)) (t : τ) :
    get (es.foldl insert t) = (lastValue? key es).or (get t) := by
  induction es generalizing t with
  | nil => rfl
  | cons e rest ih =>
    rw [List.foldl_cons, ih, h, lastValue?_cons, Option.or_assoc]
    by_cases hk : key = e.1
    · rw [if_pos hk, if_pos hk]
      rfl
    · rw [if_neg hk, if_neg hk]
      rfl

namespace OrderedTable

theorem find?_putEntry (key : String) (value : α) (es : List (String × α)) (other : String) :
    ((putEntry key value es).find? fun e => e.1 == other).map (·.2) =
      if other = key then some value else (es.find? fun e => e.1 == other).map (·.2) := by
  induction es with
  | nil => exact find?_cons_entry (key, value) [] other
  | cons e rest ih =>
    unfold putEntry
    by_cases he : e.1 = key
    · rw [if_pos he, find?_cons_entry, find?_cons_entry, he]
      by_cases h : other = key
      · rw [if_pos h, if_pos h]
      · rw [if_neg h, if_neg h, if_neg h]
    · rw [if_neg he, find?_cons_entry, find?_cons_entry, ih]
      by_cases ho : other = e.1
      · rw [if_pos ho, if_pos ho, if_neg fun hk => he (ho.symm.trans hk)]
      · rw [if_neg ho, if_neg ho]

/-- An insertion sets the value of its key, and no other. -/
theorem get?_insert (t : OrderedTable α) (key : String) (value : α) (other : String) :
    (t.insert key value).get? other = if other = key then some value else t.get? other :=
  find?_putEntry key value t.entries other

theorem ext_entries {t u : OrderedTable α} (h : t.entries = u.entries) : t = u := by
  obtain ⟨entries, _⟩ := t
  obtain ⟨other, _⟩ := u
  obtain rfl : entries = other := h
  rfl

/-- The value of one key is set, in place or at the end, and nothing else changes. -/
structure Sets (key : String) (value : α) (before after : OrderedTable α) : Prop where
  value : after.get? key = some value
  others : ∀ other, other ≠ key → after.get? other = before.get? other
  keys : after.keys = if key ∈ before.keys then before.keys else before.keys ++ [key]

theorem sets_insert (t : OrderedTable α) (key : String) (value : α) :
    Sets key value t (t.insert key value) where
  value := by rw [get?_insert, if_pos rfl]
  others := by
    intro other h
    rw [get?_insert, if_neg h]
  keys := keys_insert t key value

theorem putEntry_putEntry (key : String) (value : α) (es : List (String × α)) :
    putEntry key value (putEntry key value es) = putEntry key value es := by
  induction es with
  | nil => simp [putEntry]
  | cons e rest ih =>
    by_cases he : e.1 = key
    · simp [putEntry, he]
    · simp [putEntry, he, ih]

/-- A value that is set again stays as it is. -/
@[simp] theorem insert_insert (t : OrderedTable α) (key : String) (value : α) :
    (t.insert key value).insert key value = t.insert key value :=
  ext_entries (putEntry_putEntry key value t.entries)

theorem putEntry_of_not_mem {key : String} {es : List (String × α)}
    (h : key ∉ es.map Prod.fst) (value : α) : putEntry key value es = es ++ [(key, value)] := by
  induction es with
  | nil => rfl
  | cons e rest ih =>
    rw [List.map_cons, List.mem_cons, not_or] at h
    unfold putEntry
    rw [if_neg fun he => h.1 he.symm, ih h.2]
    rfl

theorem foldl_insert_entries (es : List (String × α)) (t : OrderedTable α)
    (h : (t.entries ++ es).map Prod.fst |>.Nodup) :
    (es.foldl (fun t e => t.insert e.1 e.2) t).entries = t.entries ++ es := by
  induction es generalizing t with
  | nil => simp
  | cons e rest ih =>
    have hkey : e.1 ∉ t.entries.map Prod.fst := by
      rw [List.map_append, List.nodup_append] at h
      intro hm
      exact h.2.2 _ hm _ (by simp) rfl
    have hentries : (t.insert e.1 e.2).entries = t.entries ++ [e] := putEntry_of_not_mem hkey e.2
    rw [List.foldl_cons, ih, hentries, List.append_assoc, List.singleton_append]
    rw [hentries, List.append_assoc, List.singleton_append]
    exact h

/-- A table is built again by inserting its entries in their order. -/
theorem ofList_entries (t : OrderedTable α) : ofList t.entries = t :=
  ext_entries (foldl_insert_entries t.entries empty t.nodup)

/-! ## Tables of lists with repeated keys -/

theorem keys_foldl_insert (es : List (String × α)) (t : OrderedTable α) :
    (es.foldl (fun t e => t.insert e.1 e.2) t).keys =
      t.keys ++ ((es.map Prod.fst).removeAll t.keys).eraseDups := by
  induction es generalizing t with
  | nil => exact (List.append_nil _).symm
  | cons e rest ih =>
    rw [List.foldl_cons, ih, keys_insert, List.map_cons]
    by_cases hm : e.1 ∈ t.keys
    · have hdrop : (e.1 :: rest.map Prod.fst).removeAll t.keys =
          (rest.map Prod.fst).removeAll t.keys := List.filter_cons_of_neg (by simpa using hm)
      rw [if_pos hm, hdrop]
    · have hkeep : (e.1 :: rest.map Prod.fst).removeAll t.keys =
          e.1 :: (rest.map Prod.fst).removeAll t.keys := List.filter_cons_of_pos (by simpa using hm)
      have hmore : (rest.map Prod.fst).removeAll (t.keys ++ [e.1]) =
          ((rest.map Prod.fst).removeAll t.keys).filter fun key => !key == e.1 := by
        simp only [List.removeAll, List.filter_filter]
        congr 1
        funext key
        simp [Bool.and_comm, Bool.beq_eq_decide_eq]
      rw [if_neg hm, hkeep, hmore, List.eraseDups_cons, List.append_assoc, List.singleton_append]

/-- The keys of a list are kept in the order in which they come first. -/
theorem keys_ofList (es : List (String × α)) : (ofList es).keys = (es.map Prod.fst).eraseDups := by
  have hall : (es.map Prod.fst).removeAll (empty : OrderedTable α).keys = es.map Prod.fst :=
    List.filter_eq_self.2 fun _ _ => rfl
  unfold ofList
  rw [keys_foldl_insert, hall]
  rfl

/-- A key of a list has the value that the list gives it last. -/
theorem get?_ofList (es : List (String × α)) (key : String) :
    (ofList es).get? key = lastValue? key es := by
  have hfold := lookup_foldl (fun t : OrderedTable α => t.get? key)
    (fun t e => get?_insert t e.1 e.2 key) es empty
  exact hfold.trans (Option.or_none ..)

theorem get?_eq_some_iff {t : OrderedTable α} {key : String} {value : α} :
    t.get? key = some value ↔ (key, value) ∈ t.entries := find?_eq_some_iff_mem t.nodup

end OrderedTable

end HelpMiner
