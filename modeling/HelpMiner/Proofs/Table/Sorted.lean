import Mathlib
import HelpMiner.Table.Sorted
import HelpMiner.Proofs.Table.Ordered

/-! Tables in ascending order: the table of its own entries, and tables that are told by look-up. -/
namespace HelpMiner.SortedTable

variable {α β γ : Type}

/-- Ascending names are known by their members. -/
theorem eq_of_ascending {as bs : List String} (ha : as.Pairwise (· < ·)) (hb : bs.Pairwise (· < ·))
    (h : ∀ name, name ∈ as ↔ name ∈ bs) : as = bs := by
  have : Std.Antisymm fun a b : String => a < b :=
    ⟨fun a b hab hba => (String.lt_irrefl _ (String.lt_trans hab hba)).elim⟩
  have : Std.Irrefl fun a b : String => a < b := ⟨String.lt_irrefl⟩
  exact ha.eq_of_mem_iff hb fun {name} => h name

theorem ext_entries {t u : SortedTable α} (h : t.entries = u.entries) : t = u := by
  obtain ⟨entries, _⟩ := t
  obtain ⟨other, _⟩ := u
  obtain rfl : entries = other := h
  rfl

theorem putEntry_of_last {key : String} {es : List (String × α)} (h : ∀ e ∈ es, e.1 < key)
    (value : α) : putEntry key value es = es ++ [(key, value)] := by
  induction es with
  | nil => rfl
  | cons e rest ih =>
    have he := h e List.mem_cons_self
    have hlt : ¬ key < e.1 := fun hk => String.lt_irrefl key (String.lt_trans hk he)
    have hne : e.1 ≠ key := fun hk => String.lt_irrefl key (hk ▸ he)
    unfold putEntry
    rw [if_neg hlt, if_neg hne, ih fun a ha => h a (List.mem_cons_of_mem _ ha)]
    rfl

theorem foldl_insert_entries (es : List (String × α)) (t : SortedTable α)
    (h : (t.entries ++ es).Pairwise fun a b => a.1 < b.1) :
    (es.foldl (fun t e => t.insert e.1 e.2) t).entries = t.entries ++ es := by
  induction es generalizing t with
  | nil => simp
  | cons e rest ih =>
    have hlast : ∀ a ∈ t.entries, a.1 < e.1 := fun a ha =>
      (List.pairwise_append.1 h).2.2 a ha e List.mem_cons_self
    have hentries : (t.insert e.1 e.2).entries = t.entries ++ [e] := putEntry_of_last hlast e.2
    rw [List.foldl_cons, ih, hentries, List.append_assoc, List.singleton_append]
    rw [hentries, List.append_assoc, List.singleton_append]
    exact h

/-- A table is built again by inserting its entries in their order. -/
theorem ofList_entries (t : SortedTable α) : ofList t.entries = t :=
  ext_entries (foldl_insert_entries t.entries empty t.ascending)

/-! ## Look-up -/

/-- An entry is found under its key. -/
theorem get?_eq_some_iff {t : SortedTable α} {key : String} {value : α} :
    t.get? key = some value ↔ (key, value) ∈ t.entries := find?_eq_some_iff_mem t.keys_nodup

/-- The keys of the entries that satisfy a test. -/
theorem mem_map_filter {t : SortedTable α} {p : String × α → Bool} {key : String} :
    key ∈ (t.entries.filter p).map Prod.fst ↔
      ∃ value, t.get? key = some value ∧ p (key, value) = true := by
  rw [List.mem_map]
  constructor
  · rintro ⟨⟨name, value⟩, hm, rfl⟩
    obtain ⟨he, hp⟩ := List.mem_filter.1 hm
    exact ⟨value, get?_eq_some_iff.2 he, hp⟩
  · rintro ⟨value, he, hp⟩
    exact ⟨(key, value), List.mem_filter.2 ⟨get?_eq_some_iff.1 he, hp⟩, rfl⟩

theorem map_filter_ascending (t : SortedTable α) (p : String × α → Bool) :
    ((t.entries.filter p).map Prod.fst).Pairwise (· < ·) :=
  List.pairwise_map.2 (t.ascending.filter p)

theorem mem_keys_iff {t : SortedTable α} {key : String} :
    key ∈ t.keys ↔ ∃ value, t.get? key = some value := by
  rw [← contains_iff_mem_keys, contains, Option.isSome_iff_exists]

theorem get?_eq_none_iff {t : SortedTable α} {key : String} :
    t.get? key = none ↔ key ∉ t.keys := by
  rw [mem_keys_iff, not_exists, Option.eq_none_iff_forall_ne_some]

theorem find?_putEntry (key : String) (value : α) (es : List (String × α)) (other : String) :
    ((putEntry key value es).find? fun e => e.1 == other).map (·.2) =
      if other = key then some value else (es.find? fun e => e.1 == other).map (·.2) := by
  induction es with
  | nil => exact find?_cons_entry (key, value) [] other
  | cons e rest ih =>
    unfold putEntry
    split
    · exact find?_cons_entry (key, value) (e :: rest) other
    · split
      · rename_i he
        rw [find?_cons_entry, find?_cons_entry, he]
        by_cases h : other = key
        · rw [if_pos h, if_pos h]
        · rw [if_neg h, if_neg h, if_neg h]
      · rename_i he
        rw [find?_cons_entry, find?_cons_entry, ih]
        by_cases ho : other = e.1
        · rw [if_pos ho, if_pos ho, if_neg fun hk => he (ho.symm.trans hk)]
        · rw [if_neg ho, if_neg ho]

/-- An insertion sets the value of its key, and no other. -/
theorem get?_insert (t : SortedTable α) (key : String) (value : α) (other : String) :
    (t.insert key value).get? other = if other = key then some value else t.get? other :=
  find?_putEntry key value t.entries other

theorem mem_keys_insert {t : SortedTable α} {key : String} {value : α} {other : String} :
    other ∈ (t.insert key value).keys ↔ other = key ∨ other ∈ t.keys := by
  rw [mem_keys_iff, mem_keys_iff, get?_insert]
  by_cases h : other = key
  · simp [h]
  · simp [h]

theorem mem_keys_foldl_insert {es : List (String × α)} {t : SortedTable α} {key : String} :
    key ∈ (es.foldl (fun t e => t.insert e.1 e.2) t).keys ↔
      key ∈ es.map Prod.fst ∨ key ∈ t.keys := by
  induction es generalizing t with
  | nil => simp
  | cons e rest ih =>
    rw [List.foldl_cons, ih, mem_keys_insert, List.map_cons, List.mem_cons, or_left_comm, or_assoc]

/-- The keys of a table are those of the list that it is built of. -/
theorem mem_keys_ofList {es : List (String × α)} {key : String} :
    key ∈ (ofList es).keys ↔ key ∈ es.map Prod.fst := by
  have hempty : key ∉ (empty : SortedTable α).keys := List.not_mem_nil
  unfold ofList
  rw [mem_keys_foldl_insert, or_iff_left hempty]

theorem length_keys (t : SortedTable α) : t.keys.length = t.size := List.length_map _

theorem size_ofList {es : List (String × α)} (h : (es.map Prod.fst).Nodup) :
    (ofList es).size = es.length := by
  have hperm : (ofList es).keys.Perm (es.map Prod.fst) :=
    (List.perm_ext_iff_of_nodup (keys_nodup _) h).2 fun _ => mem_keys_ofList
  rw [← length_keys, hperm.length_eq, List.length_map]

/-- A table is known by what is found in it. -/
theorem ext_get? {t u : SortedTable α} (h : ∀ key, t.get? key = u.get? key) : t = u := by
  have : Std.Antisymm fun a b : String × α => a.1 < b.1 :=
    ⟨fun a b hab hba => (String.lt_irrefl _ (String.lt_trans hab hba)).elim⟩
  have : Std.Irrefl fun a b : String × α => a.1 < b.1 := ⟨fun a => String.lt_irrefl a.1⟩
  refine ext_entries (t.ascending.eq_of_mem_iff u.ascending fun e => ?_)
  rw [← get?_eq_some_iff, ← get?_eq_some_iff, h]

@[simp] theorem mapValues_mapValues (f : String → α → β) (g : String → β → γ)
    (t : SortedTable α) :
    (t.mapValues f).mapValues g = t.mapValues fun key value => g key (f key value) :=
  ext_entries (by simp [mapValues])

/-- Changes at different keys can be made in either order. -/
theorem adjust_comm {key other : String} (h : key ≠ other) (f g : α → α) (t : SortedTable α) :
    (t.adjust key f).adjust other g = (t.adjust other g).adjust key f := by
  unfold adjust
  rw [mapValues_mapValues, mapValues_mapValues]
  congr 1
  funext k v
  by_cases hk : k = key
  · have hne : k ≠ other := fun ho => h (hk.symm.trans ho)
    rw [if_pos hk, if_neg hne, if_neg hne, if_pos hk]
  · rw [if_neg hk, if_neg hk]

theorem get?_foldl_insert (t : SortedTable α) (es : List (String × α)) (key : String) :
    (es.foldl (fun t e => t.insert e.1 e.2) t).get? key = (lastValue? key es).or (t.get? key) :=
  lookup_foldl (·.get? key) (fun t e => get?_insert t e.1 e.2 key) es t

theorem get?_ofList (es : List (String × α)) (key : String) :
    (ofList es).get? key = lastValue? key es :=
  (get?_foldl_insert empty es key).trans (Option.or_none ..)

/-- The value that an insertion replaces is sought up to the first greater key only. -/
theorem displaced?_eq_find? {es : List (String × α)} (h : es.Pairwise fun a b => a.1 < b.1)
    (key : String) : displaced? key es = (es.find? fun e => e.1 == key).map (·.2) := by
  induction es with
  | nil => rfl
  | cons e rest ih =>
    obtain ⟨hfirst, hrest⟩ := List.pairwise_cons.1 h
    unfold displaced?
    rw [find?_cons_entry]
    split
    · rename_i hlt
      have hnone : rest.find? (fun a => a.1 == key) = none := by
        apply List.find?_eq_none.2
        intro a ha hak
        have hless := String.lt_trans hlt (hfirst a ha)
        exact String.lt_irrefl key (beq_iff_eq.1 hak ▸ hless)
      have hne : key ≠ e.1 := by
        intro he
        rw [he] at hlt
        exact String.lt_irrefl e.1 hlt
      rw [if_neg hne, hnone]
      rfl
    · rw [ih hrest]
      simp only [eq_comm]

theorem exchange_eq (t : SortedTable α) (key : String) (value : α) :
    t.exchange key value = (t.get? key, t.insert key value) :=
  congrArg (·, t.insert key value) (displaced?_eq_find? t.ascending key)

/-- Both tables in one. Under a key of both is the value of `u`. -/
def union (t u : SortedTable α) : SortedTable α := u.entries.foldl (fun m e => m.insert e.1 e.2) t

theorem get?_union (t u : SortedTable α) (key : String) :
    (t.union u).get? key = (u.get? key).or (t.get? key) := by
  unfold union
  rw [get?_foldl_insert, lastValue?_eq_find? u.keys_nodup]
  rfl

end HelpMiner.SortedTable
