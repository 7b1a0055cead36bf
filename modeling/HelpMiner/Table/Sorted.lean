/-! Tables with text keys in ascending order of their code points. -/
namespace HelpMiner

/-- A table in strictly ascending order of its keys. -/
structure SortedTable (α : Type) where
  entries : List (String × α)
  ascending : entries.Pairwise fun a b => a.1 < b.1
  deriving DecidableEq

namespace SortedTable

variable {α β : Type}

/-- Set the value of a key at its place in the order. -/
def putEntry (key : String) (value : α) : List (String × α) → List (String × α)
  | [] => [(key, value)]
  | e :: rest =>
    if key < e.1 then (key, value) :: e :: rest
    else if e.1 = key then (key, value) :: rest
    else e :: putEntry key value rest

theorem mem_putEntry {key : String} {value : α} {a : String × α} {es : List (String × α)}
    (h : a ∈ putEntry key value es) : a = (key, value) ∨ a ∈ es := by
  induction es with
  | nil => exact Or.inl (List.mem_singleton.1 h)
  | cons e rest ih =>
    unfold putEntry at h
    split at h
    · exact List.mem_cons.1 h
    · split at h
      · rcases List.mem_cons.1 h with h | h
        · exact Or.inl h
        · exact Or.inr (List.mem_cons_of_mem _ h)
      · rcases List.mem_cons.1 h with h | h
        · exact Or.inr (h ▸ List.mem_cons_self)
        · exact (ih h).imp id (List.mem_cons_of_mem _)

theorem ascending_putEntry (key : String) (value : α) {es : List (String × α)}
    (h : es.Pairwise fun a b => a.1 < b.1) :
    (putEntry key value es).Pairwise fun a b => a.1 < b.1 := by
  induction es with
  | nil => exact List.pairwise_singleton _ _
  | cons e rest ih =>
    have hr := List.pairwise_cons.1 h
    unfold putEntry
    split
    · rename_i hk
      refine List.pairwise_cons.2 ⟨?_, h⟩
      intro a ha
      rcases List.mem_cons.1 ha with ha | ha
      · exact ha ▸ hk
      · exact String.lt_trans hk (hr.1 a ha)
    · rename_i hk
      split
      · rename_i he
        exact List.pairwise_cons.2 ⟨fun a ha => he ▸ hr.1 a ha, hr.2⟩
      · rename_i he
        refine List.pairwise_cons.2 ⟨?_, ih hr.2⟩
        intro a ha
        rcases mem_putEntry ha with ha | ha
        · rw [ha]
          exact Decidable.byContradiction fun hn =>
            he (String.le_antisymm (String.not_lt.1 hk) (String.not_lt.1 hn))
        · exact hr.1 a ha

def empty : SortedTable α := ⟨[], List.Pairwise.nil⟩

instance : Inhabited (SortedTable α) := ⟨empty⟩

def insert (t : SortedTable α) (key : String) (value : α) : SortedTable α :=
  ⟨putEntry key value t.entries, ascending_putEntry key value t.ascending⟩

def get? (t : SortedTable α) (key : String) : Option α :=
  (t.entries.find? fun e => e.1 == key).map (·.2)

def contains (t : SortedTable α) (key : String) : Bool := (t.get? key).isSome

/-- The value that a key has among ascending entries. -/
def displaced? (key : String) : List (String × α) → Option α
  | [] => none
  | e :: rest =>
    if key < e.1 then none else if e.1 = key then some e.2 else displaced? key rest

/-- Set the value of a key, and tell the value that it had. -/
def exchange (t : SortedTable α) (key : String) (value : α) : Option α × SortedTable α :=
  (displaced? key t.entries, t.insert key value)

def keys (t : SortedTable α) : List String := t.entries.map Prod.fst

def size (t : SortedTable α) : Nat := t.entries.length

def isEmpty (t : SortedTable α) : Bool := t.entries.isEmpty

/-- Insert the entries one after another into an empty table: the last of equal keys wins. -/
def ofList (es : List (String × α)) : SortedTable α :=
  es.foldl (fun t e => t.insert e.1 e.2) empty

/-- Change every value, given its key. -/
def mapValues (f : String → α → β) (t : SortedTable α) : SortedTable β where
  entries := t.entries.map fun e => (e.1, f e.1 e.2)
  ascending := List.pairwise_map.2 t.ascending

/-- Change the value of one key, if the key is present. -/
def adjust (key : String) (f : α → α) (t : SortedTable α) : SortedTable α :=
  t.mapValues fun k v => if k = key then f v else v

@[simp] theorem keys_mapValues (f : String → α → β) (t : SortedTable α) :
    (t.mapValues f).keys = t.keys := by
  simp [keys, mapValues, Function.comp_def]

@[simp] theorem keys_adjust (key : String) (f : α → α) (t : SortedTable α) :
    (t.adjust key f).keys = t.keys := keys_mapValues _ t

theorem get?_mapValues (f : String → α → β) (t : SortedTable α) (key : String) :
    (t.mapValues f).get? key = (t.get? key).map (f key) := by
  have he : (t.mapValues f).entries = t.entries.map fun e => (e.1, f e.1 e.2) := rfl
  unfold get?
  rw [he, List.find?_map]
  simp only [Function.comp_def, Option.map_map]
  cases hf : t.entries.find? fun e => e.1 == key with
  | none => rfl
  | some e =>
    have hk : e.1 = key := by simpa using List.find?_some hf
    simp [hk]

theorem get?_adjust_self (key : String) (f : α → α) (t : SortedTable α) :
    (t.adjust key f).get? key = (t.get? key).map f := by
  unfold adjust
  rw [get?_mapValues]
  simp

theorem get?_adjust_ne {key other : String} (h : other ≠ key) (f : α → α) (t : SortedTable α) :
    (t.adjust key f).get? other = t.get? other := by
  unfold adjust
  rw [get?_mapValues]
  simp [h]

theorem contains_iff_mem_keys (t : SortedTable α) (key : String) :
    t.contains key = true ↔ key ∈ t.keys := by
  unfold contains get? keys
  rw [Option.isSome_map, List.find?_isSome, List.mem_map]
  simp only [beq_iff_eq]

theorem mem_of_get? {t : SortedTable α} {key : String} {value : α} (h : t.get? key = some value) :
    (key, value) ∈ t.entries := by
  obtain ⟨e, he, rfl⟩ := Option.map_eq_some_iff.1 h
  have hk : e.1 = key := by simpa using List.find?_some he
  exact hk ▸ List.mem_of_find?_eq_some he

theorem exists_get?_of_mem_keys {t : SortedTable α} {key : String} (h : key ∈ t.keys) :
    ∃ value, t.get? key = some value :=
  Option.isSome_iff_exists.1 ((contains_iff_mem_keys t key).2 h)

theorem keys_ascending (t : SortedTable α) : t.keys.Pairwise (· < ·) :=
  List.pairwise_map.2 t.ascending

theorem keys_nodup (t : SortedTable α) : t.keys.Nodup := by
  refine t.keys_ascending.imp ?_
  intro a b h he
  exact String.lt_irrefl b (he ▸ h)

end SortedTable

end HelpMiner
