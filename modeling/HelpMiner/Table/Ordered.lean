/-! Tables with text keys that keep the order in which their keys first came. -/
namespace HelpMiner

/-- A table in order of first insertion. Keys are distinct. -/
structure OrderedTable (α : Type) where
  entries : List (String × α)
  nodup : (entries.map Prod.fst).Nodup
  deriving DecidableEq

namespace OrderedTable

variable {α : Type}

/-- Set the value of a key in place, or append it. -/
def putEntry (key : String) (value : α) : List (String × α) → List (String × α)
  | [] => [(key, value)]
  | e :: rest => if e.1 = key then (key, value) :: rest else e :: putEntry key value rest

theorem keys_putEntry (key : String) (value : α) (es : List (String × α)) :
    (putEntry key value es).map Prod.fst =
      if key ∈ es.map Prod.fst then es.map Prod.fst else es.map Prod.fst ++ [key] := by
  induction es with
  | nil => simp [putEntry]
  | cons e rest ih =>
    unfold putEntry
    by_cases h : e.1 = key
    · simp [h]
    · have h' : ¬ key = e.1 := fun hk => h hk.symm
      simp only [h, if_false, List.map_cons, ih, List.mem_cons, h', false_or]
      split <;> rfl

theorem nodup_keys_putEntry (key : String) (value : α) {es : List (String × α)}
    (h : (es.map Prod.fst).Nodup) : ((putEntry key value es).map Prod.fst).Nodup := by
  rw [keys_putEntry]
  split
  · exact h
  · rename_i hk
    refine List.nodup_append.2 ⟨h, by simp, ?_⟩
    intro a ha b hb hab
    simp only [List.mem_singleton] at hb
    exact hk (hb ▸ hab ▸ ha)

def empty : OrderedTable α := ⟨[], List.nodup_nil⟩

instance : Inhabited (OrderedTable α) := ⟨empty⟩

/-- Set the value of a key: in place if the key is present, at the end otherwise. -/
def insert (t : OrderedTable α) (key : String) (value : α) : OrderedTable α :=
  ⟨putEntry key value t.entries, nodup_keys_putEntry key value t.nodup⟩

def get? (t : OrderedTable α) (key : String) : Option α :=
  (t.entries.find? fun e => e.1 == key).map (·.2)

def contains (t : OrderedTable α) (key : String) : Bool := (t.get? key).isSome

def keys (t : OrderedTable α) : List String := t.entries.map Prod.fst

def size (t : OrderedTable α) : Nat := t.entries.length

def isEmpty (t : OrderedTable α) : Bool := t.entries.isEmpty

/-- Insert the entries one after another into an empty table. -/
def ofList (es : List (String × α)) : OrderedTable α :=
  es.foldl (fun t e => t.insert e.1 e.2) empty

@[simp] theorem keys_insert (t : OrderedTable α) (key : String) (value : α) :
    (t.insert key value).keys = if key ∈ t.keys then t.keys else t.keys ++ [key] :=
  keys_putEntry key value t.entries

end OrderedTable

end HelpMiner
