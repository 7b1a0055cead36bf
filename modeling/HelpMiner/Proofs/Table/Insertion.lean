import Mathlib.Data.List.Basic
import HelpMiner.Page.Section
import HelpMiner.Proofs.Table.Ordered

/-! Where insertions leave the entries of a table: each key stands where it first came, with the
value that it was given last. -/
namespace HelpMiner.OrderedTable

variable {α : Type}

theorem isEmpty_insert (t : OrderedTable α) (key : String) (value : α) :
    (t.insert key value).isEmpty = false := by
  have hmem : key ∈ (t.insert key value).keys := by
    rw [keys_insert]
    split
    · assumption
    · simp
  obtain ⟨e, he, -⟩ := List.mem_map.1 hmem
  exact List.isEmpty_eq_false_iff_exists_mem.2 ⟨e, he⟩

/-- What holds of the entries of a table, and of one more, holds after its insertion. -/
theorem forall_mem_insert {P : String × α → Prop} {t : OrderedTable α} {key : String} {value : α}
    (h : ∀ e ∈ t.entries, P e) (hnew : P (key, value)) :
    ∀ e ∈ (t.insert key value).entries, P e := by
  rintro ⟨name, text⟩ he
  have hget := get?_eq_some_iff.2 he
  rw [get?_insert] at hget
  split at hget
  · rename_i hname
    rw [hname, ← Option.some.inj hget]
    exact hnew
  · exact h _ (get?_eq_some_iff.1 hget)

/-! ## Entries by their keys -/

theorem contains_iff_mem_keys (t : OrderedTable α) (key : String) :
    t.contains key = true ↔ key ∈ t.keys := by
  unfold contains get? keys
  rw [Option.isSome_map, List.find?_isSome, List.mem_map]
  simp only [beq_iff_eq]

theorem entries_eq_map_keys (t : OrderedTable α) :
    t.entries.map (fun e => (e.1, some e.2)) = t.keys.map fun key => (key, t.get? key) := by
  unfold keys
  rw [List.map_map]
  refine List.map_congr_left fun e he => ?_
  have hget : t.get? e.1 = some e.2 := get?_eq_some_iff.2 he
  rw [Function.comp_apply, hget]

/-- A table is known by its keys in their order and by what is found under them. -/
theorem ext_keys {t u : OrderedTable α} (hkeys : t.keys = u.keys)
    (hget : ∀ key, t.get? key = u.get? key) : t = u := by
  have hinj : Function.Injective fun e : String × α => (e.1, some e.2) := by
    rintro ⟨a, v⟩ ⟨b, w⟩ h
    simpa using h
  apply ext_entries
  apply List.map_injective_iff.2 hinj
  rw [entries_eq_map_keys, entries_eq_map_keys, hkeys]
  simp only [hget]

/-! ## Other entries -/

/-- An entry of another key is at a place after an insertion just if it was there before. -/
theorem getElem?_putEntry {key : String} {e : String × α} (h : e.1 ≠ key) (value : α)
    (es : List (String × α)) (i : Nat) :
    (putEntry key value es)[i]? = some e ↔ es[i]? = some e := by
  have hnew : (key, value) ≠ e := fun he => h (congrArg Prod.fst he).symm
  induction es generalizing i with
  | nil => cases i <;> simp [putEntry, hnew]
  | cons a rest ih =>
    unfold putEntry
    by_cases ha : a.1 = key
    · have hold : a ≠ e := fun he => h (he ▸ ha)
      rw [if_pos ha]
      cases i <;> simp [hnew, hold]
    · rw [if_neg ha]
      cases i with
      | zero => rfl
      | succ i => exact ih i

/-- Insertions of two keys commute just if one of the keys is there before. Otherwise they come to
    stand in the order of the insertions. -/
theorem insert_comm_iff {t : OrderedTable α} {key other : String} (h : key ≠ other) (v w : α) :
    (t.insert key v).insert other w = (t.insert other w).insert key v ↔
      key ∈ t.keys ∨ other ∈ t.keys := by
  have hkeys : ((t.insert key v).insert other w).keys = ((t.insert other w).insert key v).keys ↔
      key ∈ t.keys ∨ other ∈ t.keys := by
    by_cases hk : key ∈ t.keys <;> by_cases ho : other ∈ t.keys <;>
      simp [hk, ho, h, h.symm]
  rw [← hkeys]
  constructor
  · exact congrArg keys
  · intro hsame
    refine ext_keys hsame fun name => ?_
    simp only [get?_insert]
    by_cases hn : name = other
    · rw [if_pos hn, if_neg fun hk => h (hk.symm.trans hn), if_pos hn]
    · rw [if_neg hn, if_neg hn]

/-! ## Tables of lists -/

/-- `t` is what insertions of these entries make, one after another. -/
structure InsertionOrder (es : List (String × α)) (t : OrderedTable α) : Prop where
  /-- The keys are in the order in which they came first, each with its last value. -/
  entries : t.entries.map (fun e => (e.1, some e.2)) =
    (es.map Prod.fst).eraseDups.map fun key => (key, lastValue? key es)
  distinct : t.keys.Nodup
  get : ∀ key value, t.get? key = some value ↔ (key, value) ∈ t.entries
  contains : ∀ key, t.contains key = true ↔ key ∈ t.keys
  /-- Another insertion leaves the entries of other keys where and as they are. -/
  others : ∀ (key : String) (value : α) (i : Nat) (e : String × α), e.1 ≠ key →
    ((t.insert key value).entries[i]? = some e ↔ t.entries[i]? = some e)
  /-- Two more insertions of different keys commute, unless both keys are new. -/
  commute : ∀ (key other : String) (v w : α), key ≠ other →
    ((t.insert key v).insert other w = (t.insert other w).insert key v ↔
      key ∈ t.keys ∨ other ∈ t.keys)

end HelpMiner.OrderedTable

namespace HelpMiner.Doc

open OrderedTable

/-- Sections are in the order in which their headings came first, whatever is inserted. -/
theorem insertionOrder (sections : List (String × String)) :
    InsertionOrder sections (.ofList sections : Doc) where
  entries := by
    rw [entries_eq_map_keys, keys_ofList]
    simp only [get?_ofList]
  distinct := OrderedTable.nodup _
  get _ _ := get?_eq_some_iff
  contains := contains_iff_mem_keys _
  others _ value i _ h := getElem?_putEntry h value _ i
  commute _ _ v w h := insert_comm_iff h v w

example :
    (ofList [("A", "1"), ("B", "2"), ("A", "3")] : Doc).entries = [("A", "3"), ("B", "2")] := by
  decide

end HelpMiner.Doc
