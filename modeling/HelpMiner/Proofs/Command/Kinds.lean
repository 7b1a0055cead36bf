import HelpMiner.Command.Entry
import HelpMiner.Proofs.Table.Sorted

/-! The commands of a schema by kind: each is of one kind, and the kinds are counted. -/
namespace HelpMiner.Schema

theorem mem_namesOfKind {s : Schema} {k : Kind} {name : String} :
    name ∈ s.namesOfKind k ↔ ∃ e, s.get? name = some e ∧ e.kind = k := by
  unfold Schema.namesOfKind
  simp only [SortedTable.mem_map_filter, beq_iff_eq]

theorem namesOfKind_ascending (s : Schema) (k : Kind) : (s.namesOfKind k).Pairwise (· < ·) :=
  s.map_filter_ascending _

theorem disjoint_namesOfKind (s : Schema) {k l : Kind} (h : k ≠ l) :
    List.Disjoint (s.namesOfKind k) (s.namesOfKind l) := by
  intro name hm hn
  obtain ⟨e, he, rfl⟩ := mem_namesOfKind.1 hm
  obtain ⟨f, hf, rfl⟩ := mem_namesOfKind.1 hn
  rw [he] at hf
  exact h (congrArg Entry.kind (Option.some.inj hf))

/-- Each command is of one kind. -/
theorem perm_kinds (s : Schema) : (Kind.all.flatMap s.namesOfKind).Perm s.keys := by
  have hnodup : (Kind.all.flatMap s.namesOfKind).Nodup := by
    rw [List.nodup_flatMap]
    constructor
    · intro k hk
      exact s.keys_nodup.sublist (List.filter_sublist.map Prod.fst)
    · have hkinds : Kind.all.Nodup := by decide
      exact hkinds.imp fun hkl => s.disjoint_namesOfKind hkl
  refine (List.perm_ext_iff_of_nodup hnodup s.keys_nodup).2 fun name => ?_
  have hall : ∀ k : Kind, k ∈ Kind.all := by
    intro k
    cases k <;> decide
  rw [List.mem_flatMap, SortedTable.mem_keys_iff]
  constructor
  · rintro ⟨k, -, hm⟩
    obtain ⟨e, he, -⟩ := mem_namesOfKind.1 hm
    exact ⟨e, he⟩
  · rintro ⟨e, he⟩
    exact ⟨e.kind, hall e.kind, mem_namesOfKind.2 ⟨e, he, rfl⟩⟩

/-! ## Counts -/

/-- Counting adds to the count of each kind how often it comes. -/
theorem foldl_countKind (kinds : List Kind) (n : Kind → Nat) :
    kinds.foldl countKind (Kind.all.map fun k => (k, n k)) =
      Kind.all.map fun k => (k, n k + kinds.count k) := by
  induction kinds generalizing n with
  | nil => rfl
  | cons kind rest ih =>
    have hstep : countKind (Kind.all.map fun k => (k, n k)) kind =
        Kind.all.map fun k => (k, n k + if kind = k then 1 else 0) := by
      unfold countKind
      rw [List.map_map]
      refine List.map_congr_left fun k _ => ?_
      by_cases h : k = kind
      · simp [h]
      · simp [h, Ne.symm h]
    rw [List.foldl_cons, hstep, ih]
    refine List.map_congr_left fun k _ => ?_
    rw [List.count_cons, Nat.add_assoc, Nat.add_comm (rest.count k)]
    simp only [beq_iff_eq]

theorem kindCounts_eq (s : Schema) :
    s.kindCounts = Kind.all.map fun k => (k, (s.namesOfKind k).length) := by
  unfold kindCounts
  rw [foldl_countKind]
  refine List.map_congr_left fun k _ => ?_
  rw [Nat.zero_add, namesOfKind, List.length_map, List.count, List.countP_map,
    List.countP_eq_length_filter]
  rfl

theorem sum_kindCounts (s : Schema) : (s.kindCounts.map Prod.snd).sum = s.size := by
  rw [kindCounts_eq, List.map_map, ← SortedTable.length_keys, ← (perm_kinds s).length_eq,
    List.length_flatMap]
  rfl

end HelpMiner.Schema
