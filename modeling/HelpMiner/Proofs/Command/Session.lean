import HelpMiner.Command.Operation
import HelpMiner.Proofs.Command.Kinds
import HelpMiner.Proofs.Override.Compose

/-! A schema through a session of any length. It is the ascending table of the entries that were
stored last, and every operation tells what was stored before it. -/
namespace HelpMiner.Schema

/-- The entry that is stored for each name, if any. -/
abbrev Stored := String → Option Entry

namespace Operation

/-- The names of an override table for which nothing is stored, in ascending order. -/
def missing (stored : Stored) (t : OverrideTable) : List String :=
  t.keys.filter fun name => (stored name).isNone

/-- What is stored after an operation. -/
def after (stored : Stored) : Operation → Stored
  | .insert name entry => fun other => if other = name then some entry else stored other
  | .collect entries => fun name => lastValue? name entries
  | .patch name p => fun other => if other = name then (stored other).map p.apply else stored other
  | .amend t =>
    if missing stored t = [] then fun name => (stored name).map (t.patched name) else stored

/-- What an operation tells about what is stored. -/
def answer (stored : Stored) : Operation → Answer
  | .insert name _ => .replaced (stored name)
  | .collect _ => .collected
  | .patch name p => .patched ((stored name).map p.apply)
  | .amend t =>
    .amended (if missing stored t = [] then .ok t.size
      else .error (.unknownCommands (missing stored t)))

end Operation

/-- What is stored after a session that begins with nothing. -/
def latest (history : List Operation) : Stored := history.foldl Operation.after fun _ => none

/-! ## One operation -/

theorem missing_eq (s : Schema) (t : OverrideTable) :
    Operation.missing s.get? t = t.unknownCommands s := by
  unfold Operation.missing OverrideTable.unknownCommands SortedTable.contains
  simp only [Option.not_isSome]

theorem amend_of_missing {s : Schema} {t : OverrideTable}
    (h : Operation.missing s.get? t ≠ []) :
    t.amend s = (.error (.unknownCommands (Operation.missing s.get? t)), s) := by
  rw [missing_eq] at h ⊢
  exact OverrideTable.amend_of_unknown h

theorem amend_of_stored {s : Schema} {t : OverrideTable}
    (h : Operation.missing s.get? t = []) :
    t.amend s = (.ok t.size, s.mapValues t.patched) := by
  rw [missing_eq] at h
  have hknown := (OverrideTable.unknownCommands_eq_nil_iff t s).1 h
  rw [OverrideTable.amend_of_known h, OverrideTable.patchAll_schema,
    OverrideTable.patchAll_count hknown]

/-- An operation does to what is found in a schema as it does to what is stored. -/
theorem perform_eq (s : Schema) (o : Operation) :
    (s.perform o).1 = o.answer s.get? ∧ (s.perform o).2.get? = o.after s.get? := by
  cases o with
  | insert name entry =>
    simp only [perform, SortedTable.exchange_eq]
    exact ⟨rfl, funext fun other => s.get?_insert name entry other⟩
  | collect entries => exact ⟨rfl, funext fun name => SortedTable.get?_ofList entries name⟩
  | patch name p =>
    refine ⟨congrArg Answer.patched (SortedTable.get?_adjust_self name p.apply s), ?_⟩
    funext other
    by_cases h : other = name
    · subst h
      simp only [perform, Operation.after, SortedTable.get?_adjust_self, if_true]
    · simp only [perform, Operation.after, SortedTable.get?_adjust_ne h, if_neg h]
  | amend t =>
    by_cases h : Operation.missing s.get? t = []
    · simp only [perform, amend_of_stored h, Operation.answer, Operation.after, if_pos h]
      exact ⟨rfl, funext fun name => SortedTable.get?_mapValues t.patched s name⟩
    · simp only [perform, amend_of_missing h, Operation.answer, Operation.after, if_neg h]
      exact ⟨rfl, rfl⟩

/-! ## A session -/

theorem get?_session (history : List Operation) : (session history).get? = latest history := by
  unfold session latest
  -- look-up takes each step of the schema to the same step of what is stored
  exact (List.foldl_hom SortedTable.get? fun s o => (perform_eq s o).2.symm).symm

/-- `s` is the ascending table of what is stored, its commands sorted by kind. -/
structure Tabulates (s : Schema) (stored : Stored) : Prop where
  ascending : s.keys.Pairwise (· < ·)
  names : ∀ name, name ∈ s.keys ↔ (stored name).isSome = true
  get : ∀ name, s.get? name = stored name
  contains : ∀ name, s.contains name = (stored name).isSome
  kind_ascending : ∀ k, (s.namesOfKind k).Pairwise (· < ·)
  kind_names : ∀ k name, name ∈ s.namesOfKind k ↔ ∃ e, stored name = some e ∧ e.kind = k
  kinds_disjoint : ∀ k l, k ≠ l → List.Disjoint (s.namesOfKind k) (s.namesOfKind l)
  /-- The commands of all kinds are all commands, each once. -/
  kinds : (Kind.all.flatMap s.namesOfKind).Perm s.keys
  counts : s.kindCounts = Kind.all.map fun k => (k, (s.namesOfKind k).length)
  sum : (s.kindCounts.map Prod.snd).sum = s.size

theorem tabulates (s : Schema) : Tabulates s s.get? where
  ascending := s.keys_ascending
  names name := (s.contains_iff_mem_keys name).symm
  get _ := rfl
  contains _ := rfl
  kind_ascending := s.namesOfKind_ascending
  kind_names _ _ := mem_namesOfKind
  kinds_disjoint _ _ := s.disjoint_namesOfKind
  kinds := s.perm_kinds
  counts := s.kindCounts_eq
  sum := s.sum_kindCounts

/-- After any session the schema is the ascending table of what was stored last. The next operation
    tells what there was before it: an insertion tells the entry that it replaces. A list that is
    collected leaves its own entries only, of each name the last. -/
theorem session_tabulates (history : List Operation) :
    Tabulates (session history) (latest history) ∧
    (∀ next : Operation, ((session history).perform next).1 = next.answer (latest history)) ∧
    ∀ entries name,
      (session (history ++ [.collect entries])).get? name = lastValue? name entries := by
  refine ⟨?_, ?_, ?_⟩
  · rw [← get?_session]
    exact (session history).tabulates
  · intro next
    rw [← get?_session]
    exact ((session history).perform_eq next).1
  · intro entries name
    rw [get?_session, latest, List.foldl_concat]
    rfl

example :
    (session [.collect [("Open", .plain "One." .function), ("Open", .plain "Two." .function)],
      .patch "Open" ⟨none, none, none, some .subroutine⟩]).entries =
        [("Open", .plain "Two." .subroutine)] := by
  decide

end HelpMiner.Schema
