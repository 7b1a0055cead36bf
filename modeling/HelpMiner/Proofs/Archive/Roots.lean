import HelpMiner.Archive.Search
import HelpMiner.Proofs.Table.Sorted

/-! The places to search depend on the values of the variables, and not on how the variables are
listed. -/
namespace HelpMiner.Archive

variable {c : Config} {lookup : String → Option String}

/-- The root of an installation: the value of a listed variable, if it is not empty. -/
structure IsInstall (c : Config) (lookup : String → Option String) (root : String) : Prop where
  not_empty : root ≠ ""
  value : ∃ var ∈ c.installVars, lookup var = some root

theorem mem_installRoots {root : String} :
    root ∈ installRoots c lookup ↔ IsInstall c lookup root := by
  have hkeys : ∀ values : List String, (values.map fun v => (v, ())).map Prod.fst = values := by
    intro values
    rw [List.map_map]
    exact List.map_id values
  unfold installRoots
  simp only [SortedTable.mem_keys_ofList, hkeys, List.mem_filter, List.mem_filterMap,
    Bool.not_eq_true', String.isEmpty_eq_false_iff]
  exact ⟨fun h => ⟨h.2, h.1⟩, fun h => ⟨h.value, h.not_empty⟩⟩

theorem installRoots_ascending : (installRoots c lookup).Pairwise (· < ·) :=
  SortedTable.keys_ascending _

/-- The roots of installations do not depend on the order of the variables. -/
theorem installRoots_congr {vars : List String} (h : ∀ var, var ∈ vars ↔ var ∈ c.installVars) :
    installRoots { c with installVars := vars } lookup = installRoots c lookup := by
  apply SortedTable.eq_of_ascending installRoots_ascending installRoots_ascending
  intro root
  rw [mem_installRoots, mem_installRoots]
  constructor
  · rintro ⟨hne, var, hvar, hvalue⟩
    exact ⟨hne, var, (h var).1 hvar, hvalue⟩
  · rintro ⟨hne, var, hvar, hvalue⟩
    exact ⟨hne, var, (h var).2 hvar, hvalue⟩

/-- The places to search, as the values of the variables tell them. -/
inductive Searched (c : Config) (lookup : String → Option String) : List Path → Prop
  /-- Each root of an installation once, ascending. -/
  | installs {installs : List String} (hne : installs ≠ [])
      (hascending : installs.Pairwise (· < ·))
      (hvalues : ∀ root, root ∈ installs ↔ IsInstall c lookup root) :
      Searched c lookup (installs.map fun root => Path.join ⟨root⟩ ⟨c.vendorDir⟩)
  /-- The search paths, if the data directory is one of them. -/
  | listed (hnone : ∀ root, ¬ IsInstall c lookup root)
      (hdata : ∃ p ∈ c.searchPaths, c.dataDir.same (c.resolve p) = true) :
      Searched c lookup (c.searchPaths.map c.resolve)
  /-- The search paths and then the data directory. -/
  | unlisted (hnone : ∀ root, ¬ IsInstall c lookup root)
      (hdata : ∀ p ∈ c.searchPaths, ¬ c.dataDir.same (c.resolve p) = true) :
      Searched c lookup (c.searchPaths.map c.resolve ++ [c.dataDir])

theorem Searched.ne_nil {places : List Path} (h : Searched c lookup places) : places ≠ [] := by
  cases h with
  | installs hne => exact mt List.map_eq_nil_iff.1 hne
  | listed hnone hdata =>
    obtain ⟨p, hp, -⟩ := hdata
    exact mt List.map_eq_nil_iff.1 (List.ne_nil_of_mem hp)
  | unlisted => exact List.append_ne_nil_of_right_ne_nil _ (List.cons_ne_nil _ _)

theorem searched_roots : Searched c lookup (roots c lookup) := by
  unfold roots
  split
  · rename_i hinstalls
    have hnone : ∀ root, ¬ IsInstall c lookup root := by
      intro root
      rw [← mem_installRoots, hinstalls]
      exact List.not_mem_nil
    have hdata : c.searchRoots.any c.dataDir.same = true ↔
        ∃ p ∈ c.searchPaths, c.dataDir.same (c.resolve p) = true := by
      simp [Config.searchRoots]
    simp only [hdata]
    split
    · rename_i hlisted
      exact Searched.listed hnone hlisted
    · rename_i hunlisted
      exact Searched.unlisted hnone fun p hp hsame => hunlisted ⟨p, hp, hsame⟩
  · rename_i hinstalls
    exact Searched.installs hinstalls installRoots_ascending fun _ => mem_installRoots

theorem roots_congr {vars : List String} (h : ∀ var, var ∈ vars ↔ var ∈ c.installVars) :
    roots { c with installVars := vars } lookup = roots c lookup := by
  unfold roots
  rw [installRoots_congr h]
  rfl

/-- There is always a place to search, the places are those that the values of the variables tell,
and another list of the same variables, in any order and with any repetitions, gives the same. -/
theorem roots_of_values (c : Config) (lookup : String → Option String) :
    roots c lookup ≠ [] ∧ Searched c lookup (roots c lookup) ∧
      ∀ vars : List String, (∀ var, var ∈ vars ↔ var ∈ c.installVars) →
        roots { c with installVars := vars } lookup = roots c lookup :=
  ⟨searched_roots.ne_nil, searched_roots, fun _ => roots_congr⟩

end HelpMiner.Archive
