import HelpMiner.Files.Action

/-! How work on files runs: part by part, and step by step over a list. -/
namespace HelpMiner.Action

variable {α β : Type}

/-! ## Parts -/

@[simp] theorem runOn_get (t : FileTree) : runOn t (get : Action FileTree) = (.ok t, t) := rfl

theorem runOn_bind (t : FileTree) (a : Action α) (f : α → Action β) :
    runOn t (a >>= f) = match runOn t a with
      | (.ok x, mid) => runOn mid (f x)
      | (.error e, mid) => (.error e, mid) := by
  change (match runOn t a with | (r, s) => (ExceptT.bindCont f r).run s) = _
  obtain ⟨_ | x, mid⟩ := runOn t a
  · rfl
  · rfl

theorem runOn_bind_ok {t mid : FileTree} {a : Action α} {x : α} (h : runOn t a = (.ok x, mid))
    (f : α → Action β) : runOn t (a >>= f) = runOn mid (f x) := by
  rw [runOn_bind, h]

theorem runOn_bind_error {t mid : FileTree} {a : Action α} {e : Error}
    (h : runOn t a = (.error e, mid)) (f : α → Action β) :
    runOn t (a >>= f) = (.error e, mid) := by
  rw [runOn_bind, h]

/-- Work in two parts succeeds if both parts do. -/
theorem exists_of_bind_ok {t after : FileTree} {a : Action α} {f : α → Action β} {y : β}
    (h : runOn t (a >>= f) = (.ok y, after)) :
    ∃ x mid, runOn t a = (.ok x, mid) ∧ runOn mid (f x) = (.ok y, after) := by
  cases ha : runOn t a with
  | mk r mid =>
    cases r with
    | error e =>
      rw [runOn_bind_error ha] at h
      cases h
    | ok x =>
      rw [runOn_bind_ok ha] at h
      exact ⟨x, mid, rfl, h⟩

theorem runOn_eq_of_fst {t : FileTree} {a : Action α} {r : Except Error α}
    (h : (runOn t a).1 = r) : runOn t a = (r, (runOn t a).2) :=
  Prod.ext h rfl

/-! ## Looking at files and changing them -/

theorem runOn_inspect (t : FileTree) (p : Path) (f : FileTree → Except Trouble α) :
    runOn t (inspect p f) = ((f t).mapError (.io p), t) := by
  unfold inspect
  rw [runOn_bind_ok (runOn_get t)]
  cases f t with
  | error why => rfl
  | ok x => rfl

theorem runOn_change_ok {t after : FileTree} {f : FileTree → Except Trouble FileTree} {p : Path} :
    runOn t (change p f) = (.ok (), after) ↔ f t = .ok after := by
  unfold change
  rw [runOn_bind, runOn_inspect]
  cases f t with
  | error why =>
    constructor
    · intro h
      cases h
    · intro h
      cases h
  | ok u =>
    change (Except.ok (), u) = (Except.ok (), after) ↔ _
    simp

theorem runOn_change (t : FileTree) (p : Path) (f : FileTree → Except Trouble FileTree) :
    (runOn t (change p f)).2 = match f t with
      | .ok after => after
      | .error _ => t := by
  unfold change
  rw [runOn_bind, runOn_inspect]
  cases f t with
  | error why => rfl
  | ok u => rfl

/-! ## Lists -/

theorem exists_of_forM_cons_ok {t after : FileTree} {f : α → Action Unit} {x : α} {rest : List α}
    (h : runOn t ((x :: rest).forM f) = (.ok (), after)) :
    ∃ mid, runOn t (f x) = (.ok (), mid) ∧ runOn mid (rest.forM f) = (.ok (), after) := by
  obtain ⟨_, mid, hx, hrest⟩ := exists_of_bind_ok h
  exact ⟨mid, hx, hrest⟩

/-- Every tree is related to the tree after the work, whether the work succeeds or fails. -/
def Keeps (R : FileTree → FileTree → Prop) (a : Action α) : Prop := ∀ t, R t (runOn t a).2

section Keeps

variable {R : FileTree → FileTree → Prop} (refl : ∀ t, R t t)
  (trans : ∀ t mid after, R t mid → R mid after → R t after)

include refl in
theorem Keeps.pure (x : α) : Keeps R (pure x : Action α) := refl

include refl in
theorem Keeps.change {p : Path} {f : FileTree → Except Trouble FileTree}
    (h : ∀ t after, f t = .ok after → R t after) : Keeps R (change p f) := by
  intro t
  rw [runOn_change]
  cases hf : f t with
  | error why => exact refl t
  | ok after => exact h t after hf

include trans in
theorem Keeps.bind {a : Action α} {f : α → Action β} (ha : Keeps R a) (hf : ∀ x, Keeps R (f x)) :
    Keeps R (a >>= f) := by
  intro t
  have hat := ha t
  rw [runOn_bind]
  generalize runOn t a = r at hat ⊢
  obtain ⟨_ | x, mid⟩ := r
  · exact hat
  · exact trans t mid _ hat (hf x mid)

end Keeps

end HelpMiner.Action
