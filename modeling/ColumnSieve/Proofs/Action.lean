import ColumnSieve.Output
import ColumnSieve.Proofs.FileTree.WellFormed

/-!
# Running actions

* `Action.bind_apply`, `Action.bind_eq_ok_iff` — one step of a run, and one that succeeds;
* `Action.Returns` — an action whose outcome is the same in every world, whatever it does to
  the world.  Along `do` blocks and `mapM` the outcomes compose like computations without a
  world;
* `Action.Preserves` — an action after which the world is still as it has to be;
* `Action.Keeps` — an action that leaves the files as they are;
* `Action.Related` — two actions with one outcome, in worlds that stay related.
-/

namespace ColumnSieve.Action

variable {τ ε α β : Type}

/-! ## One step -/

theorem bind_apply (action : Action τ ε α) (next : α → Action τ ε β) (world : World τ) :
    (action >>= next) world =
      match action world with
      | (.ok a, world) => next a world
      | (.error e, world) => (.error e, world) := by
  show ExceptT.bindCont next (action world).1 (action world).2 = _
  match action world with
  | (.ok a, after) => rfl
  | (.error e, after) => rfl

/-- Two steps succeed in a row if the second does in the world that the first leaves. -/
theorem bind_eq_ok_iff {action : Action τ ε α} {next : α → Action τ ε β} {world after : World τ}
    {b : β} : (action >>= next) world = (.ok b, after) ↔
      ∃ a between, action world = (.ok a, between) ∧ next a between = (.ok b, after) := by
  rw [bind_apply]
  match action world with
  | (.ok a, between) =>
    constructor
    · intro h
      exact ⟨a, between, rfl, h⟩
    · rintro ⟨_, _, ⟨⟩, h⟩
      exact h
  | (.error e, between) =>
    constructor
    · rintro ⟨⟩
    · rintro ⟨_, _, ⟨⟩, _⟩

/-- An action that is followed by a value alone. -/
theorem bind_pure_apply (action : Action τ ε α) (b : β) (world : World τ) :
    (action >>= fun _ => pure b) world =
      ((action world).1.map fun _ => b, (action world).2) := by
  rw [bind_apply]
  match action world with
  | (.ok a, after) => rfl
  | (.error e, after) => rfl

/-! ## Outcomes that do not depend on the world -/

/-- The outcome of the action is `result` in every world. -/
def Returns (action : Action τ ε α) (result : Except ε α) : Prop :=
  ∀ world, (action world).1 = result

namespace Returns

theorem pure (a : α) : Returns (pure a : Action τ ε α) (.ok a) := fun _ => rfl

theorem throw (e : ε) : Returns (throw e : Action τ ε α) (.error e) := fun _ => rfl

theorem bind {action : Action τ ε α} {next : α → Action τ ε β} {result : Except ε α}
    {follow : α → Except ε β} (ha : Returns action result)
    (hn : ∀ a, result = .ok a → Returns (next a) (follow a)) :
    Returns (action >>= next) (result >>= follow) := by
  intro world
  have h := ha world
  rw [bind_apply]
  match hr : action world, h with
  | (.ok a, after), rfl => exact hn a rfl after
  | (.error _, after), rfl => rfl

theorem mapM {step : α → Action τ ε β} {result : α → Except ε β}
    (h : ∀ a, Returns (step a) (result a)) (as : List α) :
    Returns (as.mapM step) (as.mapM result) := by
  induction as with
  | nil =>
    rw [List.mapM_nil, List.mapM_nil]
    exact pure []
  | cons a as ih =>
    rw [List.mapM_cons, List.mapM_cons]
    exact (h a).bind fun b _ => ih.bind fun bs _ => pure (b :: bs)

end Returns

/-! ## What actions preserve -/

/-- Whatever the outcome, what holds of the world before the action holds of it after. -/
def Preserves (Holds : World τ → Prop) (action : Action τ ε α) : Prop :=
  ∀ world, Holds world → Holds (action world).2

namespace Preserves

variable {Holds : World τ → Prop}

/-- What is preserved holds of the world that is left. -/
theorem after {action : Action τ ε α} {world left : World τ} {result : Except ε α}
    (hp : Preserves Holds action) (hworld : Holds world) (h : action world = (result, left)) :
    Holds left := by
  simpa only [h] using hp world hworld

theorem pure (a : α) : Preserves Holds (pure a : Action τ ε α) := fun _ h => h

theorem throw (e : ε) : Preserves Holds (throw e : Action τ ε α) := fun _ h => h

theorem bind {action : Action τ ε α} {next : α → Action τ ε β} (ha : Preserves Holds action)
    (hn : ∀ a, Preserves Holds (next a)) : Preserves Holds (action >>= next) := by
  intro world hworld
  rw [bind_apply]
  match hr : action world with
  | (.ok a, left) => exact hn a left (ha.after hworld hr)
  | (.error e, left) => exact ha.after hworld hr

theorem mapM {step : α → Action τ ε β} (h : ∀ a, Preserves Holds (step a)) (as : List α) :
    Preserves Holds (as.mapM step) := by
  induction as with
  | nil => exact pure []
  | cons a as ih =>
    rw [List.mapM_cons]
    exact (h a).bind fun b => ih.bind fun bs => pure (b :: bs)

end Preserves

/-- Whatever the outcome, the files are the same as before. -/
def Keeps (action : Action τ ε α) : Prop :=
  ∀ world : World τ, world.files.Same (action world).2.files

/-- Files are left alone if they stay the same as any files that they were the same as. -/
theorem keeps_iff {action : Action τ ε α} :
    action.Keeps ↔ ∀ files : FileTree, action.Preserves fun world => files.Same world.files := by
  constructor
  · intro h files world hsame
    exact hsame.trans (h world)
  · intro h world
    exact h world.files world (.refl world.files)

/-! ## Two runs side by side -/

/-- From related worlds the two actions come to one outcome, and they leave related worlds. -/
def Related {σ : Type} (R : World τ → World σ → Prop) (action : Action τ ε α)
    (other : Action σ ε α) : Prop :=
  ∀ world world', R world world' →
    (action world).1 = (other world').1 ∧ R (action world).2 (other world').2

namespace Related

variable {σ : Type} {R : World τ → World σ → Prop}

theorem pure (a : α) : Related R (pure a : Action τ ε α) (pure a) := fun _ _ h => ⟨rfl, h⟩

theorem throw (e : ε) : Related R (throw e : Action τ ε α) (throw e) := fun _ _ h => ⟨rfl, h⟩

theorem bind {action : Action τ ε α} {other : Action σ ε α} {next : α → Action τ ε β}
    {next' : α → Action σ ε β} (ha : Related R action other)
    (hn : ∀ a, Related R (next a) (next' a)) : Related R (action >>= next) (other >>= next') := by
  intro world world' hworld
  obtain ⟨hresult, hleft⟩ := ha world world' hworld
  rw [bind_apply, bind_apply]
  match hr : action world, hr' : other world' with
  | (.ok a, left), (.ok b, left') =>
    rw [hr, hr'] at hresult hleft
    cases hresult
    exact hn a left left' hleft
  | (.error e, left), (.error e', left') =>
    rw [hr, hr'] at hresult hleft
    cases hresult
    exact ⟨rfl, hleft⟩
  | (.ok a, left), (.error e, left') =>
    rw [hr, hr'] at hresult
    cases hresult
  | (.error e, left), (.ok b, left') =>
    rw [hr, hr'] at hresult
    cases hresult

theorem mapM {step : α → Action τ ε β} {step' : α → Action σ ε β}
    (h : ∀ a, Related R (step a) (step' a)) (as : List α) :
    Related R (as.mapM step) (as.mapM step') := by
  induction as with
  | nil => exact pure []
  | cons a as ih =>
    rw [List.mapM_cons, List.mapM_cons]
    exact (h a).bind fun b => ih.bind fun bs => pure (b :: bs)

end Related

end ColumnSieve.Action
