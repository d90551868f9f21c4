import Mathlib.Data.List.Forall2

/-!
# Computations that may fail

When a sequence of computations in `Except` succeeds:

* `Outcome.bind_eq_ok_iff` — one after the other;
* `Outcome.mapM_eq_ok_iff` — one for each member of a list, with the values side by side;
* `Outcome.mapM_eq_error_iff` — when it fails instead: at the first member that does;
* `Outcome.foldlM_eq_error_iff` — a fold whose steps fail on their own account fails at the first
  member whose step does;
* `Outcome.mem_iff_of_mapM` — the values then are those of the members of the list;
* `Outcome.mapM_eq_some_iff` — the same for values that may be missing.
-/

namespace ColumnSieve.Outcome

variable {ε α β : Type}

theorem bind_eq_ok_iff {x : Except ε α} {f : α → Except ε β} {b : β} :
    x >>= f = .ok b ↔ ∃ a, x = .ok a ∧ f a = .ok b := by
  cases x with
  | error e => simp [bind, Except.bind]
  | ok a => simp [bind, Except.bind]

theorem map_eq_ok_iff {x : Except ε α} {f : α → β} {b : β} :
    x.map f = .ok b ↔ ∃ a, x = .ok a ∧ f a = b := by
  cases x with
  | error e => simp [Except.map]
  | ok a => simp [Except.map]

theorem mapM_eq_ok_iff {f : α → Except ε β} {as : List α} {bs : List β} :
    as.mapM f = .ok bs ↔ List.Forall₂ (fun a b => f a = .ok b) as bs := by
  induction as generalizing bs with
  | nil => simp [pure, Except.pure, eq_comm]
  | cons a as ih =>
    rw [List.mapM_cons, bind_eq_ok_iff, List.forall₂_cons_left_iff]
    constructor
    · rintro ⟨b, hb, h⟩
      obtain ⟨bs', hbs, h⟩ := bind_eq_ok_iff.1 h
      cases h
      exact ⟨b, bs', hb, ih.1 hbs, rfl⟩
    · rintro ⟨b, bs', hb, hbs, rfl⟩
      exact ⟨b, hb, bind_eq_ok_iff.2 ⟨bs', ih.2 hbs, rfl⟩⟩

/-- A list of computations fails as the first of them that fails. -/
theorem mapM_eq_error_iff {f : α → Except ε β} {as : List α} {e : ε} :
    as.mapM f = .error e ↔ ∃ before a after, as = before ++ a :: after ∧
      (∀ x ∈ before, ∃ b, f x = .ok b) ∧ f a = .error e := by
  induction as with
  | nil => simp [pure, Except.pure]
  | cons a as ih =>
    rw [List.mapM_cons]
    cases ha : f a with
    | error e' =>
      constructor
      · rintro ⟨⟩
        exact ⟨[], a, as, rfl, by simp, ha⟩
      · rintro ⟨before, x, after, has, hbefore, hx⟩
        rcases List.cons_eq_append_iff.1 has with ⟨rfl, hcons⟩ | ⟨rest, rfl, -⟩
        · obtain ⟨rfl, -⟩ := List.cons.inj hcons
          cases ha.symm.trans hx
          rfl
        · obtain ⟨b, hb⟩ := hbefore a List.mem_cons_self
          cases ha.symm.trans hb
    | ok b =>
      have hrest : (do let bs ← as.mapM f; pure (b :: bs) : Except ε (List β)) = .error e ↔
          as.mapM f = .error e := by
        cases as.mapM f with
        | error e' => simp [bind, Except.bind]
        | ok bs => simp [bind, Except.bind, pure, Except.pure]
      refine hrest.trans (ih.trans ?_)
      constructor
      · rintro ⟨before, x, after, rfl, hbefore, hx⟩
        exact ⟨a :: before, x, after, rfl, List.forall_mem_cons.2 ⟨⟨b, ha⟩, hbefore⟩, hx⟩
      · rintro ⟨before, x, after, has, hbefore, hx⟩
        rcases List.cons_eq_append_iff.1 has with ⟨rfl, hcons⟩ | ⟨rest, rfl, hrest⟩
        · obtain ⟨rfl, -⟩ := List.cons.inj hcons
          cases ha.symm.trans hx
        · exact ⟨rest, x, after, hrest, (List.forall_mem_cons.1 hbefore).2, hx⟩

/-- Where a step fails whatever has been folded so far, a fold fails as the first of its steps
that fails. -/
theorem foldlM_eq_error_iff {σ : Type} {step : σ → α → Except ε σ} {Fails : α → ε → Prop}
    (hstep : ∀ s a e, step s a = .error e ↔ Fails a e) {s : σ} {as : List α} {e : ε} :
    as.foldlM step s = .error e ↔ ∃ before a after, as = before ++ a :: after ∧
      (∀ x ∈ before, ∀ e', ¬ Fails x e') ∧ Fails a e := by
  induction as generalizing s with
  | nil => simp [pure, Except.pure]
  | cons a as ih =>
    rw [List.foldlM_cons]
    cases ha : step s a with
    | error e' =>
      have hfirst : Fails a e' := (hstep s a e').1 ha
      constructor
      · rintro ⟨⟩
        exact ⟨[], a, as, rfl, by simp, hfirst⟩
      · rintro ⟨before, x, after, has, hbefore, hx⟩
        rcases List.cons_eq_append_iff.1 has with ⟨rfl, hcons⟩ | ⟨rest, rfl, -⟩
        · obtain ⟨rfl, -⟩ := List.cons.inj hcons
          rw [(hstep s x e).2 hx] at ha
          cases ha
          rfl
        · exact absurd hfirst (hbefore a List.mem_cons_self e')
    | ok next =>
      have hnone : ∀ e', ¬ Fails a e' := by
        intro e' hfails
        rw [(hstep s a e').2 hfails] at ha
        cases ha
      refine Iff.trans (ih (s := next)) ?_
      constructor
      · rintro ⟨before, x, after, rfl, hbefore, hx⟩
        exact ⟨a :: before, x, after, rfl, List.forall_mem_cons.2 ⟨hnone, hbefore⟩, hx⟩
      · rintro ⟨before, x, after, has, hbefore, hx⟩
        rcases List.cons_eq_append_iff.1 has with ⟨rfl, hcons⟩ | ⟨rest, rfl, hrest⟩
        · obtain ⟨rfl, -⟩ := List.cons.inj hcons
          exact absurd hx (hnone e)
        · exact ⟨rest, x, after, hrest, (List.forall_mem_cons.1 hbefore).2, hx⟩

/-- The values are those of the members, in whatever order. -/
theorem mem_iff_of_mapM {f : α → Except ε β} {as : List α} {bs : List β} {b : β}
    (h : as.mapM f = .ok bs) : b ∈ bs ↔ ∃ a ∈ as, f a = .ok b := by
  have hall := mapM_eq_ok_iff.1 h
  clear h
  induction hall with
  | nil => simp
  | cons h _ ih => simp [ih, h, eq_comm]

/-- Optional values for all members of a list stand side by side with them. -/
theorem mapM_eq_some_iff {f : α → Option β} {as : List α} {bs : List β} :
    as.mapM f = some bs ↔ as.map f = bs.map some := by
  induction as generalizing bs with
  | nil => cases bs <;> simp
  | cons a as ih =>
    simp only [List.mapM_cons, Option.bind_eq_bind, Option.bind_eq_some_iff, Option.pure_def,
      Option.some.injEq, ih, List.map_cons]
    constructor
    · rintro ⟨b, hb, bs, hbs, rfl⟩
      rw [hb, hbs, List.map_cons]
    · intro h
      obtain ⟨b, bs, rfl, hb, hbs⟩ := List.map_eq_cons_iff.1 h.symm
      exact ⟨b, hb.symm, bs, hbs.symm, rfl⟩

/-- A list of computations succeeds exactly if each of them does. -/
theorem mapM_isOk_iff {f : α → Except ε β} {as : List α} :
    (∃ bs, as.mapM f = .ok bs) ↔ ∀ a ∈ as, ∃ b, f a = .ok b := by
  simp only [mapM_eq_ok_iff]
  induction as with
  | nil => simp
  | cons a as ih =>
    simp only [List.forall₂_cons_left_iff, List.forall_mem_cons, ← ih]
    constructor
    · rintro ⟨_, b, bs, hb, hbs, -⟩
      exact ⟨⟨b, hb⟩, bs, hbs⟩
    · rintro ⟨⟨b, hb⟩, bs, hbs⟩
      exact ⟨b :: bs, b, bs, hb, hbs, rfl⟩

end ColumnSieve.Outcome
