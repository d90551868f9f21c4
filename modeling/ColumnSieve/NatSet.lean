/-!
# Finite sets of numbers, kept in ascending order

Rows of a table and positions of columns come as sets whose order is that of the numbers.

* `NatSet.ofList`, `NatSet.union`, `NatSet.inter` with their membership lemmas;
* `NatSet.ext_mem` — a set is determined by its members.
-/

namespace ColumnSieve

/-- A finite set of numbers, listed in ascending order without repetition. -/
structure NatSet where
  toList : List Nat
  ascending : toList.Pairwise (· < ·)

namespace NatSet

instance : Membership Nat NatSet := ⟨fun s n => n ∈ s.toList⟩

theorem mem_def {n : Nat} {s : NatSet} : n ∈ s ↔ n ∈ s.toList := Iff.rfl

instance (n : Nat) (s : NatSet) : Decidable (n ∈ s) :=
  inferInstanceAs (Decidable (n ∈ s.toList))

/-! ## From a list -/

/-- Keeps one of equal neighbours. -/
def distinct : List Nat → List Nat
  | x :: y :: l => if x = y then distinct (y :: l) else x :: distinct (y :: l)
  | l => l

theorem mem_distinct {n : Nat} (l : List Nat) : n ∈ distinct l ↔ n ∈ l := by
  fun_induction distinct l with
  | case1 y l ih => simp [ih]
  | case2 x y l h ih => rw [List.mem_cons, ih, List.mem_cons (a := n) (b := x)]
  | case3 l h => rfl

theorem pairwise_distinct {l : List Nat} (h : l.Pairwise (· ≤ ·)) :
    (distinct l).Pairwise (· < ·) := by
  fun_induction distinct l with
  | case1 y l ih => exact ih h.tail
  | case2 x y l hne ih =>
    refine List.pairwise_cons.2 ⟨?_, ih h.tail⟩
    intro z hz
    have hx : x ≤ y := List.rel_of_pairwise_cons h List.mem_cons_self
    rw [mem_distinct] at hz
    rcases List.mem_cons.1 hz with rfl | hz
    · omega
    · have := List.rel_of_pairwise_cons h.tail hz
      omega
  | case3 l hl =>
    match l, hl with
    | [], _ => exact .nil
    | [x], _ => exact List.pairwise_singleton _ _
    | x :: y :: l, hl => exact absurd rfl (hl x y l)

/-- The members of a list, whatever their order there. -/
def ofList (l : List Nat) : NatSet :=
  ⟨distinct (l.mergeSort (· ≤ ·)), pairwise_distinct (by
    have := @List.pairwise_mergeSort Nat (fun a b => decide (a ≤ b))
      (by simp; omega) (by simp; omega) l
    simpa using this)⟩

theorem mem_ofList {n : Nat} {l : List Nat} : n ∈ ofList l ↔ n ∈ l := by
  rw [mem_def, ofList, mem_distinct, (List.mergeSort_perm l _).mem_iff]

/-! ## Union and intersection -/

/-- Two ascending lists in one. -/
def mergeLists : List Nat → List Nat → List Nat
  | [], l => l
  | l, [] => l
  | x :: l, y :: m =>
    if x < y then x :: mergeLists l (y :: m)
    else if y < x then y :: mergeLists (x :: l) m
    else x :: mergeLists l m
termination_by l m => l.length + m.length

theorem mem_mergeLists {n : Nat} (l m : List Nat) : n ∈ mergeLists l m ↔ n ∈ l ∨ n ∈ m := by
  fun_induction mergeLists l m with
  | case1 => simp
  | case2 => simp
  | case3 x l y m h ih => simp only [List.mem_cons, ih]; grind
  | case4 x l y m h h' ih => simp only [List.mem_cons, ih]; grind
  | case5 x l y m h h' ih => simp only [List.mem_cons, ih]; grind

theorem pairwise_mergeLists {l m : List Nat} (hl : l.Pairwise (· < ·)) (hm : m.Pairwise (· < ·)) :
    (mergeLists l m).Pairwise (· < ·) := by
  fun_induction mergeLists l m with
  | case1 => exact hm
  | case2 => exact hl
  | case3 x l y m h ih =>
    refine List.pairwise_cons.2 ⟨?_, ih hl.tail hm⟩
    intro z hz
    rcases (mem_mergeLists _ _).1 hz with hz | hz
    · exact List.rel_of_pairwise_cons hl hz
    · rcases List.mem_cons.1 hz with rfl | hz
      · exact h
      · have := List.rel_of_pairwise_cons hm hz; omega
  | case4 x l y m h h' ih =>
    refine List.pairwise_cons.2 ⟨?_, ih hl hm.tail⟩
    intro z hz
    rcases (mem_mergeLists _ _).1 hz with hz | hz
    · rcases List.mem_cons.1 hz with rfl | hz
      · exact h'
      · have := List.rel_of_pairwise_cons hl hz; omega
    · exact List.rel_of_pairwise_cons hm hz
  | case5 x l y m h h' ih =>
    have hxy : x = y := by omega
    refine List.pairwise_cons.2 ⟨?_, ih hl.tail hm.tail⟩
    intro z hz
    rcases (mem_mergeLists _ _).1 hz with hz | hz
    · exact List.rel_of_pairwise_cons hl hz
    · exact hxy ▸ List.rel_of_pairwise_cons hm hz

def empty : NatSet := ⟨[], .nil⟩

/-- The members of either set. -/
def union (s t : NatSet) : NatSet :=
  ⟨mergeLists s.toList t.toList, pairwise_mergeLists s.ascending t.ascending⟩

/-- The members of both sets. -/
def inter (s t : NatSet) : NatSet :=
  ⟨s.toList.filter t.toList.contains, s.ascending.sublist List.filter_sublist⟩

theorem notMem_empty (n : Nat) : ¬ n ∈ empty := List.not_mem_nil

theorem mem_union {n : Nat} {s t : NatSet} : n ∈ s.union t ↔ n ∈ s ∨ n ∈ t := mem_mergeLists _ _

theorem mem_inter {n : Nat} {s t : NatSet} : n ∈ s.inter t ↔ n ∈ s ∧ n ∈ t := by
  simp [mem_def, inter]

/-! ## Extensionality -/

theorem eq_of_mem_iff {l m : List Nat} (hl : l.Pairwise (· < ·)) (hm : m.Pairwise (· < ·))
    (h : ∀ n, n ∈ l ↔ n ∈ m) : l = m := by
  induction l generalizing m with
  | nil =>
    cases m with
    | nil => rfl
    | cons y m => exact absurd ((h y).2 (by simp)) List.not_mem_nil
  | cons x l ih =>
    cases m with
    | nil => exact absurd ((h x).1 (by simp)) List.not_mem_nil
    | cons y m =>
      have hx : ∀ z ∈ l, x < z := fun z hz => List.rel_of_pairwise_cons hl hz
      have hy : ∀ z ∈ m, y < z := fun z hz => List.rel_of_pairwise_cons hm hz
      have hxy : x = y := by
        rcases List.mem_cons.1 ((h x).1 (by simp)) with e | e
        · exact e
        · rcases List.mem_cons.1 ((h y).2 (by simp)) with e' | e'
          · exact e'.symm
          · have := hy x e; have := hx y e'; omega
      subst hxy
      have hm' : m.Pairwise (· < ·) := hm.tail
      refine congrArg (x :: ·) (ih hl.tail hm' fun z => ?_)
      constructor
      · intro hz
        rcases List.mem_cons.1 ((h z).1 (List.mem_cons_of_mem _ hz)) with e | e
        · have := hx z hz; omega
        · exact e
      · intro hz
        rcases List.mem_cons.1 ((h z).2 (List.mem_cons_of_mem _ hz)) with e | e
        · have := hy z hz; omega
        · exact e

theorem ext_mem {s t : NatSet} (h : ∀ n, n ∈ s ↔ n ∈ t) : s = t := by
  obtain ⟨l, hl⟩ := s
  obtain ⟨m, hm⟩ := t
  have := eq_of_mem_iff hl hm h
  subst this
  rfl

end NatSet

end ColumnSieve
