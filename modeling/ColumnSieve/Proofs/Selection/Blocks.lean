import ColumnSieve.Proofs.Selection.Faults
import Mathlib.Data.List.Perm.Basic
import Mathlib.Data.List.SplitBy

/-!
# Which clauses of a chain can change places

A chain falls into blocks of clauses with one sign.  Inside of a block the order of the clauses
does not matter, and neither does it matter how often one of them is repeated; where a union clause
and an intersect clause change places, it may.

* `Chain.blocks`, `Chain.Reordered` — the blocks of a chain, and a new order inside of them;
* `Chain.selects_flatten_iff`       — blocks of one sign select the same in any order;
* `selectRows_congr`                — chains of the same clauses with the same condition on rows;
* `selectRows_commutes`             — what this says of the rows that a chain selects.
-/

namespace ColumnSieve

namespace Chain

/-- The longest runs of clauses with one sign. -/
def blocks (clauses : List Clause) : List (List Clause) :=
  clauses.splitBy fun clause next => clause.combinator == next.combinator

/-- The same clauses in another order, in which none has left its block. -/
def Reordered (clauses clauses' : List Clause) : Prop :=
  ∃ blocks', List.Forall₂ List.Perm (blocks clauses) blocks' ∧ blocks'.flatten = clauses'

/-- All clauses have the same sign. -/
def OneSign (block : List Clause) : Prop :=
  ∃ combinator, ∀ clause ∈ block, clause.combinator = combinator

variable {holds : Clause → Prop} {clauses clauses' block block' first second : List Clause}

/-! ## Blocks -/

/-- A block that adds rows adds those of its clauses. -/
theorem selects_of_union_iff (h : ∀ clause ∈ block, clause.combinator = .union) :
    Selects holds block ↔ ∃ clause ∈ block, holds clause := by
  constructor
  · rintro ⟨before, clause, after, rfl, -, hclause, -⟩
    exact ⟨clause, by simp, hclause⟩
  · rintro ⟨clause, hmem, hclause⟩
    obtain ⟨before, after, rfl⟩ := List.append_of_mem hmem
    refine ⟨before, clause, after, rfl, h clause hmem, hclause, ?_⟩
    intro later hlater hintersect
    rw [h later (by simp [hlater])] at hintersect
    cases hintersect

/-- A block of one sign selects the same in any order. -/
theorem selects_perm_iff (hsign : OneSign block) (hperm : block.Perm block') :
    Selects holds block ↔ Selects holds block' := by
  obtain ⟨combinator, hblock⟩ := hsign
  have hblock' : ∀ clause ∈ block', clause.combinator = combinator := by
    intro clause hclause
    exact hblock clause (hperm.mem_iff.2 hclause)
  cases combinator with
  | union =>
    rw [selects_of_union_iff hblock, selects_of_union_iff hblock']
    simp only [hperm.mem_iff]
  | intersect =>
    exact iff_of_false (not_selects_of_intersect hblock) (not_selects_of_intersect hblock')

/-- **Inside of blocks of one sign the order does not matter.** -/
theorem selects_flatten_iff {blocks blocks' : List (List Clause)}
    (hsign : ∀ block ∈ blocks, OneSign block) (hperm : List.Forall₂ List.Perm blocks blocks') :
    Selects holds blocks.flatten ↔ Selects holds blocks'.flatten := by
  induction hperm with
  | nil => rfl
  | cons hblock hrest ih =>
    obtain ⟨hfirst, hsigns⟩ := List.forall_mem_cons.1 hsign
    rw [List.flatten_cons, List.flatten_cons, selects_parts_iff, selects_parts_iff,
      selects_perm_iff hfirst hblock, ih hsigns]
    simp only [(List.Perm.flatten_congr hrest).mem_iff]

theorem combinator_eq_of_isChain {clause : Clause}
    (h : (clause :: block).IsChain fun earlier next => earlier.combinator = next.combinator) :
    ∀ later ∈ block, later.combinator = clause.combinator := by
  induction block generalizing clause with
  | nil => exact List.forall_mem_nil _
  | cons next block ih =>
    obtain ⟨hnext, hrest⟩ := List.isChain_cons_cons.1 h
    refine List.forall_mem_cons.2 ⟨hnext.symm, ?_⟩
    intro later hlater
    rw [ih hrest later hlater, hnext]

theorem oneSign_of_mem_blocks (h : block ∈ blocks clauses) : OneSign block := by
  have hchain := List.isChain_of_mem_splitBy h
  simp only [beq_iff_eq] at hchain
  cases block with
  | nil => exact ⟨.union, List.forall_mem_nil _⟩
  | cons clause block =>
    exact ⟨clause.combinator, List.forall_mem_cons.2 ⟨rfl, combinator_eq_of_isChain hchain⟩⟩

theorem Reordered.selects_iff (h : Reordered clauses clauses') :
    Selects holds clauses' ↔ Selects holds clauses := by
  obtain ⟨blocks', hperm, rfl⟩ := h
  rw [← selects_flatten_iff (fun _ => oneSign_of_mem_blocks) hperm, blocks,
    List.flatten_splitBy]

theorem Reordered.perm (h : Reordered clauses clauses') : clauses.Perm clauses' := by
  obtain ⟨blocks', hperm, rfl⟩ := h
  have hflat := List.Perm.flatten_congr hperm
  rwa [blocks, List.flatten_splitBy] at hflat

/-- A clause that is repeated at once adds and narrows no more than it did. -/
theorem selects_repeated_iff {clause : Clause} :
    Selects holds (first ++ clause :: clause :: second) ↔
      Selects holds (first ++ clause :: second) := by
  have hrepeated : Selects holds (clause :: clause :: second) ↔
      Selects holds (clause :: second) := by
    rw [selects_cons_iff, selects_cons_iff, List.forall_mem_cons]
    tauto
  rw [selects_parts_iff, selects_parts_iff, hrepeated]
  simp only [List.forall_mem_cons]
  tauto

end Chain

/-! ## Selected rows -/

section

variable {table : Path} {columns : Columns} {clauses clauses' first second : List Clause}
  {rows rows' : NatSet}

/-- Chains of the same clauses that put the same condition on a row select the same rows, or both
fail. -/
theorem selectRows_congr (hmem : ∀ clause, clause ∈ clauses' ↔ clause ∈ clauses)
    (hselects : ∀ holds, Chain.Selects holds clauses' ↔ Chain.Selects holds clauses) :
    selectRows table columns clauses' = .ok rows ↔ selectRows table columns clauses = .ok rows := by
  rw [selectRows_eq_ok_iff, selectRows_eq_ok_iff]
  simp only [hmem, hselects]

/-- Clauses that only add rows add them to whatever is in front of them. -/
theorem selectRows_append_of_union (hfirst : selectRows table columns first = .ok rows)
    (hsecond : selectRows table columns second = .ok rows')
    (hunion : ∀ clause ∈ second, clause.combinator ≠ .intersect) :
    selectRows table columns (first ++ second) = .ok (rows.union rows') := by
  obtain ⟨hmatches, hrows⟩ := selectRows_eq_ok_iff.1 hfirst
  obtain ⟨hmatches', hrows'⟩ := selectRows_eq_ok_iff.1 hsecond
  refine selectRows_eq_ok_iff.2 ⟨List.forall_mem_append.2 ⟨hmatches, hmatches'⟩, ?_⟩
  intro row
  have hthrough : ∀ later ∈ second, later.combinator = .intersect →
      later.MatchesRow columns row := by
    intro later hlater hintersect
    exact absurd hintersect (hunion later hlater)
  rw [NatSet.mem_union, hrows, hrows', Chain.selects_parts_iff]
  simp only [and_iff_left hthrough]

/-- **Clauses of one sign commute.**  In whatever order the clauses of each block stand, a chain
fails or selects the same rows.  Clauses that only add rows can be read apart from those in front of
them, and a clause that is repeated at once does nothing new. -/
theorem selectRows_commutes (table : Path) (columns : Columns) :
    (∀ clauses clauses', Chain.Reordered clauses clauses' → ∀ rows,
      selectRows table columns clauses' = .ok rows ↔
        selectRows table columns clauses = .ok rows) ∧
    (∀ first second rows rows', selectRows table columns first = .ok rows →
      selectRows table columns second = .ok rows' →
      (∀ clause ∈ second, clause.combinator ≠ .intersect) →
      selectRows table columns (first ++ second) = .ok (rows.union rows')) ∧
    ∀ first clause second rows,
      selectRows table columns (first ++ clause :: clause :: second) = .ok rows ↔
        selectRows table columns (first ++ clause :: second) = .ok rows := by
  refine ⟨?_, ?_, ?_⟩
  · intro clauses clauses' h rows
    exact selectRows_congr (fun _ => h.perm.mem_iff.symm) fun _ => h.selects_iff
  · intro first second rows rows'
    exact selectRows_append_of_union
  · intro first clause second rows
    exact selectRows_congr (by simp) fun _ => Chain.selects_repeated_iff

end

/-! ## A chain in another order -/

namespace Chain

def skinClause : Clause := ⟨.union, "tissue", .equal, ["skin"]⟩

/-- Two clauses that add rows, two that narrow, and one more that adds. -/
def mixedChain : List Clause :=
  [⟨.union, "tissue", .equal, ["liver"]⟩, skinClause, ⟨.intersect, "grade", .notEqual, ["low"]⟩,
    ⟨.intersect, "tissue", .equal, ["liver"]⟩, ⟨.union, "tissue", .equal, ["lung"]⟩]

/-- The first two and the two behind them have changed places. -/
def mixedReordered : List Clause :=
  [skinClause, ⟨.union, "tissue", .equal, ["liver"]⟩, ⟨.intersect, "tissue", .equal, ["liver"]⟩,
    ⟨.intersect, "grade", .notEqual, ["low"]⟩, ⟨.union, "tissue", .equal, ["lung"]⟩]

theorem mixedChain_reordered : Reordered mixedChain mixedReordered := by
  have hblocks : blocks mixedChain =
      [mixedChain.take 2, (mixedChain.drop 2).take 2, mixedChain.drop 4] := by decide
  refine ⟨[mixedReordered.take 2, (mixedReordered.drop 2).take 2, mixedReordered.drop 4], ?_,
    by decide⟩
  rw [hblocks]
  exact .cons (.swap _ _ _) (.cons (.swap _ _ _) (.cons (.refl _) .nil))

end Chain

open Chain in
theorem selectRows_commutes_of_mixed : ∃ rows rows',
    selectRows ⟨"/samples.csv"⟩ raggedColumns mixedChain = .ok rows ∧
    selectRows ⟨"/samples.csv"⟩ raggedColumns mixedReordered = .ok rows ∧
    selectRows ⟨"/samples.csv"⟩ raggedColumns (mixedChain ++ [skinClause]) =
      .ok (rows.union rows') ∧
    selectRows ⟨"/samples.csv"⟩ raggedColumns (mixedChain ++ [skinClause, skinClause]) =
      .ok (rows.union rows') ∧
    rows.toList = [0, 1] ∧ rows'.toList = [2] := by
  have hchain : (selectRows ⟨"/samples.csv"⟩ raggedColumns mixedChain).map NatSet.toList =
      .ok [0, 1] := by decide +kernel
  have hskin : (selectRows ⟨"/samples.csv"⟩ raggedColumns [skinClause]).map NatSet.toList =
      .ok [2] := by decide +kernel
  obtain ⟨rows, hrows, hlist⟩ := Outcome.map_eq_ok_iff.1 hchain
  obtain ⟨rows', hrows', hlist'⟩ := Outcome.map_eq_ok_iff.1 hskin
  obtain ⟨hreordered, hadded, hrepeated⟩ := selectRows_commutes ⟨"/samples.csv"⟩ raggedColumns
  have hunion := hadded mixedChain [skinClause] rows rows' hrows hrows' (by decide)
  exact ⟨rows, rows', hrows, (hreordered _ _ mixedChain_reordered rows).2 hrows, hunion,
    (hrepeated mixedChain skinClause [] _).2 hunion, hlist, hlist'⟩

end ColumnSieve
