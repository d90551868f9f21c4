import ColumnSieve.Proofs.Selection.Chain
import ColumnSieve.Query.Basic

/-!
# What a chain selects, and where it fails

Whether a clause fails depends on its own column alone, and not on what the clauses in front of
it have selected.  So a chain fails as its leftmost faulty clause does, also where nothing is left
to narrow, and otherwise selects by a condition on each row.

* `Clause.FailsWith`         — how a clause fails by itself;
* `Chain.selects_append_iff` — clauses that only narrow do nothing in front of the others;
* `selectRows_eq_error_iff`, `selectRows_eq_ok_iff` — the two outcomes of a chain;
* `selectRows_closed_form`   — both, for the chain of a query.
-/

namespace ColumnSieve

/-- How a clause fails by itself: its column is absent, or no cell of its column is as it asks. -/
inductive Clause.FailsWith (table : Path) (columns : Columns) (clause : Clause) : Error → Prop
  | absent : columns.lookup clause.column = none →
      FailsWith table columns clause (.missingColumn clause.column table)
  | noRow {cells : List String} : columns.lookup clause.column = some cells →
      (∀ cell ∈ cells, ¬ clause.Matches cell) →
      FailsWith table columns clause
        (.emptySelection (.noRow clause.column clause.comparator clause.values))

section

variable {table : Path} {columns : Columns} {running rows : NatSet} {clause : Clause}
  {clauses leading rest : List Clause} {e : Error}

/-! ## One clause -/

theorem Clause.matching_eq_nil_iff {cells : List String} :
    (clause.matching cells).toList = [] ↔ ∀ cell ∈ cells, ¬ clause.Matches cell := by
  rw [List.eq_nil_iff_forall_not_mem]
  simp only [← NatSet.mem_def, Clause.mem_matching, Clause.admits_iff]
  constructor
  · intro h cell hcell hmatches
    obtain ⟨row, hrow⟩ := List.mem_iff_getElem?.1 hcell
    exact h row ⟨cell, hrow, hmatches⟩
  · rintro h row ⟨cell, hrow, hmatches⟩
    exact h cell (List.mem_of_getElem? hrow) hmatches

theorem applyClause_eq_error_iff :
    applyClause table columns running clause = .error e ↔ clause.FailsWith table columns e := by
  unfold applyClause
  cases hcells : columns.lookup clause.column with
  | none =>
    constructor
    · rintro ⟨⟩
      exact .absent hcells
    · rintro (_ | ⟨hcells', -⟩)
      · rfl
      · cases hcells.symm.trans hcells'
  | some cells =>
    dsimp only
    constructor
    · intro h
      split at h
      · rename_i hnone
        cases h
        exact .noRow hcells (Clause.matching_eq_nil_iff.1 hnone)
      · cases h
    · rintro (hcells' | ⟨hcells', hnone⟩)
      · cases hcells.symm.trans hcells'
      · cases hcells.symm.trans hcells'
        rw [if_pos (Clause.matching_eq_nil_iff.2 hnone)]

/-- A clause either fails or matches a row. -/
theorem Clause.not_failsWith_iff :
    (∀ e, ¬ clause.FailsWith table columns e) ↔ ∃ row, clause.MatchesRow columns row := by
  have hok : (∃ rows, applyClause table columns .empty clause = .ok rows) ↔
      ∃ row, clause.MatchesRow columns row := applyClause_isOk_iff
  have herror : ∀ e, applyClause table columns .empty clause = .error e ↔
      clause.FailsWith table columns e := fun e => applyClause_eq_error_iff
  rw [← hok]
  simp only [← herror]
  cases applyClause table columns .empty clause with
  | error e => simp
  | ok rows => simp

/-! ## Chains -/

/-- Narrowing in front of a chain has nothing to narrow. -/
theorem Chain.selects_append_iff {holds : Clause → Prop}
    (h : ∀ clause ∈ leading, clause.combinator = .intersect) :
    Chain.Selects holds (leading ++ rest) ↔ Chain.Selects holds rest := by
  rw [selects_parts_iff]
  simp only [not_selects_of_intersect h, false_and, false_or]

/-- **A chain fails as its leftmost faulty clause does.** -/
theorem selectRows_eq_error_iff : selectRows table columns clauses = .error e ↔
    ∃ before clause after, clauses = before ++ clause :: after ∧
      (∀ earlier ∈ before, ∀ e', ¬ earlier.FailsWith table columns e') ∧
      clause.FailsWith table columns e := by
  unfold selectRows
  apply Outcome.foldlM_eq_error_iff
  intro running clause e
  exact applyClause_eq_error_iff

theorem selectRows_eq_ok_iff : selectRows table columns clauses = .ok rows ↔
    (∀ clause ∈ clauses, ∃ row, clause.MatchesRow columns row) ∧
      ∀ row, row ∈ rows ↔ Chain.Selects (Clause.MatchesRow columns row) clauses := by
  constructor
  · intro h
    exact ⟨selectRows_isOk_iff.1 ⟨rows, h⟩, mem_of_selectRows h⟩
  · rintro ⟨hclauses, hrows⟩
    obtain ⟨selected, hselected⟩ : ∃ selected, selectRows table columns clauses = .ok selected :=
      selectRows_isOk_iff.2 hclauses
    have hsame : selected = rows := by
      apply NatSet.ext_mem
      intro row
      rw [hrows, mem_of_selectRows hselected]
    rw [hselected, hsame]

theorem selectRows_fails_iff : (∃ e, selectRows table columns clauses = .error e) ↔
    ∃ clause ∈ clauses, ∃ e, clause.FailsWith table columns e := by
  constructor
  · rintro ⟨e, h⟩
    obtain ⟨before, clause, after, rfl, -, hfails⟩ := selectRows_eq_error_iff.1 h
    exact ⟨clause, by simp, e, hfails⟩
  · rintro ⟨clause, hmem, e, hfails⟩
    cases h : selectRows table columns clauses with
    | error e' => exact ⟨e', rfl⟩
    | ok rows =>
      have hmatches := (selectRows_eq_ok_iff.1 h).1 clause hmem
      exact absurd hfails (Clause.not_failsWith_iff.2 hmatches e)

/-- **What the chain of a query selects, in closed form.**  Columns may differ in length.  The chain
fails exactly if some clause by itself does, and then as the leftmost of these.  Otherwise a row is
selected exactly if some union clause matches it and every intersect clause behind that one does so
too.  Intersect clauses in front of the others can be left out. -/
theorem selectRows_closed_form (query : Query) (columns : Columns) :
    ((∃ e, selectRows query.source columns query.clauses = .error e) ↔
      ∃ clause ∈ query.clauses, ∃ e, clause.FailsWith query.source columns e) ∧
    (∀ e, selectRows query.source columns query.clauses = .error e ↔
      ∃ before clause after, query.clauses = before ++ clause :: after ∧
        (∀ earlier ∈ before, ∀ e', ¬ earlier.FailsWith query.source columns e') ∧
        clause.FailsWith query.source columns e) ∧
    (∀ rows, selectRows query.source columns query.clauses = .ok rows → ∀ row, row ∈ rows ↔
      ∃ before clause after, query.clauses = before ++ clause :: after ∧
        clause.combinator = .union ∧ clause.MatchesRow columns row ∧
        ∀ later ∈ after, later.combinator = .intersect → later.MatchesRow columns row) ∧
    ∀ leading rest rows, query.clauses = leading ++ rest →
      (∀ clause ∈ leading, clause.combinator = .intersect) →
      selectRows query.source columns query.clauses = .ok rows →
        selectRows query.source columns rest = .ok rows := by
  refine ⟨selectRows_fails_iff, fun e => selectRows_eq_error_iff, ?_, ?_⟩
  · intro rows h
    exact mem_of_selectRows h
  · intro leading rest rows hclauses hleading h
    rw [hclauses] at h
    obtain ⟨hmatch, hrows⟩ := selectRows_eq_ok_iff.1 h
    refine selectRows_eq_ok_iff.2 ⟨(List.forall_mem_append.1 hmatch).2, ?_⟩
    intro row
    rw [hrows, Chain.selects_append_iff hleading]

end

/-! ## A column that is too short -/

namespace Chain

/-- Three tissues, of which only the first sample has a grade. -/
def raggedColumns : Columns := [("tissue", ["liver", "lung", "skin"]), ("grade", ["high"])]

/-- All but lung, with a grade other than low; the narrowing in front has nothing to narrow. -/
def raggedQuery : Query :=
  ⟨"", ⟨"/samples.csv"⟩, "id",
    [⟨.intersect, "tissue", .equal, ["lung"]⟩, ⟨.union, "tissue", .notEqual, ["lung"]⟩,
      ⟨.intersect, "grade", .notEqual, ["low"]⟩]⟩

/-- The same with two faults more, of which the second is an absent column. -/
def faultyQuery : Query :=
  { raggedQuery with clauses := raggedQuery.clauses ++
      [⟨.intersect, "grade", .equal, ["low"]⟩, ⟨.union, "batch", .equal, ["1"]⟩] }

end Chain

open Chain in
theorem selectRows_closed_form_of_ragged :
    (∃ rows, selectRows raggedQuery.source raggedColumns raggedQuery.clauses = .ok rows ∧
      (∀ row, row ∈ rows ↔ row = 0) ∧
      selectRows raggedQuery.source raggedColumns raggedQuery.clauses.tail = .ok rows) ∧
    selectRows faultyQuery.source raggedColumns faultyQuery.clauses =
      .error (.emptySelection (.noRow "grade" .equal ["low"])) := by
  obtain ⟨hfails, -, hselects, hleading⟩ := selectRows_closed_form raggedQuery raggedColumns
  have hmatches : ∀ clause ∈ raggedQuery.clauses, ∃ row, clause.MatchesRow raggedColumns row := by
    simp only [raggedQuery, List.forall_mem_cons]
    refine ⟨⟨1, _, "lung", rfl, rfl, ?_⟩, ⟨0, _, "liver", rfl, rfl, ?_⟩,
      ⟨0, _, "high", rfl, rfl, ?_⟩, nofun⟩
    · simp [Clause.Matches]
    · simp [Clause.Matches]
    · simp [Clause.Matches]
  have hnofault : ∀ clause ∈ raggedQuery.clauses,
      ∀ e, ¬ clause.FailsWith raggedQuery.source raggedColumns e := by
    intro clause hmem
    exact Clause.not_failsWith_iff.2 (hmatches clause hmem)
  constructor
  · cases hrows : selectRows raggedQuery.source raggedColumns raggedQuery.clauses with
    | error e =>
      obtain ⟨clause, hmem, e', hclause⟩ := hfails.1 ⟨e, hrows⟩
      exact absurd hclause (hnofault clause hmem e')
    | ok rows =>
      refine ⟨rows, rfl, ?_, hleading [raggedQuery.clauses.head (by decide)] _ rows rfl
        (by decide) hrows⟩
      intro row
      rw [hselects rows hrows row]
      change Selects (Clause.MatchesRow raggedColumns row) raggedQuery.clauses ↔ row = 0
      simp [raggedQuery, selects_cons_iff, not_selects_nil, Clause.MatchesRow, raggedColumns,
        List.lookup_cons, Clause.Matches, List.getElem?_cons]
      rintro rfl
      exact ⟨"liver", rfl, by decide⟩
  · refine ((selectRows_closed_form faultyQuery raggedColumns).2.1 _).2
      ⟨raggedQuery.clauses, _, _, rfl, hnofault, .noRow rfl ?_⟩
    simp [Clause.Matches]

end ColumnSieve
