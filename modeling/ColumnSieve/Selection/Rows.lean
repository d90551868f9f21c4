import ColumnSieve.Error
import ColumnSieve.NatSet

/-!
# Rows selected by a chain of clauses

* `Clause.matching`   — the rows of a column whose cell satisfies a clause;
* `selectRows`        — a chain read left to right over the columns of a table;
* `lookUpIdentifiers` — the identifiers of the selected rows.

The selection starts empty, so an ampersand clause in front selects nothing.
-/

namespace ColumnSieve

/-- Cells of some columns of a table, found by the name of the column.  Columns may differ in
length. -/
abbrev Columns := List (String × List String)

/-- The rows of a column whose cells satisfy the clause. -/
def Clause.matching (clause : Clause) (cells : List String) : NatSet :=
  .ofList ((cells.zipIdx.filter fun p => clause.admits p.1).map (·.2))

theorem Clause.mem_matching {clause : Clause} {cells : List String} {row : Nat} :
    row ∈ clause.matching cells ↔ ∃ cell, cells[row]? = some cell ∧ clause.admits cell = true := by
  simp only [matching, NatSet.mem_ofList, List.mem_map, List.mem_filter, Prod.exists,
    List.mem_zipIdx_iff_getElem?]
  constructor
  · rintro ⟨cell, r, ⟨hr, ha⟩, rfl⟩
    exact ⟨cell, hr, ha⟩
  · rintro ⟨cell, hr, ha⟩
    exact ⟨cell, row, ⟨hr, ha⟩, rfl⟩

/-- Joins the rows of one more clause to the running selection. -/
def Combinator.join : Combinator → NatSet → NatSet → NatSet
  | .union => .union
  | .intersect => .inter

/-- One clause on top of the running selection.  It is an error if the table has no such
column, or if the clause by itself matches no row. -/
def applyClause (table : Path) (columns : Columns) (running : NatSet) (clause : Clause) :
    Except Error NatSet :=
  match columns.lookup clause.column with
  | none => .error (.missingColumn clause.column table)
  | some cells =>
    if (clause.matching cells).toList = [] then
      .error (.emptySelection (.noRow clause.column clause.comparator clause.values))
    else
      .ok (clause.combinator.join running (clause.matching cells))

/-- The rows that a chain selects in a table; `table` names it in errors. -/
def selectRows (table : Path) (columns : Columns) (clauses : List Clause) :
    Except Error NatSet :=
  clauses.foldlM (applyClause table columns) .empty

/-- The identifiers of the rows, in row order, each at its first occurrence.  A row beyond the
end of the identifier column is an error; the smallest is named. -/
def lookUpIdentifiers (rows : NatSet) (identifiers : List String) :
    Except Error (List String) :=
  match rows.toList.find? (identifiers.length ≤ ·) with
  | some row => .error (.rowOutOfRange row identifiers.length)
  | none =>
    let table := identifiers.toArray
    .ok (rows.toList.filterMap (table[·]?)).eraseDups

end ColumnSieve
