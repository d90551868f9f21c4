import ColumnSieve.Proofs.Selection.Chain
import Mathlib.Logic.Equiv.Defs

/-!
# Rows of a table in another order

When row `i` of a table becomes row `σ i`, a chain selects the moved rows and nothing else, and
their identifiers are the same.

* `moveRows`, `Columns.moveRows` — the cells of one column, or of all columns alike, moved by `σ`;
* `matchesRow_moveRows_iff`      — a clause matches a moved row as it did before;
* `selects_moveRows_iff`         — so does a chain;
* `selectRows_moveRows_isOk_iff`, `movesTo_of_selectRows` — when it succeeds and what it selects
  then;
* `lookUpIdentifiers_moveRows`   — the identifiers of the moved rows.

Every number that a chain selects is that of a row, so nothing lies outside of `σ`.
-/

namespace ColumnSieve

/-- The cells of a column with `n` rows, when row `i` is moved to `σ i`. -/
def moveRows {n : Nat} (σ : Equiv.Perm (Fin n)) (cells : List String) : List String :=
  List.ofFn fun i => cells[(σ.symm i : Nat)]?.getD ""

/-- All columns of a table with `n` rows, moved alike. -/
def Columns.moveRows {n : Nat} (σ : Equiv.Perm (Fin n)) (columns : Columns) : Columns :=
  columns.map fun column => (column.1, ColumnSieve.moveRows σ column.2)

/-- Every column has a cell for each of `n` rows. -/
def Columns.HasRows (n : Nat) (columns : Columns) : Prop :=
  ∀ column ∈ columns, column.2.length = n

section

variable {n : Nat} {σ : Equiv.Perm (Fin n)} {cells : List String} {columns : Columns}

/-! ## Cells and columns -/

theorem length_moveRows : (moveRows σ cells).length = n := by
  simp [moveRows]

theorem getElem?_moveRows (h : cells.length = n) (i : Fin n) :
    (moveRows σ cells)[(σ i : Nat)]? = cells[(i : Nat)]? := by
  have hi : (i : Nat) < cells.length := by omega
  simp [moveRows, hi]

namespace Columns

theorem lookup_moveRows (name : String) :
    (columns.moveRows σ).lookup name = (columns.lookup name).map (ColumnSieve.moveRows σ) := by
  induction columns with
  | nil => rfl
  | cons column columns ih =>
    show ((column.1, ColumnSieve.moveRows σ column.2) :: Columns.moveRows σ columns).lookup name = _
    rw [List.lookup_cons, List.lookup_cons, ih]
    cases name == column.1 with
    | true => rfl
    | false => rfl

theorem HasRows.moveRows : (columns.moveRows σ).HasRows n := by
  intro column hcolumn
  obtain ⟨original, -, rfl⟩ := List.mem_map.1 hcolumn
  exact length_moveRows

theorem HasRows.length_eq (h : columns.HasRows n) {name : String}
    (hcells : columns.lookup name = some cells) : cells.length = n := by
  obtain ⟨before, after, rfl, -⟩ := List.lookup_eq_some_iff.1 hcells
  exact h (name, cells) (by simp)

end Columns

/-! ## Clauses and chains -/

section

variable {clause : Clause} {clauses : List Clause} {row : Nat}

/-- Every row is where some row has been moved to. -/
theorem exists_moved_eq (σ : Equiv.Perm (Fin n)) (h : row < n) :
    ∃ i : Fin n, (σ i : Nat) = row := by
  obtain ⟨i, hi⟩ := σ.surjective ⟨row, h⟩
  exact ⟨i, congrArg Fin.val hi⟩

theorem matchesRow_moveRows_iff (h : columns.HasRows n) (i : Fin n) :
    clause.MatchesRow (columns.moveRows σ) (σ i) ↔ clause.MatchesRow columns i := by
  unfold Clause.MatchesRow
  rw [Columns.lookup_moveRows]
  cases hcells : columns.lookup clause.column with
  | none => simp
  | some cells => simp [getElem?_moveRows (h.length_eq hcells)]

theorem Clause.MatchesRow.lt (h : columns.HasRows n) (hmatch : clause.MatchesRow columns row) :
    row < n := by
  obtain ⟨cells, cell, hcells, hcell, -⟩ := hmatch
  obtain ⟨hlt, -⟩ := List.getElem?_eq_some_iff.1 hcell
  rw [h.length_eq hcells] at hlt
  exact hlt

theorem exists_matchesRow_moveRows_iff (h : columns.HasRows n) :
    (∃ row, clause.MatchesRow (columns.moveRows σ) row) ↔
      ∃ row, clause.MatchesRow columns row := by
  constructor
  · rintro ⟨row, hrow⟩
    obtain ⟨i, rfl⟩ := exists_moved_eq σ (hrow.lt Columns.HasRows.moveRows)
    exact ⟨i, (matchesRow_moveRows_iff h i).1 hrow⟩
  · rintro ⟨row, hrow⟩
    let i : Fin n := ⟨row, hrow.lt h⟩
    exact ⟨σ i, (matchesRow_moveRows_iff h i).2 hrow⟩

/-- The condition on rows moves along with them. -/
theorem selects_moveRows_iff (h : columns.HasRows n) (i : Fin n) :
    Chain.Selects (Clause.MatchesRow (columns.moveRows σ) (σ i)) clauses ↔
      Chain.Selects (Clause.MatchesRow columns i) clauses := by
  apply Chain.selects_congr
  intro clause _
  exact matchesRow_moveRows_iff h i

/-- A row that is selected exists, since the union clause of the condition matches it. -/
theorem lt_of_selects (h : columns.HasRows n)
    (hselects : Chain.Selects (Clause.MatchesRow columns row) clauses) : row < n := by
  obtain ⟨before, clause, after, -, -, hmatch, -⟩ := hselects
  exact hmatch.lt h

end

/-! ## Selected rows -/

/-- The second set holds the rows to which those of the first are moved, and no others. -/
structure NatSet.MovesTo (σ : Equiv.Perm (Fin n)) (rows moved : NatSet) : Prop where
  lt : ∀ row ∈ rows, row < n
  mem_iff : ∀ row, row ∈ moved ↔ ∃ i : Fin n, (i : Nat) ∈ rows ∧ (σ i : Nat) = row

section

variable {table : Path} {clauses : List Clause} {rows moved : NatSet} {identifiers : List String}

theorem selectRows_moveRows_isOk_iff (h : columns.HasRows n) :
    (∃ rows, selectRows table (columns.moveRows σ) clauses = .ok rows) ↔
      ∃ rows, selectRows table columns clauses = .ok rows := by
  rw [selectRows_isOk_iff, selectRows_isOk_iff]
  exact forall₂_congr fun clause _ => exists_matchesRow_moveRows_iff h

/-- **A chain selects the moved rows and nothing else.** -/
theorem movesTo_of_selectRows (h : columns.HasRows n)
    (hrows : selectRows table columns clauses = .ok rows)
    (hmoved : selectRows table (columns.moveRows σ) clauses = .ok moved) :
    rows.MovesTo σ moved where
  lt := by
    intro row hrow
    exact lt_of_selects h ((mem_of_selectRows hrows row).1 hrow)
  mem_iff := by
    intro row
    rw [mem_of_selectRows hmoved]
    constructor
    · intro hselects
      obtain ⟨i, rfl⟩ := exists_moved_eq σ (lt_of_selects Columns.HasRows.moveRows hselects)
      rw [selects_moveRows_iff h, ← mem_of_selectRows hrows] at hselects
      exact ⟨i, hselects, rfl⟩
    · rintro ⟨i, hi, rfl⟩
      rw [mem_of_selectRows hrows] at hi
      exact (selects_moveRows_iff h i).2 hi

/-- **The identifiers of the moved rows are those of the rows**, also where an identifier is
repeated. -/
theorem lookUpIdentifiers_moveRows (h : rows.MovesTo σ moved) (hlength : identifiers.length = n) :
    ∃ found found', lookUpIdentifiers rows identifiers = .ok found ∧
      lookUpIdentifiers moved (moveRows σ identifiers) = .ok found' ∧
      ∀ id, id ∈ found ↔ id ∈ found' := by
  have hin : ∀ row ∈ rows, row < identifiers.length := by
    intro row hrow
    rw [hlength]
    exact h.lt row hrow
  have hin' : ∀ row ∈ moved, row < (moveRows σ identifiers).length := by
    intro row hrow
    obtain ⟨i, -, rfl⟩ := (h.mem_iff row).1 hrow
    rw [length_moveRows]
    exact (σ i).isLt
  obtain ⟨found, hfound⟩ := lookUpIdentifiers_isOk_iff.2 hin
  obtain ⟨found', hfound'⟩ := lookUpIdentifiers_isOk_iff.2 hin'
  refine ⟨found, found', hfound, hfound', ?_⟩
  intro id
  rw [mem_of_lookUpIdentifiers hfound, mem_of_lookUpIdentifiers hfound']
  constructor
  · rintro ⟨row, hrow, hid⟩
    let i : Fin n := ⟨row, h.lt row hrow⟩
    exact ⟨σ i, (h.mem_iff _).2 ⟨i, hrow, rfl⟩, (getElem?_moveRows hlength i).trans hid⟩
  · rintro ⟨row, hrow, hid⟩
    obtain ⟨i, hi, rfl⟩ := (h.mem_iff row).1 hrow
    exact ⟨i, hi, (getElem?_moveRows hlength i).symm.trans hid⟩

end

end

end ColumnSieve
