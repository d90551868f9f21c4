import ColumnSieve.Proofs.Distinct
import ColumnSieve.Proofs.Selection.Chain
import ColumnSieve.Query.Basic
import Mathlib.Order.Bounds.Basic

/-!
# Looking up the identifiers of rows

Rows are looked up in ascending order.  So each identifier is found at the smallest row that carries
it, and a look-up that fails does so at the smallest row that is out of range.

* `find?_eq_some_iff_isLeast`   — read in ascending order, the first hit is the least;
* `ordered_eraseDups_filterMap` — and values come in the order of the least number with each;
* `IsLookedUp`                  — the identifiers at some rows, each once, in the order of the rows;
* `isLookedUp_of_lookUpIdentifiers`, `lookUpIdentifiers_eq_error_iff` — the two outcomes;
* `lt_of_selects_union`         — a row that a chain selects lies in the column of a union clause;
* `lookUpIdentifiers_in_order`  — all of it, with what the rows of a query need to be found.
-/

namespace ColumnSieve

/-! ## The least of some numbers -/

section

variable {numbers : List Nat} {value : Nat → Option String} {n first : Nat} {id : String}

theorem find?_eq_some_iff_isLeast (ascending : numbers.Pairwise (· < ·)) {p : Nat → Bool} :
    numbers.find? p = some n ↔ IsLeast {m | m ∈ numbers ∧ p m = true} n := by
  have hleast {m : Nat} (h : numbers.find? p = some m) :
      IsLeast {m | m ∈ numbers ∧ p m = true} m := by
    obtain ⟨hm, before, after, rfl, hbefore⟩ := List.find?_eq_some_iff_append.1 h
    refine ⟨⟨by simp, hm⟩, ?_⟩
    intro other hother
    obtain ⟨hmem, hp⟩ := hother
    rcases List.mem_append.1 hmem with hmem | hmem
    · simpa [hp] using hbefore other hmem
    · have hbehind := (List.pairwise_append.1 ascending).2.1
      rcases List.mem_cons.1 hmem with rfl | hmem
      · exact Nat.le_refl _
      · exact Nat.le_of_lt (List.rel_of_pairwise_cons hbehind hmem)
  constructor
  · exact hleast
  · intro h
    cases hfind : numbers.find? p with
    | none => exact absurd h.1.2 (List.find?_eq_none.1 hfind n h.1.1)
    | some m => rw [(hleast hfind).unique h]

theorem exists_isLeast (ascending : numbers.Pairwise (· < ·)) (h : ∃ m ∈ numbers, value m = some id) :
    ∃ n, IsLeast {m | m ∈ numbers ∧ value m = some id} n := by
  have hfound : (numbers.find? fun m => decide (value m = some id)).isSome :=
    List.find?_isSome.2 (h.imp fun m hm => ⟨hm.1, decide_eq_true hm.2⟩)
  obtain ⟨n, hn⟩ := Option.isSome_iff_exists.1 hfound
  rw [find?_eq_some_iff_isLeast ascending] at hn
  exact ⟨n, by simpa only [decide_eq_true_eq] using hn⟩

theorem isLeast_cons_self (ascending : (first :: numbers).Pairwise (· < ·))
    (h : value first = some id) :
    IsLeast {m | m ∈ first :: numbers ∧ value m = some id} first := by
  refine ⟨⟨List.mem_cons_self, h⟩, ?_⟩
  intro m hm
  rcases List.mem_cons.1 hm.1 with rfl | hm
  · exact Nat.le_refl _
  · exact Nat.le_of_lt (List.rel_of_pairwise_cons ascending hm)

/-- A number without the value may stand in front. -/
theorem isLeast_cons_iff (h : value first ≠ some id) :
    IsLeast {m | m ∈ first :: numbers ∧ value m = some id} n ↔
      IsLeast {m | m ∈ numbers ∧ value m = some id} n := by
  have hsame (m : Nat) : m ∈ first :: numbers ∧ value m = some id ↔
      m ∈ numbers ∧ value m = some id := by
    rw [List.mem_cons]
    refine and_congr_left fun hm => or_iff_right ?_
    rintro rfl
    exact h hm
  simp only [hsame]

/-- Values that are read in ascending order, and kept where they come first, stand in the order of
the least number with each. -/
theorem ordered_eraseDups_filterMap (ascending : numbers.Pairwise (· < ·)) :
    (numbers.filterMap value).eraseDups.Pairwise fun id other =>
      ∃ n m, IsLeast {n | n ∈ numbers ∧ value n = some id} n ∧
        IsLeast {m | m ∈ numbers ∧ value m = some other} m ∧ n < m := by
  induction numbers with
  | nil => exact .nil
  | cons first numbers ih =>
    obtain ⟨hfirst, hrest⟩ := List.pairwise_cons.1 ascending
    cases hvalue : value first with
    | none =>
      have hne (id : String) : value first ≠ some id := by simp [hvalue]
      simpa only [List.filterMap_cons_none hvalue, isLeast_cons_iff (hne _)] using ih hrest
    | some id =>
      -- what stands behind are the other values, and these are not found at the first number
      rw [List.filterMap_cons_some hvalue, List.eraseDups_cons, ← Distinct.filter_eraseDups]
      have hother {other : String}
          (h : other ∈ (numbers.filterMap value).eraseDups.filter fun v => !v == id) :
          value first ≠ some other ∧ ∃ m ∈ numbers, value m = some other := by
        obtain ⟨hmem, hne⟩ := List.mem_filter.1 h
        rw [List.mem_eraseDups, List.mem_filterMap] at hmem
        refine ⟨?_, hmem⟩
        rw [hvalue]
        rintro ⟨⟩
        simp at hne
      refine List.pairwise_cons.2 ⟨?_, ((ih hrest).filter _).imp_of_mem ?_⟩
      · intro other h
        obtain ⟨hne, hsome⟩ := hother h
        obtain ⟨m, hm⟩ := exists_isLeast hrest hsome
        exact ⟨first, m, isLeast_cons_self ascending hvalue, (isLeast_cons_iff hne).2 hm,
          hfirst m hm.1.1⟩
      · intro other other' h h' hleast
        simpa only [isLeast_cons_iff (hother h).1, isLeast_cons_iff (hother h').1] using hleast

end

/-! ## Outcomes of a look-up -/

/-- The identifiers at some rows, each once, in the order of the smallest row that carries each. -/
structure IsLookedUp (rows : NatSet) (identifiers found : List String) : Prop where
  nodup : found.Nodup
  mem_iff : ∀ id, id ∈ found ↔ ∃ row ∈ rows, identifiers[row]? = some id
  ordered : found.Pairwise fun id other => ∃ row row',
    IsLeast {row | row ∈ rows ∧ identifiers[row]? = some id} row ∧
      IsLeast {row' | row' ∈ rows ∧ identifiers[row']? = some other} row' ∧ row < row'

section

variable {rows : NatSet} {identifiers found : List String} {e : Error}

theorem isLookedUp_of_lookUpIdentifiers (h : lookUpIdentifiers rows identifiers = .ok found) :
    IsLookedUp rows identifiers found := by
  have hmem := mem_of_lookUpIdentifiers h
  unfold lookUpIdentifiers at h
  split at h
  · cases h
  · cases h
    refine ⟨Distinct.nodup_eraseDups _, hmem, ?_⟩
    simp only [List.getElem?_toArray]
    exact ordered_eraseDups_filterMap rows.ascending

/-- A look-up fails at the smallest row that is out of range. -/
theorem lookUpIdentifiers_eq_error_iff : lookUpIdentifiers rows identifiers = .error e ↔
    ∃ row, IsLeast {row | row ∈ rows ∧ identifiers.length ≤ row} row ∧
      e = .rowOutOfRange row identifiers.length := by
  have hfirst (row : Nat) : rows.toList.find? (identifiers.length ≤ ·) = some row ↔
      IsLeast {row | row ∈ rows ∧ identifiers.length ≤ row} row := by
    rw [find?_eq_some_iff_isLeast rows.ascending]
    simp only [decide_eq_true_eq]
    rfl
  simp only [← hfirst, lookUpIdentifiers]
  cases rows.toList.find? (identifiers.length ≤ ·) with
  | none => simp
  | some row => simp [eq_comm]

/-! ## Rows of a query -/

/-- A selected row lies in the column of a union clause, whatever the clauses that narrow say. -/
theorem lt_of_selects_union {columns : Columns} {clauses : List Clause} {row length : Nat}
    (hlong : ∀ clause ∈ clauses, clause.combinator = .union →
      ∀ cells, columns.lookup clause.column = some cells → cells.length ≤ length)
    (h : Chain.Selects (Clause.MatchesRow columns row) clauses) : row < length := by
  obtain ⟨before, clause, after, rfl, hunion, ⟨cells, cell, hcells, hcell, -⟩, -⟩ := h
  obtain ⟨hrow, -⟩ := List.getElem?_eq_some_iff.1 hcell
  exact Nat.lt_of_lt_of_le hrow (hlong clause (by simp) hunion cells hcells)

/-- **Looking up rows, and the only way in which it fails.**  A look-up succeeds exactly if every row
is in range.  It then finds the identifiers at the rows, each once, in the order of the smallest row
that carries each; otherwise it names the smallest row that is out of range.  The rows of a query are
all in range if the identifiers are at least as many as the cells of each column that a union clause
asks about; how long the columns are that only narrow does not matter. -/
theorem lookUpIdentifiers_in_order (rows : NatSet) (identifiers : List String) :
    ((∃ found, lookUpIdentifiers rows identifiers = .ok found) ↔
      ∀ row ∈ rows, row < identifiers.length) ∧
    (∀ found, lookUpIdentifiers rows identifiers = .ok found →
      IsLookedUp rows identifiers found) ∧
    (∀ e, lookUpIdentifiers rows identifiers = .error e ↔
      ∃ row, IsLeast {row | row ∈ rows ∧ identifiers.length ≤ row} row ∧
        e = .rowOutOfRange row identifiers.length) ∧
    ∀ (query : Query) (columns : Columns),
      selectRows query.source columns query.clauses = .ok rows →
      (∀ clause ∈ query.clauses, clause.combinator = .union →
        ∀ cells, columns.lookup clause.column = some cells →
          cells.length ≤ identifiers.length) →
      ∃ found, lookUpIdentifiers rows identifiers = .ok found := by
  refine ⟨lookUpIdentifiers_isOk_iff, fun found => isLookedUp_of_lookUpIdentifiers,
    fun e => lookUpIdentifiers_eq_error_iff, ?_⟩
  intro query columns hrows hlong
  refine lookUpIdentifiers_isOk_iff.2 ?_
  intro row hrow
  exact lt_of_selects_union hlong ((mem_of_selectRows hrows row).1 hrow)

end

/-! ## Columns of different lengths -/

namespace Chain

/-- Two tissues, and grades for more rows than there are tissues or identifiers. -/
def unevenColumns : Columns :=
  [("tissue", ["liver", "lung"]), ("grade", ["high", "low", "high", "low"])]

/-- Every tissue but skin, whatever its grade is. -/
def unevenQuery : Query :=
  ⟨"", ⟨"/samples.csv"⟩, "id",
    [⟨.union, "tissue", .notEqual, ["skin"]⟩, ⟨.intersect, "grade", .equal, ["high", "low"]⟩]⟩

end Chain

open Chain in
theorem lookUpIdentifiers_in_order_of_uneven :
    ∃ rows, selectRows unevenQuery.source unevenColumns unevenQuery.clauses = .ok rows ∧
      (∃ found, lookUpIdentifiers rows ["s1", "s1"] = .ok found ∧
        IsLookedUp rows ["s1", "s1"] found) ∧
      lookUpIdentifiers rows ["s1"] = .error (.rowOutOfRange 1 1) := by
  obtain ⟨rows, hrows⟩ : ∃ rows, selectRows unevenQuery.source unevenColumns
      unevenQuery.clauses = .ok rows := by
    refine selectRows_isOk_iff.2 ?_
    simp only [unevenQuery, List.forall_mem_cons]
    refine ⟨⟨0, _, "liver", rfl, rfl, ?_⟩, ⟨0, _, "high", rfl, rfl, ?_⟩, nofun⟩
    · simp [Clause.Matches]
    · simp [Clause.Matches]
  obtain ⟨-, hfound, -, hquery⟩ := lookUpIdentifiers_in_order rows ["s1", "s1"]
  obtain ⟨-, -, herror, -⟩ := lookUpIdentifiers_in_order rows ["s1"]
  obtain ⟨found, hok⟩ := hquery unevenQuery unevenColumns hrows (by
    simp [unevenQuery, unevenColumns, List.lookup_cons])
  have hsecond : 1 ∈ rows := by
    rw [mem_of_selectRows hrows]
    simp [unevenQuery, selects_cons_iff, not_selects_nil, Clause.MatchesRow, unevenColumns,
      List.lookup_cons, Clause.Matches]
  refine ⟨rows, hrows, ⟨found, hok, hfound found hok⟩, (herror _).2 ⟨1, ⟨⟨hsecond, ?_⟩, ?_⟩, rfl⟩⟩
  · simp
  · intro row hrow
    exact hrow.2

end ColumnSieve
