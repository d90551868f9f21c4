import ColumnSieve.Proofs.Outcome
import ColumnSieve.Selection.Rows

/-!
# Which rows a chain selects

`selectRows` folds a chain over a running selection and stops at the first clause that finds
nothing.  Here the fold is replaced by a condition on rows: a row is selected if some union
clause matches it and every intersect clause behind that one matches it as well.

* `Chain.Selects`          — that condition, for any notion of a clause that holds;
* `Clause.MatchesRow`      — a clause holds of a row of its own column;
* `selectRows_isOk_iff`    — a chain succeeds exactly if each clause by itself matches a row;
* `mem_of_selectRows`      — and then it selects exactly the rows of the condition;
* `lookUpIdentifiers_isOk_iff`, `mem_of_lookUpIdentifiers` — the identifiers of the rows.

Columns may differ in length: a row that a column lacks matches no clause on that column.
-/

namespace ColumnSieve

/-! ## The condition on rows -/

/-- What a cell has to be for a clause to hold of it. -/
def Clause.Matches (clause : Clause) (cell : String) : Prop :=
  match clause.comparator with
  | .equal => cell ∈ clause.values
  | .notEqual => cell ∉ clause.values

theorem Clause.admits_iff {clause : Clause} {cell : String} :
    clause.admits cell = true ↔ clause.Matches cell := by
  unfold admits Matches
  cases clause.comparator with
  | equal => simp
  | notEqual => simp

namespace Chain

/-- Some union clause of the chain holds, and so does every intersect clause behind it. -/
def Selects (holds : Clause → Prop) (clauses : List Clause) : Prop :=
  ∃ before clause after, clauses = before ++ clause :: after ∧
    clause.combinator = .union ∧ holds clause ∧
    ∀ later ∈ after, later.combinator = .intersect → holds later

variable {holds : Clause → Prop}

theorem not_selects_nil : ¬ Selects holds [] := by
  rintro ⟨before, clause, after, h, -⟩
  simp at h

/-- The union clause of the condition is the first of the chain, or stands behind it. -/
theorem selects_cons_iff {clause : Clause} {clauses : List Clause} :
    Selects holds (clause :: clauses) ↔
      (clause.combinator = .union ∧ holds clause ∧
        ∀ later ∈ clauses, later.combinator = .intersect → holds later) ∨
      Selects holds clauses := by
  constructor
  · rintro ⟨before, c, after, h, hc⟩
    cases before with
    | nil =>
      simp only [List.nil_append, List.cons.injEq] at h
      obtain ⟨rfl, rfl⟩ := h
      exact .inl hc
    | cons b before =>
      simp only [List.cons_append, List.cons.injEq] at h
      exact .inr ⟨before, c, after, h.2, hc⟩
  · rintro (hc | ⟨before, c, after, rfl, hc⟩)
    · exact ⟨[], clause, clauses, rfl, hc⟩
    · exact ⟨clause :: before, c, after, rfl, hc⟩

/-- What the first of two parts selects has to get through the second, unless that selects it too. -/
theorem selects_parts_iff {first second : List Clause} : Selects holds (first ++ second) ↔
    (Selects holds first ∧
      ∀ later ∈ second, later.combinator = .intersect → holds later) ∨ Selects holds second := by
  induction first with
  | nil => simp [not_selects_nil]
  | cons clause first ih =>
    rw [List.cons_append, selects_cons_iff, ih, selects_cons_iff]
    simp only [List.forall_mem_append]
    tauto

/-- Clauses that only narrow select nothing by themselves. -/
theorem not_selects_of_intersect {clauses : List Clause}
    (h : ∀ clause ∈ clauses, clause.combinator = .intersect) : ¬ Selects holds clauses := by
  rintro ⟨before, clause, after, rfl, hunion, -⟩
  have hintersect := h clause (by simp)
  rw [hunion] at hintersect
  cases hintersect

theorem selects_congr {holds holds' : Clause → Prop} {clauses : List Clause}
    (h : ∀ clause ∈ clauses, holds clause ↔ holds' clause) :
    Selects holds clauses ↔ Selects holds' clauses := by
  induction clauses with
  | nil => exact iff_of_false not_selects_nil not_selects_nil
  | cons clause clauses ih =>
    have hc := h clause List.mem_cons_self
    have hcs : ∀ c ∈ clauses, holds c ↔ holds' c := by
      intro c hc
      exact h c (List.mem_cons_of_mem _ hc)
    have hall : (∀ c ∈ clauses, c.combinator = .intersect → holds c) ↔
        ∀ c ∈ clauses, c.combinator = .intersect → holds' c :=
      forall₂_congr fun c hm => imp_congr_right fun _ => hcs c hm
    rw [selects_cons_iff, selects_cons_iff, ih hcs, hc, hall]

end Chain

/-- A clause holds of a row: its column has such a row, and the cell is as the clause asks. -/
def Clause.MatchesRow (columns : Columns) (row : Nat) (clause : Clause) : Prop :=
  ∃ cells cell, columns.lookup clause.column = some cells ∧ cells[row]? = some cell ∧
    clause.Matches cell

/-! ## One clause -/

section

variable {table : Path} {columns : Columns} {running rows : NatSet} {clause : Clause}

theorem Clause.mem_matching_iff_matchesRow {cells : List String} {row : Nat}
    (h : columns.lookup clause.column = some cells) :
    row ∈ clause.matching cells ↔ clause.MatchesRow columns row := by
  rw [mem_matching]
  constructor
  · rintro ⟨cell, hr, ha⟩
    exact ⟨cells, cell, h, hr, admits_iff.1 ha⟩
  · rintro ⟨cells', cell, h', hr, hc⟩
    cases h.symm.trans h'
    exact ⟨cell, hr, admits_iff.2 hc⟩

/-- A clause succeeds exactly if it matches a row, and then joins the rows that it matches. -/
theorem applyClause_eq_ok_iff :
    applyClause table columns running clause = .ok rows ↔
      (∃ row, clause.MatchesRow columns row) ∧
        ∃ cells, columns.lookup clause.column = some cells ∧
          rows = clause.combinator.join running (clause.matching cells) := by
  unfold applyClause
  cases hl : columns.lookup clause.column with
  | none => simp
  | some cells =>
    have hm (row : Nat) : row ∈ clause.matching cells ↔ clause.MatchesRow columns row :=
      Clause.mem_matching_iff_matchesRow hl
    by_cases he : (clause.matching cells).toList = []
    · have hno : ¬ ∃ row, clause.MatchesRow columns row := by
        rintro ⟨row, hr⟩
        have := (hm row).2 hr
        rw [NatSet.mem_def, he] at this
        exact List.not_mem_nil this
      simp [he, hno]
    · obtain ⟨row, hr⟩ := List.exists_mem_of_ne_nil _ he
      have hyes : ∃ row, clause.MatchesRow columns row := ⟨row, (hm row).1 hr⟩
      simp [he, hyes, eq_comm]

/-- What a successful clause does to the running selection. -/
theorem mem_of_applyClause (h : applyClause table columns running clause = .ok rows) (row : Nat) :
    row ∈ rows ↔
      match clause.combinator with
      | .union => row ∈ running ∨ clause.MatchesRow columns row
      | .intersect => row ∈ running ∧ clause.MatchesRow columns row := by
  obtain ⟨-, cells, hl, rfl⟩ := applyClause_eq_ok_iff.1 h
  rw [← Clause.mem_matching_iff_matchesRow hl]
  cases clause.combinator with
  | union => exact NatSet.mem_union
  | intersect => exact NatSet.mem_inter

theorem applyClause_isOk_iff :
    (∃ rows, applyClause table columns running clause = .ok rows) ↔
      ∃ row, clause.MatchesRow columns row := by
  constructor
  · rintro ⟨rows, h⟩
    exact (applyClause_eq_ok_iff.1 h).1
  · rintro ⟨row, cells, cell, hl, hc⟩
    exact ⟨_, applyClause_eq_ok_iff.2 ⟨⟨row, cells, cell, hl, hc⟩, cells, hl, rfl⟩⟩

end

/-! ## A whole chain -/

section

variable {table : Path} {columns : Columns} {running rows : NatSet} {clauses : List Clause}

theorem foldlM_applyClause_cons {clause : Clause} :
    (clause :: clauses).foldlM (applyClause table columns) running = .ok rows ↔
      ∃ next, applyClause table columns running clause = .ok next ∧
        clauses.foldlM (applyClause table columns) next = .ok rows := by
  rw [List.foldlM_cons, Outcome.bind_eq_ok_iff]

theorem foldlM_applyClause_isOk_iff :
    (∃ rows, clauses.foldlM (applyClause table columns) running = .ok rows) ↔
      ∀ clause ∈ clauses, ∃ row, clause.MatchesRow columns row := by
  induction clauses generalizing running with
  | nil => simp [pure, Except.pure]
  | cons clause clauses ih =>
    simp only [foldlM_applyClause_cons, List.forall_mem_cons]
    constructor
    · rintro ⟨rows, next, h, hs⟩
      exact ⟨applyClause_isOk_iff.1 ⟨next, h⟩, ih.1 ⟨rows, hs⟩⟩
    · rintro ⟨h, hs⟩
      obtain ⟨next, hn⟩ : ∃ next, applyClause table columns running clause = .ok next :=
        applyClause_isOk_iff.2 h
      obtain ⟨rows, hr⟩ : ∃ rows, clauses.foldlM (applyClause table columns) next = .ok rows :=
        ih.2 hs
      exact ⟨rows, next, hn, hr⟩

/-- The rows of the running selection stay if every intersect clause matches them; the others
are those that the chain selects by itself. -/
theorem mem_of_foldlM_applyClause
    (h : clauses.foldlM (applyClause table columns) running = .ok rows) (row : Nat) :
    row ∈ rows ↔
      (row ∈ running ∧
        ∀ clause ∈ clauses, clause.combinator = .intersect → clause.MatchesRow columns row) ∨
      Chain.Selects (Clause.MatchesRow columns row) clauses := by
  induction clauses generalizing running with
  | nil =>
    cases h
    simp [Chain.not_selects_nil]
  | cons clause clauses ih =>
    obtain ⟨next, hn, hs⟩ := foldlM_applyClause_cons.1 h
    have hnext := mem_of_applyClause hn row
    rw [ih hs, hnext, Chain.selects_cons_iff]
    cases hc : clause.combinator with
    | union => simp only [List.forall_mem_cons, hc]; grind
    | intersect => simp only [List.forall_mem_cons, hc]; grind

/-- **A chain succeeds exactly if each of its clauses matches a row**, whatever the selection
was when the clause came. -/
theorem selectRows_isOk_iff :
    (∃ rows, selectRows table columns clauses = .ok rows) ↔
      ∀ clause ∈ clauses, ∃ row, clause.MatchesRow columns row :=
  foldlM_applyClause_isOk_iff

/-- **A successful chain selects exactly the rows of the condition.** -/
theorem mem_of_selectRows (h : selectRows table columns clauses = .ok rows) (row : Nat) :
    row ∈ rows ↔ Chain.Selects (Clause.MatchesRow columns row) clauses := by
  rw [mem_of_foldlM_applyClause h row]
  simp [NatSet.notMem_empty]

end

/-! ## Identifiers of rows -/

section

variable {rows : NatSet} {identifiers found : List String}

theorem lookUpIdentifiers_isOk_iff :
    (∃ found, lookUpIdentifiers rows identifiers = .ok found) ↔
      ∀ row ∈ rows, row < identifiers.length := by
  unfold lookUpIdentifiers
  split
  · rename_i row h
    have hrow := List.mem_of_find?_eq_some h
    have hlen := List.find?_some h
    simp only [decide_eq_true_eq] at hlen
    apply iff_of_false (by simp)
    intro hall
    have := hall row hrow
    omega
  · rename_i h
    rw [List.find?_eq_none] at h
    apply iff_of_true ⟨_, rfl⟩
    intro row hrow
    simpa using h row hrow

/-- The identifiers that are found are those at the rows. -/
theorem mem_of_lookUpIdentifiers (h : lookUpIdentifiers rows identifiers = .ok found)
    (id : String) : id ∈ found ↔ ∃ row ∈ rows, identifiers[row]? = some id := by
  unfold lookUpIdentifiers at h
  split at h
  · cases h
  · cases h
    simp [List.mem_eraseDups, NatSet.mem_def]

end

end ColumnSieve
