import ColumnSieve.Proofs.Plan.Answers
import ColumnSieve.Proofs.Selection.Chain

/-!
# Rectangular tables

* `Table`           — a header row and rows of the same length;
* `Tool.Faithful`   — a tool that never fails and answers from tables, such as
  `Tool.ofTables`;
* `Query.Selects`   — the identifiers that a query selects in a table, said of its rows;
* `Query.NamesColumns`, `Query.ClausesMatch` — what a query needs from a table;
* `Query.selectIdentifiers_isOk_iff`, `Query.mem_of_selectIdentifiers` — with the answers from
  tables, a query succeeds exactly if it finds what it needs, and selects exactly those
  identifiers.
-/

namespace ColumnSieve

/-- A table as it is meant: rows with a cell for every header. -/
structure Table where
  header : List String
  rows : List (List String)
  rectangular : ∀ row ∈ rows, row.length = header.length

namespace Table

/-- The cell of a row in the first column with some header. -/
def cell (table : Table) (row : List String) (name : String) : String :=
  row[table.header.idxOf name]?.getD ""

/-- The cells of the first column with some header, in the order of the rows. -/
def column (table : Table) (name : String) : List String :=
  table.rows.map fun row => table.cell row name

theorem length_column (table : Table) (name : String) :
    (table.column name).length = table.rows.length := by
  simp [column]

theorem getElem?_column_eq_some_iff {table : Table} {name cell : String} {i : Nat} :
    (table.column name)[i]? = some cell ↔
      ∃ row, table.rows[i]? = some row ∧ table.cell row name = cell := by
  simp [column, Option.map_eq_some_iff]

/-- A row satisfies a clause if its cell in the column of the clause does. -/
def Satisfies (table : Table) (row : List String) (clause : Clause) : Prop :=
  clause.Matches (table.cell row clause.column)

/-- The answers of a tool that reads tables. -/
def answers (tables : Path → Char → Table) : Answers where
  headers source delimiter := .ok (tables source delimiter).header
  values source column delimiter := .ok ((tables source delimiter).column column)

end Table

/-- A tool that never fails and answers from the tables that the paths and delimiters lead to.
About columns that a table does not have it may say anything. -/
structure Tool.Faithful {τ : Type} (tool : Tool τ) (tables : Path → Char → Table) : Prop where
  headers : ∀ source delimiter world,
    (tool.headers source delimiter world).1 = .ok (tables source delimiter).header
  values : ∀ source delimiter, ∀ column ∈ (tables source delimiter).header, ∀ world,
    (tool.values source column delimiter world).1 = .ok ((tables source delimiter).column column)

theorem Tool.Faithful.gives {τ : Type} {tool : Tool τ} {tables : Path → Char → Table}
    (h : tool.Faithful tables) : tool.Gives (Table.answers tables) where
  headers := h.headers
  values := by
    rintro source delimiter _ column ⟨⟩ hc
    exact h.values source delimiter column hc

/-- The tool that reads its answers off some tables and leaves the world alone. -/
def Tool.ofTables (τ : Type) (tables : Path → Char → Table) : Tool τ where
  headers source delimiter := pure (tables source delimiter).header
  values source column delimiter := pure ((tables source delimiter).column column)
  extract _ _ _ _ := pure ()

theorem Tool.ofTables_faithful {τ : Type} (tables : Path → Char → Table) :
    (Tool.ofTables τ tables).Faithful tables where
  headers _ _ _ := rfl
  values _ _ _ _ _ := rfl

namespace Query

/-- A row of the table satisfies the chain of the query and has this identifier. -/
def Selects (query : Query) (table : Table) (id : String) : Prop :=
  ∃ row ∈ table.rows, Chain.Selects (table.Satisfies row) query.clauses ∧
    table.cell row query.idColumn = id

/-- The columns that the query names are in the table. -/
def NamesColumns (query : Query) (table : Table) : Prop :=
  (∀ clause ∈ query.clauses, clause.column ∈ table.header) ∧ query.idColumn ∈ table.header

/-- Every clause of the query by itself matches some row of the table. -/
def ClausesMatch (query : Query) (table : Table) : Prop :=
  ∀ clause ∈ query.clauses, ∃ row ∈ table.rows, table.Satisfies row clause

/-! ## Evaluating a query in a table -/

variable {query : Query} {tables : Path → Char → Table} {delimiter : Char}

theorem mem_columns {name : String} :
    name ∈ query.columns ↔ ∃ clause ∈ query.clauses, clause.column = name := by
  simp [columns, List.mem_eraseDups]

theorem forall_mem_columns_iff (table : Table) :
    (∀ name ∈ query.columns ++ [query.idColumn], name ∈ table.header) ↔
      query.NamesColumns table := by
  simp only [List.forall_mem_append, List.forall_mem_singleton, NamesColumns, mem_columns]
  grind

theorem selectIdentifiers_eq_ok_iff {answers : Answers} {ids : List String} :
    answers.selectIdentifiers delimiter query = .ok ids ↔
      ∃ headers columns rows, answers.headers query.source delimiter = .ok headers ∧
        answers.fetchColumns query.source delimiter headers
          (query.columns ++ [query.idColumn]) [] = .ok columns ∧
        selectRows query.source columns query.clauses = .ok rows ∧
        lookUpIdentifiers rows ((columns.lookup query.idColumn).getD []) = .ok ids := by
  simp only [Answers.selectIdentifiers, Outcome.bind_eq_ok_iff]
  grind

/-- The columns of the query have been taken from the table. -/
def HasColumns (query : Query) (table : Table) (columns : Columns) : Prop :=
  ∀ name ∈ query.columns ++ [query.idColumn], columns.lookup name = some (table.column name)

theorem fetchColumns_isOk_iff_namesColumns :
    (∃ columns, (Table.answers tables).fetchColumns query.source delimiter
        (tables query.source delimiter).header (query.columns ++ [query.idColumn]) [] =
          .ok columns) ↔
      query.NamesColumns (tables query.source delimiter) := by
  rw [Answers.fetchColumns_isOk_iff Answers.fetched_nil, ← forall_mem_columns_iff]
  exact forall₂_congr fun name _ => and_iff_left ⟨_, rfl⟩

theorem hasColumns_of_fetchColumns {columns : Columns}
    (h : (Table.answers tables).fetchColumns query.source delimiter
      (tables query.source delimiter).header (query.columns ++ [query.idColumn]) [] =
        .ok columns) :
    query.HasColumns (tables query.source delimiter) columns := by
  obtain ⟨hf, hl⟩ := Answers.lookup_of_fetchColumns Answers.fetched_nil h
  intro name hn
  obtain ⟨cells, hc⟩ := Option.isSome_iff_exists.1 ((hl name).2 (.inr hn))
  cases (hf name cells hc).2
  exact hc

section

variable {table : Table} {columns : Columns}

/-- With the columns of a table, a clause matches the number of a row that satisfies it. -/
theorem HasColumns.matchesRow_iff (h : query.HasColumns table columns) {clause : Clause}
    (hc : clause ∈ query.clauses) (i : Nat) :
    clause.MatchesRow columns i ↔ ∃ row, table.rows[i]? = some row ∧ table.Satisfies row clause := by
  have hl := h clause.column (List.mem_append_left _ (mem_columns.2 ⟨clause, hc, rfl⟩))
  unfold Clause.MatchesRow Table.Satisfies
  rw [hl]
  constructor
  · rintro ⟨_, cell, ⟨⟩, hi, hm⟩
    obtain ⟨row, hrow, rfl⟩ := Table.getElem?_column_eq_some_iff.1 hi
    exact ⟨row, hrow, hm⟩
  · rintro ⟨row, hrow, hm⟩
    exact ⟨_, _, rfl, Table.getElem?_column_eq_some_iff.2 ⟨row, hrow, rfl⟩, hm⟩

theorem HasColumns.clausesMatch_iff (h : query.HasColumns table columns) :
    (∀ clause ∈ query.clauses, ∃ i, clause.MatchesRow columns i) ↔ query.ClausesMatch table := by
  apply forall₂_congr
  intro clause hc
  simp only [h.matchesRow_iff hc, List.mem_iff_getElem?]
  grind

/-- The chain selects the number of a row exactly if the row satisfies it. -/
theorem HasColumns.selects_iff (h : query.HasColumns table columns) (i : Nat) :
    Chain.Selects (Clause.MatchesRow columns i) query.clauses ↔
      ∃ row, table.rows[i]? = some row ∧ Chain.Selects (table.Satisfies row) query.clauses := by
  cases hrow : table.rows[i]? with
  | none =>
    -- a number beyond the last row matches no clause, and the chain needs one that matches
    refine iff_of_false ?_ (by simp)
    rintro ⟨before, clause, after, hcs, -, hm, -⟩
    obtain ⟨row, hr, -⟩ := (h.matchesRow_iff (by simp [hcs]) i).1 hm
    simp [hrow] at hr
  | some row =>
    simp only [Option.some.injEq, exists_eq_left']
    apply Chain.selects_congr
    intro clause hc
    rw [h.matchesRow_iff hc, hrow]
    simp

end

/-- **A query succeeds exactly if the table has the columns that it names and each of its
clauses matches a row.**  The identifiers of the rows are then always found. -/
theorem selectIdentifiers_isOk_iff :
    (∃ ids, (Table.answers tables).selectIdentifiers delimiter query = .ok ids) ↔
      query.NamesColumns (tables query.source delimiter) ∧
        query.ClausesMatch (tables query.source delimiter) := by
  simp only [selectIdentifiers_eq_ok_iff]
  constructor
  · rintro ⟨ids, _, columns, rows, ⟨⟩, hf, hs, -⟩
    have hc := hasColumns_of_fetchColumns hf
    have hm := selectRows_isOk_iff.1 ⟨rows, hs⟩
    exact ⟨fetchColumns_isOk_iff_namesColumns.1 ⟨columns, hf⟩, hc.clausesMatch_iff.1 hm⟩
  · rintro ⟨hn, hm⟩
    obtain ⟨columns, hf⟩ := fetchColumns_isOk_iff_namesColumns.2 hn
    have hc := hasColumns_of_fetchColumns hf
    obtain ⟨rows, hs⟩ : ∃ rows, selectRows query.source columns query.clauses = .ok rows :=
      selectRows_isOk_iff.2 (hc.clausesMatch_iff.2 hm)
    have hin : ∀ i ∈ rows, i < ((columns.lookup query.idColumn).getD []).length := by
      intro i hi
      obtain ⟨row, hrow, -⟩ := (hc.selects_iff i).1 ((mem_of_selectRows hs i).1 hi)
      rw [hc _ (List.mem_append_right _ (List.mem_singleton_self _)), Option.getD_some,
        Table.length_column]
      exact (List.getElem?_eq_some_iff.1 hrow).1
    obtain ⟨ids, hids⟩ := lookUpIdentifiers_isOk_iff.2 hin
    exact ⟨ids, _, columns, rows, rfl, hf, hs, hids⟩

/-- **A successful query selects exactly the identifiers of the rows that satisfy it.** -/
theorem mem_of_selectIdentifiers {ids : List String}
    (h : (Table.answers tables).selectIdentifiers delimiter query = .ok ids) (id : String) :
    id ∈ ids ↔ query.Selects (tables query.source delimiter) id := by
  obtain ⟨_, columns, rows, ⟨⟩, hf, hs, hids⟩ := selectIdentifiers_eq_ok_iff.1 h
  have hc := hasColumns_of_fetchColumns hf
  rw [mem_of_lookUpIdentifiers hids,
    hc _ (List.mem_append_right _ (List.mem_singleton_self _)), Option.getD_some]
  simp only [mem_of_selectRows hs, hc.selects_iff, Table.getElem?_column_eq_some_iff, Selects,
    List.mem_iff_getElem?]
  constructor
  · rintro ⟨i, ⟨row, hrow, hsel⟩, row', hrow', hid⟩
    cases hrow.symm.trans hrow'
    exact ⟨row, ⟨i, hrow⟩, hsel, hid⟩
  · rintro ⟨row, ⟨i, hrow⟩, hsel, hid⟩
    exact ⟨i, ⟨row, hrow, hsel⟩, row, hrow, hid⟩

end Query

end ColumnSieve
