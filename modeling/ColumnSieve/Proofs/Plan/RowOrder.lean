import ColumnSieve.Proofs.Plan.Order
import ColumnSieve.Proofs.Selection.RowOrder
import Mathlib.Data.Fin.Rev

/-!
# The order of the rows

Which row of a table an identifier comes from shows in the order of the identifiers, and nowhere
else.

* `Table.Reordered`      — two tables with the same header and the same rows;
* `Table.Reordered.namesColumns_iff`, `Table.Reordered.clausesMatch_iff`,
  `Table.Reordered.selects_iff` — a query finds, matches and selects the same in both;
* `plan_rows_congr`      — moving rows moves what is selected; plans do not change but for the order
  of their identifiers.
-/

namespace ColumnSieve

/-- The same table with its rows in another order. -/
structure Table.Reordered (table table' : Table) : Prop where
  header_eq : table.header = table'.header
  rows_perm : table.rows.Perm table'.rows

namespace Table.Reordered

variable {table table' : Table} {query : Query}

theorem symm (h : table.Reordered table') : table'.Reordered table :=
  ⟨h.header_eq.symm, h.rows_perm.symm⟩

theorem cell_eq (h : table.Reordered table') (row : List String) (name : String) :
    table.cell row name = table'.cell row name := by
  unfold cell
  rw [h.header_eq]

theorem satisfies_eq (h : table.Reordered table') (row : List String) :
    table.Satisfies row = table'.Satisfies row := by
  funext clause
  unfold Satisfies
  rw [h.cell_eq]

theorem namesColumns_iff (h : table.Reordered table') :
    query.NamesColumns table ↔ query.NamesColumns table' := by
  unfold Query.NamesColumns
  rw [h.header_eq]

theorem clausesMatch_iff (h : table.Reordered table') :
    query.ClausesMatch table ↔ query.ClausesMatch table' := by
  unfold Query.ClausesMatch
  simp only [h.satisfies_eq, h.rows_perm.mem_iff]

theorem selects_iff (h : table.Reordered table') (id : String) :
    query.Selects table id ↔ query.Selects table' id := by
  unfold Query.Selects
  simp only [h.satisfies_eq, h.cell_eq, h.rows_perm.mem_iff]

end Table.Reordered

section

variable {tables tables' : Path → Char → Table} {queries : List Query} {target : Path}
  {options : Options}

theorem selected_reordered_iff
    (h : ∀ source delimiter, (tables source delimiter).Reordered (tables' source delimiter))
    (id : String) : Selected tables options queries id ↔ Selected tables' options queries id := by
  unfold Selected
  simp only [(h _ _).selects_iff]

/-- A plan gives one for the reordered tables, with the same specification. -/
theorem Answers.plan_of_reordered {made : Plan}
    (h : ∀ source delimiter, (tables source delimiter).Reordered (tables' source delimiter))
    (hmade : (Table.answers tables).plan queries target options = .ok made) :
    ∃ made', (Table.answers tables').plan queries target options = .ok made' ∧
      made.spec = made'.spec ∧ made.targetColumns = made'.targetColumns ∧
      ∀ id, id ∈ made.identifiers ↔ id ∈ made'.identifiers := by
  obtain ⟨sets, _, selection, hsets, ⟨⟩, hselection, rfl⟩ := plan_eq_ok_iff.1 hmade
  have hquery : ∀ query ∈ queries, ∃ ids,
      (Table.answers tables').selectIdentifiers options.metadataDelimiter query = .ok ids := by
    intro query hmem
    have hok := Outcome.mapM_isOk_iff.1 ⟨sets, Outcome.mapM_eq_ok_iff.2 hsets⟩ query hmem
    rw [Query.selectIdentifiers_isOk_iff] at hok ⊢
    exact ⟨(h _ _).namesColumns_iff.1 hok.1, (h _ _).clausesMatch_iff.1 hok.2⟩
  obtain ⟨sets', hsets'⟩ := Outcome.mapM_isOk_iff.2 hquery
  rw [Outcome.mapM_eq_ok_iff] at hsets'
  have hmem (id : String) : id ∈ combine options.mode sets ↔ id ∈ combine options.mode sets' := by
    rw [mem_combine_iff_selected hsets, mem_combine_iff_selected hsets', selected_reordered_iff h]
  obtain ⟨selection', hselection', hspec, hids⟩ := selectColumns_congr hselection hmem
  have hheader : (tables target options.delimiter).header =
      (tables' target options.delimiter).header :=
    (h _ _).header_eq
  rw [hheader] at hselection'
  exact ⟨_, plan_eq_ok_iff.2 ⟨sets', _, selection', hsets', rfl, hselection', rfl⟩, hspec,
    congrArg List.length hheader, hids⟩

end

/-- **The order of the rows does not matter.**  When the rows of all columns are moved alike, a
chain succeeds if it did before, and selects the rows to which those that it selected before have
been moved; their identifiers are found in either case, and they are the same.  So with faithful
tools, tables that differ in the order of their rows both give a plan or both do not, and the plans
have the same specification, the same count of columns in the target and the same identifiers. -/
theorem plan_rows_congr :
    (∀ (query : Query) (n : Nat) (columns : Columns) (σ : Equiv.Perm (Fin n)), columns.HasRows n →
      ((∃ moved, selectRows query.source (columns.moveRows σ) query.clauses = .ok moved) ↔
        ∃ rows, selectRows query.source columns query.clauses = .ok rows) ∧
      ∀ rows moved, selectRows query.source columns query.clauses = .ok rows →
        selectRows query.source (columns.moveRows σ) query.clauses = .ok moved →
        ((∀ row ∈ rows, row < n) ∧
          ∀ row, row ∈ moved ↔ ∃ i : Fin n, (i : Nat) ∈ rows ∧ (σ i : Nat) = row) ∧
        ∀ ids, columns.lookup query.idColumn = some ids →
          ∃ ids' found found', (columns.moveRows σ).lookup query.idColumn = some ids' ∧
            lookUpIdentifiers rows ids = .ok found ∧ lookUpIdentifiers moved ids' = .ok found' ∧
            ∀ id, id ∈ found ↔ id ∈ found') ∧
    ∀ (τ τ' : Type) (tool : Tool τ) (tool' : Tool τ') (tables tables' : Path → Char → Table),
      tool.Faithful tables → tool'.Faithful tables' →
      (∀ source delimiter, (tables source delimiter).Reordered (tables' source delimiter)) →
      ∀ (queries : List Query) (target : Path) (options : Options) (world : World τ)
        (world' : World τ'), world.files.isFile target = world'.files.isFile target →
        ((∃ made, (plan tool queries target options world).1 = .ok made) ↔
          ∃ made', (plan tool' queries target options world').1 = .ok made') ∧
        ∀ made made', (plan tool queries target options world).1 = .ok made →
          (plan tool' queries target options world').1 = .ok made' →
          made.spec = made'.spec ∧ made.targetColumns = made'.targetColumns ∧
            ∀ id, id ∈ made.identifiers ↔ id ∈ made'.identifiers := by
  constructor
  · intro query n columns σ hrows
    refine ⟨selectRows_moveRows_isOk_iff hrows, ?_⟩
    intro rows moved hselected hmoved
    have hmoves := movesTo_of_selectRows hrows hselected hmoved
    refine ⟨⟨hmoves.lt, hmoves.mem_iff⟩, ?_⟩
    intro ids hids
    obtain ⟨found, found', hfound⟩ := lookUpIdentifiers_moveRows hmoves (hrows.length_eq hids)
    refine ⟨moveRows σ ids, found, found', ?_, hfound⟩
    rw [Columns.lookup_moveRows, hids]
    rfl
  · intro τ τ' tool tool' tables tables' faithful faithful' h queries target options world world'
      hfile
    apply faithful.gives.plan_congr faithful'.gives hfile
    · intro made hmade
      exact Answers.plan_of_reordered h hmade
    · intro made' hmade'
      have hback := fun source delimiter => (h source delimiter).symm
      obtain ⟨made, hmade, -⟩ := Answers.plan_of_reordered hback hmade'
      exact ⟨made, hmade⟩

/-- The table from its last row to its first. -/
def Table.reverse (table : Table) : Table where
  header := table.header
  rows := table.rows.reverse
  rectangular := by
    intro row hrow
    exact table.rectangular row (List.mem_reverse.1 hrow)

theorem Table.reordered_reverse (table : Table) : table.Reordered table.reverse :=
  ⟨rfl, (List.reverse_perm _).symm⟩

/-- Four samples, of which two have one identifier. -/
def tissueColumns : Columns :=
  [("id", ["s1", "s2", "s2", "s3"]), ("tissue", ["liver", "lung", "skin", "lung"])]

def notLiverQuery : Query :=
  ⟨"", ⟨"/samples.csv"⟩, "id", [⟨.union, "tissue", .notEqual, ["liver"]⟩]⟩

/-- From last to first, the samples that are not of liver come first. -/
theorem plan_rows_congr_of_reversed :
    (∃ moved found, selectRows notLiverQuery.source
          (tissueColumns.moveRows (Fin.revPerm : Equiv.Perm (Fin 4))) notLiverQuery.clauses =
            .ok moved ∧ (∀ row, row ∈ moved ↔ row < 3) ∧
        lookUpIdentifiers moved ["s3", "s2", "s2", "s1"] = .ok found ∧
        ∀ id, id ∈ found ↔ id = "s2" ∨ id = "s3") ∧
      ∃ made, (plan (Tool.ofTables Unit fun path delimiter => (sampleTables path delimiter).reverse)
          sampleQueries ⟨"/counts.csv"⟩ sampleOptions sampleWorld).1 = .ok made ∧
        made.spec = ⟨[.range 1 3, .name "note"]⟩ := by
  constructor
  · obtain ⟨hok, hmoves⟩ := plan_rows_congr.1 notLiverQuery 4 tissueColumns Fin.revPerm
      (by simp [Columns.HasRows, tissueColumns])
    obtain ⟨rows, hrows⟩ : ∃ rows,
        selectRows notLiverQuery.source tissueColumns notLiverQuery.clauses = .ok rows := by
      refine selectRows_isOk_iff.2 (List.forall_mem_singleton.2 ⟨1, _, "lung", rfl, rfl, ?_⟩)
      simp [Clause.Matches]
    obtain ⟨moved, hmoved⟩ := hok.2 ⟨rows, hrows⟩
    obtain ⟨⟨-, hmem⟩, hids⟩ := hmoves rows moved hrows hmoved
    have hcell : ∀ i : Fin 4, ["liver", "lung", "skin", "lung"][i] = "liver" ↔ i = 0 := by decide
    have hselected : ∀ i : Fin 4, (i : Nat) ∈ rows ↔ i ≠ 0 := by
      intro i
      rw [mem_of_selectRows hrows]
      simpa [notLiverQuery, Chain.selects_cons_iff, Chain.not_selects_nil, Clause.MatchesRow,
        Clause.Matches, tissueColumns, List.lookup_cons] using not_congr (hcell i)
    have hfirst : ∀ row, row ∈ moved ↔ row < 3 := by
      intro row
      simp only [hmem, hselected]
      constructor
      · rintro ⟨i, hi, rfl⟩
        exact (by decide : ∀ i : Fin 4, i ≠ 0 → (Fin.revPerm i : Nat) < 3) i hi
      · exact (by decide : ∀ row < 3, ∃ i : Fin 4, i ≠ 0 ∧ (Fin.revPerm i : Nat) = row) row
    obtain ⟨ids', -, found, hids', -, hfound, -⟩ := hids _ rfl
    obtain rfl : ids' = ["s3", "s2", "s2", "s1"] := Option.some.inj (hids'.symm.trans (by decide))
    refine ⟨moved, found, hmoved, hfirst, hfound, ?_⟩
    intro id
    simp only [mem_of_lookUpIdentifiers hfound, hfirst]
    constructor
    · rintro ⟨row, hrow, hid⟩
      have hcells : ∀ row < 3, ["s3", "s2", "s2", "s1"][row]? = some "s2" ∨
          ["s3", "s2", "s2", "s1"][row]? = some "s3" := by decide
      simpa [hid] using hcells row hrow
    · intro h
      cases h with
      | inl h => exact ⟨1, by decide, congrArg some h.symm⟩
      | inr h => exact ⟨0, by decide, congrArg some h.symm⟩
  · obtain ⟨hsome, hsame⟩ := plan_rows_congr.2 Unit Unit _ _ _ _
      (Tool.ofTables_faithful sampleTables) (Tool.ofTables_faithful _)
      (fun source delimiter => (sampleTables source delimiter).reordered_reverse) sampleQueries
      ⟨"/counts.csv"⟩ sampleOptions sampleWorld sampleWorld rfl
    obtain ⟨made, hmade⟩ := hsome.1 ⟨samplePlan, plan_of_samples⟩
    exact ⟨made, hmade, (hsame _ _ plan_of_samples hmade).1.symm⟩

end ColumnSieve
