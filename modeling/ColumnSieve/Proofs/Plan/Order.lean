import ColumnSieve.Proofs.Plan.Columns

/-!
# The order of the queries

The identifiers of a plan come in an order that depends on the queries.  The specification does
not: positions are sorted, and only identifiers that are always included stand there by name.

* `names_of_selectColumns`  — the names of a selection, with no mention of what was selected;
* `spec_of_selectColumns_congr` — selections of the same identifiers have one specification;
* `selectColumns_congr`     — only the members of what is combined count;
* `plan_queries_congr`      — so queries may be reordered and repeated.
-/

namespace ColumnSieve

section

variable {mode : Mode} {alwaysInclude headers : List String} {ignoreMissing : Bool}
  {sets sets' : List (List String)} {selection selection' : Selection} {id : String}

/-! ## Selections -/

/-- Only which lists there are counts for what is combined. -/
theorem mem_combine_congr (hsets : ∀ set, set ∈ sets ↔ set ∈ sets') :
    id ∈ combine mode sets ↔ id ∈ combine mode sets' := by
  have hnil : sets = [] ↔ sets' = [] := by
    simp only [List.eq_nil_iff_forall_not_mem, hsets]
  cases mode with
  | union => simp only [mem_combine_union, hsets]
  | intersect => simp only [mem_combine_intersect, hsets, ne_eq, hnil]

/-- What has been selected heads a column, so the names come from what is always included. -/
theorem names_of_selectColumns
    (h : selectColumns mode alwaysInclude headers ignoreMissing sets = .ok selection) :
    selection.columns.filterMap Column.name? =
      (alwaysInclude.filter fun name => !headers.contains name).eraseDups := by
  obtain ⟨-, hids, hcolumns⟩ := selectColumns_eq_ok_iff.1 h
  have hpresent : ((combine mode sets).filter headers.contains).filter
      (fun name => !headers.contains name) = [] := by
    simp [List.filter_filter]
  have hnames : selection.columns.filterMap Column.name? =
      selection.identifiers.filter fun name => !headers.contains name := by
    rw [hcolumns, List.filterMap_map, ← List.filterMap_eq_filter]
    apply List.filterMap_congr
    intro id _
    by_cases hmem : id ∈ headers
    · simp [name?_columnOf, Option.guard, hmem]
    · simp [name?_columnOf, Option.guard, hmem]
  rw [hnames, hids, Distinct.filter_eraseDups, List.filter_append, hpresent, List.nil_append]

theorem spec_of_selectColumns_congr
    (h : selectColumns mode alwaysInclude headers ignoreMissing sets = .ok selection)
    (h' : selectColumns mode alwaysInclude headers ignoreMissing sets' = .ok selection')
    (hids : ∀ id, id ∈ selection.identifiers ↔ id ∈ selection'.identifiers) :
    Spec.ofColumns selection.columns = Spec.ofColumns selection'.columns := by
  have hcolumns := (selectColumns_eq_ok_iff.1 h).2.2
  have hcolumns' := (selectColumns_eq_ok_iff.1 h').2.2
  have hpositions : NatSet.ofList (selection.columns.filterMap Column.position?) =
      NatSet.ofList (selection'.columns.filterMap Column.position?) := by
    apply NatSet.ext_mem
    intro n
    simp only [NatSet.mem_ofList, hcolumns, hcolumns', List.mem_filterMap, List.mem_map, hids]
  rw [Spec.ofColumns, Spec.ofColumns, Token.ofPositions, Token.ofPositions, hpositions,
    names_of_selectColumns h, names_of_selectColumns h']

/-- Only the members of what is combined count for a selection. -/
theorem selectColumns_congr
    (h : selectColumns mode alwaysInclude headers ignoreMissing sets = .ok selection)
    (hmem : ∀ id, id ∈ combine mode sets ↔ id ∈ combine mode sets') :
    ∃ selection', selectColumns mode alwaysInclude headers ignoreMissing sets' = .ok selection' ∧
      Spec.ofColumns selection.columns = Spec.ofColumns selection'.columns ∧
      ∀ id, id ∈ selection.identifiers ↔ id ∈ selection'.identifiers := by
  obtain ⟨selection', h'⟩ : ∃ selection',
      selectColumns mode alwaysInclude headers ignoreMissing sets' = .ok selection' := by
    have hok := selectColumns_isOk_iff.1 ⟨selection, h⟩
    simp only [hmem] at hok
    exact selectColumns_isOk_iff.2 hok
  have hids (id : String) : id ∈ selection.identifiers ↔ id ∈ selection'.identifiers := by
    rw [mem_of_selectColumns h, mem_of_selectColumns h', hmem]
  exact ⟨selection', h', spec_of_selectColumns_congr h h' hids, hids⟩

end

/-! ## Plans -/

section

variable {τ : Type} {tool : Tool τ} {answers : Answers} {queries queries' : List Query}
  {target : Path} {options : Options} {world world' : World τ}

/-- A plan for some queries gives one for the same queries in another order, with the same
specification. -/
theorem Answers.plan_of_mem_iff {made : Plan}
    (hqueries : ∀ query, query ∈ queries ↔ query ∈ queries')
    (h : answers.plan queries target options = .ok made) :
    ∃ made', answers.plan queries' target options = .ok made' ∧ made.spec = made'.spec ∧
      made.targetColumns = made'.targetColumns ∧
      ∀ id, id ∈ made.identifiers ↔ id ∈ made'.identifiers := by
  obtain ⟨sets, headers, selection, hsets, hheaders, hselection, rfl⟩ := plan_eq_ok_iff.1 h
  rw [← Outcome.mapM_eq_ok_iff] at hsets
  obtain ⟨sets', hsets'⟩ := Outcome.mapM_isOk_iff.2 fun query hquery =>
    Outcome.mapM_isOk_iff.1 ⟨sets, hsets⟩ query ((hqueries query).2 hquery)
  have hmem (id : String) : id ∈ combine options.mode sets ↔ id ∈ combine options.mode sets' := by
    apply mem_combine_congr
    intro set
    simp only [Outcome.mem_iff_of_mapM hsets, Outcome.mem_iff_of_mapM hsets', hqueries]
  obtain ⟨selection', hselection', hspec, hids⟩ := selectColumns_congr hselection hmem
  exact ⟨_, plan_eq_ok_iff.2 ⟨sets', headers, selection', Outcome.mapM_eq_ok_iff.1 hsets', hheaders,
    hselection', rfl⟩, hspec, rfl, hids⟩

/-- **The order of queries and their repetition do not matter.**  With a tool whose answers depend
on the question alone, two lists with the same queries both give a plan or both do not; the plans
have the same specification, the same count of columns in the target and the same identifiers. -/
theorem plan_queries_congr (hg : tool.Gives answers) (target : Path) (options : Options)
    (hfile : world.files.isFile target = world'.files.isFile target)
    (hqueries : ∀ query, query ∈ queries ↔ query ∈ queries') :
    ((∃ made, (plan tool queries target options world).1 = .ok made) ↔
      ∃ made, (plan tool queries' target options world').1 = .ok made) ∧
    ∀ made made', (plan tool queries target options world).1 = .ok made →
      (plan tool queries' target options world').1 = .ok made' →
      made.spec = made'.spec ∧ made.targetColumns = made'.targetColumns ∧
        ∀ id, id ∈ made.identifiers ↔ id ∈ made'.identifiers := by
  apply hg.plan_congr hg hfile
  · intro made h
    exact Answers.plan_of_mem_iff hqueries h
  · intro made' h'
    obtain ⟨made, h, -⟩ := Answers.plan_of_mem_iff (fun query => (hqueries query).symm) h'
    exact ⟨made, h⟩

end

/-- The queries of the samples in another order, one of them twice. -/
theorem plan_queries_congr_of_samples :
    (∀ query, query ∈ sampleQueries ↔ query ∈ sampleQueries.reverse ++ sampleQueries.take 1) ∧
      ∃ made, (plan (Tool.ofTables Unit sampleTables) (sampleQueries.reverse ++ sampleQueries.take 1)
          ⟨"/counts.csv"⟩ sampleOptions sampleWorld).1 = .ok made ∧
        made.spec = ⟨[.range 1 3, .name "note"]⟩ := by
  have hqueries : ∀ query, query ∈ sampleQueries ↔
      query ∈ sampleQueries.reverse ++ sampleQueries.take 1 := by
    intro query
    rw [List.mem_append, List.mem_reverse]
    exact ⟨.inl, fun h => h.elim id List.mem_of_mem_take⟩
  obtain ⟨hsome, hsame⟩ := plan_queries_congr (Tool.ofTables_faithful sampleTables).gives
    ⟨"/counts.csv"⟩ sampleOptions (rfl : sampleWorld.files.isFile _ = _) hqueries
  obtain ⟨made, hmade⟩ := hsome.1 ⟨samplePlan, plan_of_samples⟩
  exact ⟨hqueries, made, hmade, (hsame _ _ plan_of_samples hmade).1.symm⟩

end ColumnSieve
