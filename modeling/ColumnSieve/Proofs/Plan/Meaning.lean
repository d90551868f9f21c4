import ColumnSieve.Proofs.Selection.Target
import ColumnSieve.Proofs.Table

/-!
# What a plan means

With a faithful tool the stages of a plan — fetching columns, reading chains, looking up
identifiers, combining queries, matching headers — come down to conditions on the rows of the
tables.

* `Selected`        — the identifiers that some queries select together;
* `plan_meaning`    — when a plan is made, and which identifiers it holds.
-/

namespace ColumnSieve

/-- The identifiers that any, or all, of the queries select in their tables.  No query selects
anything if there is none. -/
def Selected (tables : Path → Char → Table) (options : Options) (queries : List Query)
    (id : String) : Prop :=
  match options.mode with
  | .union =>
    ∃ query ∈ queries, query.Selects (tables query.source options.metadataDelimiter) id
  | .intersect =>
    queries ≠ [] ∧
      ∀ query ∈ queries, query.Selects (tables query.source options.metadataDelimiter) id

section

variable {tables : Path → Char → Table} {queries : List Query} {options : Options}

/-- Combining what the queries select gives what they select together. -/
theorem mem_combine_iff_selected {sets : List (List String)}
    (h : List.Forall₂ (fun query ids => (Table.answers tables).selectIdentifiers
      options.metadataDelimiter query = .ok ids) queries sets) (id : String) :
    id ∈ combine options.mode sets ↔ Selected tables options queries id := by
  have hany : (∃ set ∈ sets, id ∈ set) ↔
      ∃ query ∈ queries, query.Selects (tables query.source options.metadataDelimiter) id := by
    induction h with
    | nil => simp
    | cons hq _ ih => simp only [List.exists_mem_cons_iff, ih, Query.mem_of_selectIdentifiers hq]
  have hall : (∀ set ∈ sets, id ∈ set) ↔
      ∀ query ∈ queries, query.Selects (tables query.source options.metadataDelimiter) id := by
    clear hany
    induction h with
    | nil => simp
    | cons hq _ ih => simp only [List.forall_mem_cons, ih, Query.mem_of_selectIdentifiers hq]
  have hnil : sets ≠ [] ↔ queries ≠ [] := by
    rw [ne_eq, ne_eq, ← List.length_eq_zero_iff, ← List.length_eq_zero_iff, h.length_eq]
  unfold Selected
  cases options.mode with
  | union => exact mem_combine_union.trans hany
  | intersect => exact mem_combine_intersect.trans (and_congr hnil hall)

theorem plan_eq_ok_iff {answers : Answers} {target : Path} {plan : Plan} :
    answers.plan queries target options = .ok plan ↔
      ∃ sets headers selection,
        List.Forall₂ (fun query ids =>
          answers.selectIdentifiers options.metadataDelimiter query = .ok ids) queries sets ∧
        answers.headers target options.delimiter = .ok headers ∧
        selectColumns options.mode options.alwaysInclude headers options.ignoreMissing sets =
          .ok selection ∧
        plan = ⟨selection.identifiers, selection.columns, Spec.ofColumns selection.columns,
          headers.length⟩ := by
  simp only [Answers.plan, Outcome.bind_eq_ok_iff, Outcome.mapM_eq_ok_iff]
  constructor
  · rintro ⟨sets, hs, headers, hh, selection, hsel, ⟨⟩⟩
    exact ⟨sets, headers, selection, hs, hh, hsel, rfl⟩
  · rintro ⟨sets, headers, selection, hs, hh, hsel, rfl⟩
    exact ⟨sets, hs, headers, hh, selection, hsel, rfl⟩

end

variable {τ : Type} {tool : Tool τ} {tables : Path → Char → Table}

/-- **What a plan means.**  With a faithful tool and a target that is a file, a plan is made
exactly if every query finds its columns, every clause matches a row of its table, and the
identifiers that the queries select together are headers of the target, or some are and the
others may be ignored.  The plan then holds those of them that are headers, and the identifiers
that are always included. -/
theorem plan_meaning (faithful : tool.Faithful tables) (queries : List Query) (target : Path)
    (options : Options) (world : World τ) (hfile : world.files.isFile target = true) :
    ((∃ made, (plan tool queries target options world).1 = .ok made) ↔
      (∀ query ∈ queries,
        query.NamesColumns (tables query.source options.metadataDelimiter)) ∧
      (∀ query ∈ queries,
        query.ClausesMatch (tables query.source options.metadataDelimiter)) ∧
      (∃ id, Selected tables options queries id) ∧
      ((∀ id, Selected tables options queries id →
          id ∈ (tables target options.delimiter).header) ∨
        options.ignoreMissing = true ∧
          ∃ id, Selected tables options queries id ∧
            id ∈ (tables target options.delimiter).header)) ∧
    ∀ made, (plan tool queries target options world).1 = .ok made → ∀ id,
      id ∈ made.identifiers ↔
        (Selected tables options queries id ∧ id ∈ (tables target options.delimiter).header) ∨
          id ∈ options.alwaysInclude := by
  rw [faithful.gives.plan_eq hfile]
  constructor
  · constructor
    · rintro ⟨made, h⟩
      obtain ⟨sets, _, selection, hs, ⟨⟩, hsel, -⟩ := plan_eq_ok_iff.1 h
      have hq : ∀ query ∈ queries, ∃ ids, (Table.answers tables).selectIdentifiers
          options.metadataDelimiter query = .ok ids :=
        Outcome.mapM_isOk_iff.1 ⟨sets, Outcome.mapM_eq_ok_iff.2 hs⟩
      have hm := selectColumns_isOk_iff.1 ⟨selection, hsel⟩
      simp only [mem_combine_iff_selected hs] at hm
      refine ⟨?_, ?_, hm⟩
      · intro query hmem
        exact (Query.selectIdentifiers_isOk_iff.1 (hq query hmem)).1
      · intro query hmem
        exact (Query.selectIdentifiers_isOk_iff.1 (hq query hmem)).2
    · rintro ⟨hn, hc, hm⟩
      obtain ⟨sets, hs⟩ := Outcome.mapM_isOk_iff.2 fun query hmem =>
        Query.selectIdentifiers_isOk_iff.2 ⟨hn query hmem, hc query hmem⟩
      rw [Outcome.mapM_eq_ok_iff] at hs
      simp only [← mem_combine_iff_selected hs] at hm
      obtain ⟨selection, hsel⟩ : ∃ selection, selectColumns options.mode options.alwaysInclude
          _ options.ignoreMissing sets = .ok selection := selectColumns_isOk_iff.2 hm
      exact ⟨_, plan_eq_ok_iff.2 ⟨sets, _, selection, hs, rfl, hsel, rfl⟩⟩
  · intro made h id
    obtain ⟨sets, _, selection, hs, ⟨⟩, hsel, rfl⟩ := plan_eq_ok_iff.1 h
    rw [mem_of_selectColumns hsel, mem_combine_iff_selected hs]

/-- Counts per sample, and what is known of the samples. -/
def sampleTables : Path → Char → Table := fun path _ =>
  if path.text = "/counts.csv" then ⟨["gene", "s2", "s1", "s2"], [], by simp⟩
  else ⟨["id", "tissue", "tissue"],
    [["s1", "liver", "lung"], ["s2", "lung", "liver"], ["s2", "skin", "liver"],
      ["s3", "lung", "skin"]], by decide⟩

/-- Everything but liver, of two samples; the narrowing in front has nothing to narrow. -/
def sampleQuery : Query :=
  ⟨"", ⟨"/samples.csv"⟩, "id",
    [⟨.intersect, "tissue", .equal, ["skin"]⟩, ⟨.union, "tissue", .notEqual, ["liver"]⟩,
      ⟨.intersect, "id", .equal, ["s2", "s3"]⟩]⟩

theorem plan_meaning_of_samples :
    let world : World Unit := ⟨⟨[], [(["counts.csv"], .file .empty)]⟩, ()⟩
    let options : Options := ⟨true, ',', ',', ["gene"], .intersect⟩
    world.files.isFile ⟨"/counts.csv"⟩ = true ∧
      ∃ made, (plan (Tool.ofTables Unit sampleTables) [sampleQuery, sampleQuery]
          ⟨"/counts.csv"⟩ options world).1 = .ok made ∧
        ∀ id, id ∈ made.identifiers ↔ id = "s2" ∨ id = "gene" := by
  intro world options
  have hfile : world.files.isFile ⟨"/counts.csv"⟩ = true := by decide +kernel
  have hsel : ∀ id, Selected sampleTables options [sampleQuery, sampleQuery] id ↔
      id = "s2" ∨ id = "s3" := by
    intro id
    simp [Selected, options, sampleQuery, sampleTables, Query.Selects, Chain.selects_cons_iff,
      Chain.not_selects_nil, Table.Satisfies, Clause.Matches, Table.cell]
    grind
  obtain ⟨hiff, hids⟩ := plan_meaning (Tool.ofTables_faithful sampleTables)
    [sampleQuery, sampleQuery] ⟨"/counts.csv"⟩ options world hfile
  obtain ⟨made, hmade⟩ := hiff.2 (by
    simp only [hsel]
    simp [sampleQuery, sampleTables, Query.NamesColumns, Query.ClausesMatch, Table.Satisfies,
      Clause.Matches, Table.cell, options])
  refine ⟨hfile, made, hmade, ?_⟩
  intro id
  rw [hids made hmade, hsel]
  simp [sampleTables, options]
  grind

end ColumnSieve
