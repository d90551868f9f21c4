import ColumnSieve.Proofs.Plan.Columns
import ColumnSieve.Proofs.Plan.Meaning
import ColumnSieve.Proofs.Plan.Transcript
import ColumnSieve.Proofs.Selection.Faults
import ColumnSieve.Tool.External

/-!
# Columns that a table lacks

Whether a table has the columns that a query names is found out while they are fetched.  When the
query comes to be evaluated, they are all there.

* `Query.firstAbsent?`        — the first column of a query that some headers lack;
* `Query.IsServed`            — cells for the columns of a query and for no others;
* `FetchTranscript.isSome_lookup_iff`, `FetchTranscript.failed_or_absent` — what has been fetched,
  and why not all of it;
* `Query.IsServed.evaluate_ne_missing` — an evaluation never misses a column;
* `StopsAtAbsent`             — how a plan comes to stop at a column that a table lacks;
* `Query.Goes`                — the ways in which a query can go, whatever the tool does;
* `Tool.NeverMisses`          — a tool that does not itself fail for want of a column;
* `plan_misses_first_absent`  — all of it, whatever the tool does;
* `plan_misses_what_a_tool_reports` — why it has to make room for a tool that itself misses a column.
-/

namespace ColumnSieve

namespace Query

/-- The first column that the query names and that is not among some headers.  The columns of the
clauses are named first, in the order of the clauses, and then that of the identifiers. -/
def firstAbsent? (query : Query) (headers : List String) : Option String :=
  (query.clauses.map Clause.column ++ [query.idColumn]).find? fun name => !headers.contains name

/-- There are cells for every column that the query names, and for no other. -/
def IsServed (query : Query) (columns : Columns) : Prop :=
  ∀ name, (columns.lookup name).isSome ↔
    (∃ clause ∈ query.clauses, clause.column = name) ∨ name = query.idColumn

theorem mem_names_iff {query : Query} {name : String} : name ∈ query.names ↔
    (∃ clause ∈ query.clauses, clause.column = name) ∨ name = query.idColumn := by
  simp [names_eq, columns, List.mem_eraseDups]

theorem find?_names (query : Query) (p : String → Bool) :
    query.names.find? p = (query.clauses.map Clause.column ++ [query.idColumn]).find? p := by
  rw [names_eq, Distinct.find?_eraseDups, List.find?_append, columns, Distinct.find?_eraseDups,
    ← List.find?_append]

end Query

/-! ## Fetching -/

section

variable {source : Path} {delimiter : Char} {headers names : List String} {columns out : Columns}
  {transcript : List Exchange} {e : Error}

/-- What has been fetched stands beside what was there before. -/
theorem FetchTranscript.isSome_lookup_iff
    (h : FetchTranscript source delimiter headers names columns transcript (.ok out))
    (name : String) :
    (out.lookup name).isSome ↔ (columns.lookup name).isSome ∨ name ∈ names := by
  generalize hresult : (Except.ok out : Except Error Columns) = result at h
  induction h with
  | done =>
    cases hresult
    simp
  | absent => cases hresult
  | refused => cases hresult
  | @fetched first names cells columns transcript result hheader hrest ih =>
    have hfirst : ((columns ++ [(first, cells)]).lookup name).isSome ↔
        (columns.lookup name).isSome ∨ name = first := by
      rw [List.lookup_append, Option.isSome_or, Bool.or_eq_true, List.lookup_cons]
      cases hname : name == first with
      | true => simp [beq_iff_eq.1 hname]
      | false => simp [beq_eq_false_iff_ne.1 hname]
    rw [ih hresult, hfirst, List.mem_cons, or_assoc]

/-- Fetching fails as a call does, or else at the first column that is not among the headers. -/
theorem FetchTranscript.failed_or_absent
    (h : FetchTranscript source delimiter headers names columns transcript (.error e)) :
    (∃ exchange ∈ transcript, exchange.failure? = some e) ∨
      ∃ name, names.find? (fun name => !headers.contains name) = some name ∧
        e = .missingColumn name source := by
  generalize hresult : (Except.error e : Except Error Columns) = result at h
  induction h with
  | done => cases hresult
  | absent hheader =>
    cases hresult
    exact .inr ⟨_, List.find?_cons_of_pos (by simpa using hheader), rfl⟩
  | refused =>
    cases hresult
    exact .inl ⟨_, List.mem_singleton_self _, rfl⟩
  | fetched hheader hrest ih =>
    rcases ih hresult with ⟨exchange, hmem, hfailure⟩ | ⟨name, hname, he⟩
    · exact .inl ⟨exchange, List.mem_cons_of_mem _ hmem, hfailure⟩
    · refine .inr ⟨name, ?_, he⟩
      rw [List.find?_cons_of_neg (by simpa using hheader), hname]

/-- Whatever the tool does, what it is asked for can be written down. -/
theorem fetchTranscript_of_fetchColumns {τ : Type} {tool : Tool τ} {world after : World τ}
    (h : fetchColumns tool source delimiter headers names columns world = (.ok out, after)) :
    ∃ transcript, FetchTranscript source delimiter headers (pendingNames names columns) columns
      transcript (.ok out) := by
  obtain ⟨hresult, -⟩ := fetchColumns_related tool.transcribing_related source delimiter headers
    names columns world ⟨world.files, (world.tool, [])⟩ ⟨rfl, rfl⟩
  obtain ⟨transcript, -, hfits⟩ := fetchColumns_writes tool source delimiter headers names columns
    ⟨world.files, (world.tool, [])⟩
  rw [h] at hresult
  rw [← hresult] at hfits
  exact ⟨transcript, hfits⟩

end

/-! ## Evaluating -/

section

variable {query : Query} {columns : Columns} {column : String} {table : Path}

/-- A chain misses a column only where it is not there. -/
theorem selectRows_ne_missing {source : Path} {clauses : List Clause}
    (h : ∀ clause ∈ clauses, (columns.lookup clause.column).isSome) :
    selectRows source columns clauses ≠ .error (.missingColumn column table) := by
  intro hmissing
  obtain ⟨before, clause, after, rfl, -, hfails⟩ := selectRows_eq_error_iff.1 hmissing
  cases hfails with
  | absent hnone => simpa [hnone] using h clause (by simp)

namespace Query.IsServed

theorem selectRows_ne_missing (h : query.IsServed columns) :
    selectRows query.source columns query.clauses ≠ .error (.missingColumn column table) := by
  refine ColumnSieve.selectRows_ne_missing ?_
  intro clause hclause
  exact (h clause.column).2 (.inl ⟨clause, hclause, rfl⟩)

theorem exists_identifiers (h : query.IsServed columns) :
    ∃ cells, columns.lookup query.idColumn = some cells :=
  Option.isSome_iff_exists.1 ((h query.idColumn).2 (.inr rfl))

theorem evaluate_ne_missing (h : query.IsServed columns) :
    query.evaluate columns ≠ .error (.missingColumn column table) := by
  intro hmissing
  unfold Query.evaluate at hmissing
  cases hrows : selectRows query.source columns query.clauses with
  | error e =>
    rw [hrows] at hmissing
    cases hmissing
    exact h.selectRows_ne_missing hrows
  | ok rows =>
    rw [hrows] at hmissing
    -- the look-up of identifiers knows of no other error than a row out of range
    change lookUpIdentifiers rows _ = _ at hmissing
    unfold lookUpIdentifiers at hmissing
    split at hmissing
    · cases hmissing
    · cases hmissing

end Query.IsServed

theorem FetchTranscript.isServed {delimiter : Char} {headers : List String}
    {transcript : List Exchange}
    (h : FetchTranscript query.source delimiter headers query.names [] transcript (.ok columns)) :
    query.IsServed columns := by
  intro name
  rw [h.isSome_lookup_iff, ← Query.mem_names_iff]
  simp

end

/-! ## Stages of a plan -/

section

variable {query : Query} {queries : List Query} {delimiter : Char} {transcript : List Exchange}
  {column : String} {table : Path} {e : Error}

/-- What a query has been told when it stops at a column that its table lacks. -/
theorem QueryTranscript.failed_or_absent
    (h : QueryTranscript query delimiter transcript (.error (.missingColumn column table))) :
    (∃ exchange ∈ transcript, exchange.failure? = some (.missingColumn column table)) ∨
      ∃ headers fetched,
        transcript = .headers query.source delimiter (.ok headers) :: fetched ∧
        query.firstAbsent? headers = some column ∧ table = query.source := by
  generalize hresult : (Except.error (.missingColumn column table) :
    Except Error (List String)) = result at h
  cases h with
  | refused =>
    cases hresult
    exact .inl ⟨_, List.mem_singleton_self _, rfl⟩
  | unfetched hfetched =>
    cases hresult
    rcases hfetched.failed_or_absent with ⟨exchange, hmem, hfailure⟩ | ⟨name, hname, he⟩
    · exact .inl ⟨exchange, List.mem_cons_of_mem _ hmem, hfailure⟩
    · cases he
      rw [Query.find?_names] at hname
      exact .inr ⟨_, _, rfl, hname, rfl⟩
  | evaluated hfetched => exact absurd hresult.symm hfetched.isServed.evaluate_ne_missing

/-- Several queries fail as one of them does, when those before have succeeded. -/
theorem QueriesTranscript.exists_failed
    (h : QueriesTranscript delimiter queries transcript (.error e)) :
    ∃ before query after sets earlier own, queries = before ++ query :: after ∧
      QueriesTranscript delimiter before earlier (.ok sets) ∧
      QueryTranscript query delimiter own (.error e) ∧ transcript = earlier ++ own := by
  generalize hresult : (Except.error e : Except Error (List (List String))) = result at h
  induction h with
  | done => cases hresult
  | @stopped query queries transcript e' hquery =>
    cases hresult
    exact ⟨[], query, queries, [], [], transcript, rfl, .done, hquery, rfl⟩
  | @next first queries own rest identifiers result hfirst hrest ih =>
    cases result with
    | ok sets => cases hresult
    | error e' =>
      cases hresult
      obtain ⟨before, query, after, sets, earlier, failed, rfl, hbefore, hquery, rfl⟩ := ih rfl
      exact ⟨first :: before, query, after, identifiers :: sets, own ++ earlier, failed, rfl,
        .next hfirst hbefore, hquery, by rw [List.append_assoc]⟩

/-- The queries in front of one of them have succeeded.  The headers that were then reported for the
table of this one lack the column, and none that the query names before. -/
def StopsAtAbsent (queries : List Query) (delimiter : Char) (transcript : List Exchange)
    (column : String) (table : Path) : Prop :=
  ∃ before query after sets earlier headers fetched, queries = before ++ query :: after ∧
    QueriesTranscript delimiter before earlier (.ok sets) ∧
    transcript = earlier ++ .headers query.source delimiter (.ok headers) :: fetched ∧
    query.firstAbsent? headers = some column ∧ table = query.source

theorem QueriesTranscript.failed_or_absent
    (h : QueriesTranscript delimiter queries transcript (.error (.missingColumn column table))) :
    (∃ exchange ∈ transcript, exchange.failure? = some (.missingColumn column table)) ∨
      StopsAtAbsent queries delimiter transcript column table := by
  obtain ⟨before, query, after, sets, earlier, own, rfl, hbefore, hquery, rfl⟩ := h.exists_failed
  rcases hquery.failed_or_absent with ⟨exchange, hmem, hfailure⟩ | ⟨headers, fetched, rfl, habsent⟩
  · exact .inl ⟨exchange, List.mem_append_right _ hmem, hfailure⟩
  · exact .inr ⟨before, query, after, sets, earlier, headers, fetched, rfl, hbefore, rfl, habsent⟩

theorem PlanTranscript.failed_or_absent {target : Path} {options : Options}
    (h : PlanTranscript queries target options transcript (.error (.missingColumn column table))) :
    (∃ exchange ∈ transcript, exchange.failure? = some (.missingColumn column table)) ∨
      StopsAtAbsent queries options.metadataDelimiter transcript column table := by
  generalize hresult : (Except.error (.missingColumn column table) : Except Error Plan) = result
    at h
  cases h with
  | stopped hqueries =>
    cases hresult
    exact hqueries.failed_or_absent
  | refused =>
    cases hresult
    exact .inl ⟨_, List.mem_append_right _ (List.mem_singleton_self _), rfl⟩
  | unselected _ hselection =>
    cases hresult
    obtain ⟨-, hend⟩ | ⟨-, -, hend⟩ | ⟨-, -, -, hend⟩ | ⟨-, -, found, hend, -⟩ :=
      selectColumns_cases options.mode options.alwaysInclude _ options.ignoreMissing _
    · cases hend.symm.trans hselection
    · cases hend.symm.trans hselection
    · cases hend.symm.trans hselection
    · cases hend.symm.trans hselection
  | made => cases hresult

end

/-! ## Whatever the tool does -/

section

variable {τ : Type}

/-- How a query goes with a tool.  It stops where the tool refuses the headers of its table, or
where its columns cannot be fetched.  Otherwise it is evaluated; then there are cells for all columns
that it names, so the chain misses none of them, and the cells of its identifiers are those that have
been fetched. -/
inductive Query.Goes (tool : Tool τ) (delimiter : Char) (query : Query) (world : World τ) : Prop
  | refused {e : Error} {after : World τ}
      (hheaders : tool.headers query.source delimiter world = (.error e, after))
      (hresult : selectIdentifiers tool delimiter query world = (.error e, after))
  | unfetched {headers : List String} {asked after : World τ} {e : Error}
      (hheaders : tool.headers query.source delimiter world = (.ok headers, asked))
      (hfetched : fetchColumns tool query.source delimiter headers
        (query.columns ++ [query.idColumn]) [] asked = (.error e, after))
      (hresult : selectIdentifiers tool delimiter query world = (.error e, after))
  | evaluated {headers identifiers : List String} {asked after : World τ} {columns : Columns}
      (hheaders : tool.headers query.source delimiter world = (.ok headers, asked))
      (hfetched : fetchColumns tool query.source delimiter headers
        (query.columns ++ [query.idColumn]) [] asked = (.ok columns, after))
      (hserved : query.IsServed columns)
      (hmissing : ∀ column table, selectRows query.source columns query.clauses ≠
        .error (.missingColumn column table))
      (hidentifiers : columns.lookup query.idColumn = some identifiers)
      (hresult : selectIdentifiers tool delimiter query world =
        (selectRows query.source columns query.clauses >>= fun rows =>
          lookUpIdentifiers rows identifiers, after))

theorem Query.goes (tool : Tool τ) (delimiter : Char) (query : Query) (world : World τ) :
    query.Goes tool delimiter world := by
  match hheaders : tool.headers query.source delimiter world with
  | (.error e, after) =>
    refine .refused hheaders ?_
    rw [selectIdentifiers, Action.bind_apply, hheaders]
  | (.ok headers, asked) =>
    match hfetched : fetchColumns tool query.source delimiter headers
        (query.columns ++ [query.idColumn]) [] asked with
    | (.error e, after) =>
      refine .unfetched hheaders hfetched ?_
      rw [selectIdentifiers, Action.bind_apply, hheaders]
      dsimp only
      rw [Action.bind_apply, hfetched]
    | (.ok columns, after) =>
      obtain ⟨transcript, htranscript⟩ := fetchTranscript_of_fetchColumns hfetched
      rw [query.pendingNames_eq] at htranscript
      have hserved := htranscript.isServed
      obtain ⟨identifiers, hidentifiers⟩ := hserved.exists_identifiers
      refine .evaluated hheaders hfetched hserved (fun _ _ => hserved.selectRows_ne_missing)
        hidentifiers ?_
      rw [selectIdentifiers, Action.bind_apply, hheaders]
      dsimp only
      rw [Action.bind_apply, hfetched]
      dsimp only
      rw [evaluate_apply, Query.evaluate, hidentifiers, Option.getD_some]

/-- The tool itself never fails for want of a column. -/
structure Tool.NeverMisses (tool : Tool τ) : Prop where
  headers : ∀ source delimiter world column table,
    (tool.headers source delimiter world).1 ≠ .error (.missingColumn column table)
  values : ∀ source name delimiter world column table,
    (tool.values source name delimiter world).1 ≠ .error (.missingColumn column table)

/-- Nor does any of its answers in a transcript say so. -/
theorem Tool.NeverMisses.transcribing_preserves {tool : Tool τ} (h : tool.NeverMisses) :
    tool.transcribing.Preserves fun world => ∀ exchange ∈ world.tool.2,
      ∀ column table, exchange.failure? ≠ some (.missingColumn column table) where
  headers source delimiter := by
    refine Action.noting_preserves ?_
    intro world column table
    rw [ne_eq, Exchange.failure?_headers_eq_some_iff]
    exact h.headers source delimiter world column table
  values source name delimiter := by
    refine Action.noting_preserves ?_
    intro world column table
    rw [ne_eq, Exchange.failure?_values_eq_some_iff]
    exact h.values source name delimiter world column table

/-- Running a program fails with a report on the program. -/
theorem Tool.exists_report_of_execute {programs : Programs τ} {program : String}
    {arguments : List String} {world after : World τ} {e : Error}
    (h : Tool.execute programs program arguments world = (.error e, after)) :
    ∃ status report, e = .program program status report := by
  unfold Tool.execute at h
  split at h
  · cases h
    exact ⟨_, _, rfl⟩
  · split at h
    · cases h
    · cases h
      exact ⟨_, _, rfl⟩

theorem Tool.external_neverMisses (programs : Programs τ) (program : String) :
    (Tool.external programs program).NeverMisses where
  headers source delimiter world column table := by
    simp only [external, Action.bind_apply]
    split
    · exact nofun
    · rename_i e after hrun
      obtain ⟨status, report, rfl⟩ := exists_report_of_execute hrun
      exact nofun
  values source name delimiter world column table := by
    simp only [external, Action.bind_apply]
    split
    · rename_i stdout after hrun
      cases Csv.firstFields stdout.toList with
      | ok cells => exact nofun
      | error e => exact nofun
    · rename_i e after hrun
      obtain ⟨status, report, rfl⟩ := exists_report_of_execute hrun
      exact nofun

/-- **A plan misses the first column that is absent, and no other.**  Whatever the tool does, a query
that comes to be evaluated has cells for all columns that it names.  So a plan that fails for want of
a column does so because a call has failed in this way, or else because the headers that were
reported for the table of a query lack this column and none that the query names before it.  The
external tool never fails in this way itself. -/
theorem plan_misses_first_absent (tool : Tool τ) :
    (∀ delimiter (query : Query) world, query.Goes tool delimiter world) ∧
    (∀ queries target options world column table,
      (plan tool queries target options world).1 = .error (.missingColumn column table) →
      ∃ transcript,
        plan tool.transcribing queries target options ⟨world.files, (world.tool, [])⟩ =
          ((plan tool queries target options world).1,
            ⟨(plan tool queries target options world).2.files,
              ((plan tool queries target options world).2.tool, transcript)⟩) ∧
        ((∃ exchange ∈ transcript, exchange.failure? = some (.missingColumn column table)) ∨
          StopsAtAbsent queries options.metadataDelimiter transcript column table) ∧
        (tool.NeverMisses →
          StopsAtAbsent queries options.metadataDelimiter transcript column table)) ∧
    ∀ (programs : Programs τ) (program : String),
      (Tool.external programs program).NeverMisses := by
  refine ⟨Query.goes tool, ?_, Tool.external_neverMisses⟩
  intro queries target options world column table hmissing
  obtain ⟨transcript, htranscript, -⟩ := plan_transcribing tool queries target options world
  have hfile : world.files.isFile target = true := by
    by_contra hno
    rw [plan, if_neg hno] at hmissing
    cases hmissing
  obtain ⟨added, hadded, hplan⟩ := plan_writes tool queries target options
    ⟨world.files, (world.tool, [])⟩ hfile
  rw [htranscript] at hadded hplan
  obtain rfl : transcript = added := hadded
  rw [hmissing] at hplan
  have hcases := hplan.failed_or_absent
  refine ⟨transcript, htranscript, hcases, ?_⟩
  intro hnever
  have hnone := plan_preserves hnever.transcribing_preserves queries target options
    ⟨world.files, (world.tool, [])⟩ (List.forall_mem_nil _)
  rw [htranscript] at hnone
  rcases hcases with ⟨exchange, hmem, hfailure⟩ | habsent
  · exact absurd hfailure (hnone exchange hmem column table)
  · exact habsent

end

theorem Tool.ofTables_neverMisses {τ : Type} (tables : Path → Char → Table) :
    (Tool.ofTables τ tables).NeverMisses where
  headers := nofun
  values := nofun

/-- A sample by its batch, among other things, and a table that has neither batch nor sample. -/
def batchQuery : Query :=
  ⟨"", ⟨"/samples.csv"⟩, "sample",
    [⟨.union, "tissue", .equal, ["lung"]⟩, ⟨.intersect, "batch", .notEqual, ["1"]⟩,
      ⟨.union, "grade", .equal, ["high"]⟩]⟩

/-- The query in front is served; of the three columns that the other lacks it stops at the
first. -/
theorem plan_misses_first_absent_of_samples :
    let world : World Unit := ⟨⟨[], [(["counts.csv"], .file .empty)]⟩, ()⟩
    let options : Options := ⟨true, ',', ',', ["gene"], .union⟩
    let queries := sampleQueries.take 1 ++ [batchQuery]
    (plan (Tool.ofTables Unit sampleTables) queries ⟨"/counts.csv"⟩ options world).1 =
        .error (.missingColumn "batch" ⟨"/samples.csv"⟩) ∧
      ∃ transcript, StopsAtAbsent queries ',' transcript "batch" ⟨"/samples.csv"⟩ := by
  intro world options queries
  have hmissing : (plan (Tool.ofTables Unit sampleTables) queries ⟨"/counts.csv"⟩ options
      world).1 = .error (.missingColumn "batch" ⟨"/samples.csv"⟩) := by
    decide +kernel
  obtain ⟨transcript, -, -, hstops⟩ := (plan_misses_first_absent
    (Tool.ofTables Unit sampleTables)).2.1 queries ⟨"/counts.csv"⟩ options world _ _ hmissing
  exact ⟨hmissing, transcript, hstops (Tool.ofTables_neverMisses sampleTables)⟩

/-- A tool that looks for the headers of every table in a register, and finds the register to lack a
column. -/
def registerTool : Tool Unit where
  headers _ _ := throw (.missingColumn "location" ⟨"/register.csv"⟩)
  values _ _ _ := pure []
  extract _ _ _ _ := pure ()

/-- What a tool reports is passed on as it is, so a plan can miss a column that no query names, in a
table that no query is about. -/
theorem plan_misses_what_a_tool_reports :
    let world : World Unit := ⟨⟨[], [(["counts.csv"], .file .empty)]⟩, ()⟩
    let options : Options := ⟨true, ',', ',', ["gene"], .union⟩
    (plan registerTool [batchQuery] ⟨"/counts.csv"⟩ options world).1 =
        .error (.missingColumn "location" ⟨"/register.csv"⟩) ∧
      "location" ∉ batchQuery.names ∧
      ∀ transcript, ¬ StopsAtAbsent [batchQuery] ',' transcript "location" ⟨"/register.csv"⟩ := by
  refine ⟨by decide +kernel, by decide +kernel, ?_⟩
  rintro transcript ⟨before, query, after, -, -, -, -, hqueries, -, -, -, htable⟩
  have hmem : query ∈ [batchQuery] := by simp [hqueries]
  rw [List.mem_singleton] at hmem
  subst hmem
  exact absurd htable (by decide)

end ColumnSieve
