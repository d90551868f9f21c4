import ColumnSieve.Proofs.Distinct
import ColumnSieve.Proofs.Plan.Answers
import ColumnSieve.Proofs.Tool.Transcript

/-!
# Transcripts of plans

A plan asks for the headers of the table of its first query, then for the columns that the query
names, then goes on to the next query, and asks for the headers of its target last.  It stops at the
first failure, be it of a call, of a look-up among the headers or of an evaluation.

* `Query.names`, `Query.evaluate` — what a query fetches, and what it makes of that;
* `FetchTranscript`, `QueryTranscript`, `QueriesTranscript`, `PlanTranscript` — the transcripts that
  the stages of a plan can lead to, each with the outcome that goes with it;
* `plan_writes`                   — a plan leads to such a transcript, whatever the tool does.
-/

namespace ColumnSieve

/-! ## What a query fetches -/

namespace Query

/-- The columns that a query fetches: those of its clauses, in the order in which they are first
named, and then the column of its identifiers, unless it is among them. -/
def names (query : Query) : List String :=
  query.columns ++ if query.idColumn ∈ query.columns then [] else [query.idColumn]

/-- What a query selects by the columns that it has fetched. -/
def evaluate (query : Query) (columns : Columns) : Except Error (List String) := do
  let rows ← selectRows query.source columns query.clauses
  lookUpIdentifiers rows ((columns.lookup query.idColumn).getD [])

theorem names_eq (query : Query) : query.names = (query.columns ++ [query.idColumn]).eraseDups := by
  have hcolumns : query.columns.eraseDups = query.columns :=
    Distinct.eraseDups_eq_self (Distinct.nodup_eraseDups _)
  rw [List.eraseDups_append, hcolumns, names]
  by_cases hid : query.idColumn ∈ query.columns
  · simp [List.removeAll, hid]
  · simp [List.removeAll, hid, List.eraseDups_cons]

end Query

/-! ## The stages -/

/-- How fetching some columns goes, given those that are there already: in order, until one is not
among the headers or cannot be fetched. -/
inductive FetchTranscript (source : Path) (delimiter : Char) (headers : List String) :
    List String → Columns → List Exchange → Except Error Columns → Prop
  | done {columns : Columns} : FetchTranscript source delimiter headers [] columns [] (.ok columns)
  | absent {name : String} {names : List String} {columns : Columns} : name ∉ headers →
      FetchTranscript source delimiter headers (name :: names) columns []
        (.error (.missingColumn name source))
  | refused {name : String} {names : List String} {columns : Columns} {e : Error} :
      name ∈ headers →
      FetchTranscript source delimiter headers (name :: names) columns
        [.values source name delimiter (.error e)] (.error e)
  | fetched {name : String} {names cells : List String} {columns : Columns}
      {transcript : List Exchange} {result : Except Error Columns} : name ∈ headers →
      FetchTranscript source delimiter headers names (columns ++ [(name, cells)]) transcript
        result →
      FetchTranscript source delimiter headers (name :: names) columns
        (.values source name delimiter (.ok cells) :: transcript) result

/-- How a query goes: it asks for headers, then for its columns, and is evaluated when it has them
all. -/
inductive QueryTranscript (query : Query) (delimiter : Char) :
    List Exchange → Except Error (List String) → Prop
  | refused {e : Error} :
      QueryTranscript query delimiter [.headers query.source delimiter (.error e)] (.error e)
  | unfetched {headers : List String} {transcript : List Exchange} {e : Error} :
      FetchTranscript query.source delimiter headers query.names [] transcript (.error e) →
      QueryTranscript query delimiter
        (.headers query.source delimiter (.ok headers) :: transcript) (.error e)
  | evaluated {headers : List String} {transcript : List Exchange} {columns : Columns} :
      FetchTranscript query.source delimiter headers query.names [] transcript (.ok columns) →
      QueryTranscript query delimiter
        (.headers query.source delimiter (.ok headers) :: transcript) (query.evaluate columns)

/-- How several queries go: in order, until one of them fails. -/
inductive QueriesTranscript (delimiter : Char) :
    List Query → List Exchange → Except Error (List (List String)) → Prop
  | done : QueriesTranscript delimiter [] [] (.ok [])
  | stopped {query : Query} {queries : List Query} {transcript : List Exchange} {e : Error} :
      QueryTranscript query delimiter transcript (.error e) →
      QueriesTranscript delimiter (query :: queries) transcript (.error e)
  | next {query : Query} {queries : List Query} {first rest : List Exchange}
      {identifiers : List String} {result : Except Error (List (List String))} :
      QueryTranscript query delimiter first (.ok identifiers) →
      QueriesTranscript delimiter queries rest result →
      QueriesTranscript delimiter (query :: queries) (first ++ rest)
        (result.map (identifiers :: ·))

/-- How a plan goes: when all queries have succeeded it asks for the headers of its target, and is
made from these. -/
inductive PlanTranscript (queries : List Query) (target : Path) (options : Options) :
    List Exchange → Except Error Plan → Prop
  | stopped {transcript : List Exchange} {e : Error} :
      QueriesTranscript options.metadataDelimiter queries transcript (.error e) →
      PlanTranscript queries target options transcript (.error e)
  | refused {transcript : List Exchange} {sets : List (List String)} {e : Error} :
      QueriesTranscript options.metadataDelimiter queries transcript (.ok sets) →
      PlanTranscript queries target options
        (transcript ++ [.headers target options.delimiter (.error e)]) (.error e)
  | unselected {transcript : List Exchange} {sets : List (List String)} {headers : List String}
      {e : Error} :
      QueriesTranscript options.metadataDelimiter queries transcript (.ok sets) →
      selectColumns options.mode options.alwaysInclude headers options.ignoreMissing sets =
        .error e →
      PlanTranscript queries target options
        (transcript ++ [.headers target options.delimiter (.ok headers)]) (.error e)
  | made {transcript : List Exchange} {sets : List (List String)} {headers : List String}
      {selection : Selection} :
      QueriesTranscript options.metadataDelimiter queries transcript (.ok sets) →
      selectColumns options.mode options.alwaysInclude headers options.ignoreMissing sets =
        .ok selection →
      PlanTranscript queries target options
        (transcript ++ [.headers target options.delimiter (.ok headers)])
        (.ok ⟨selection.identifiers, selection.columns, Spec.ofColumns selection.columns,
          headers.length⟩)

/-! ## Plans lead to such transcripts -/

section

variable {τ : Type} (tool : Tool τ)

/-- Of some names those that are not there yet, each once. -/
def pendingNames (names : List String) (columns : Columns) : List String :=
  (names.filter fun name => (columns.lookup name).isNone).eraseDups

theorem pendingNames_of_there {name : String} {names : List String} {columns : Columns}
    (h : (columns.lookup name).isSome) :
    pendingNames (name :: names) columns = pendingNames names columns := by
  simp [pendingNames, Option.isNone_iff_eq_none, Option.isSome_iff_ne_none.1 h]

theorem pendingNames_of_new {name : String} {names : List String} {columns : Columns}
    (h : columns.lookup name = none) (cells : List String) :
    pendingNames (name :: names) columns =
      name :: pendingNames names (columns ++ [(name, cells)]) := by
  have hthere : (names.filter fun other => (columns.lookup other).isNone).filter
      (fun other => !other == name) =
        names.filter fun other => ((columns ++ [(name, cells)]).lookup other).isNone := by
    rw [List.filter_filter]
    apply List.filter_congr
    intro other _
    rw [Answers.lookup_append_singleton h]
    by_cases hother : other = name
    · simp [hother]
    · simp [hother]
  rw [pendingNames, List.filter_cons_of_pos (by simp [h]), List.eraseDups_cons, hthere,
    pendingNames]

theorem Query.pendingNames_eq (query : Query) :
    pendingNames (query.columns ++ [query.idColumn]) [] = query.names := by
  simp [pendingNames, names_eq]

theorem fetchColumns_writes (source : Path) (delimiter : Char) (headers names : List String)
    (columns : Columns) :
    (fetchColumns tool.transcribing source delimiter headers names columns).Writes
      (FetchTranscript source delimiter headers (pendingNames names columns) columns) := by
  induction names generalizing columns with
  | nil => exact .of_value (fun _ => rfl) .done
  | cons name names ih =>
    rw [fetchColumns]
    split
    · rename_i hthere
      rw [pendingNames_of_there hthere]
      exact ih columns
    · rename_i hnew
      have hpending (cells : List String) : pendingNames (name :: names) columns =
          name :: pendingNames names (columns ++ [(name, cells)]) :=
        pendingNames_of_new (Option.not_isSome_iff_eq_none.1 hnew) cells
      split
      · rename_i hheader
        have hheader : name ∈ headers := by simpa using hheader
        refine .bind (.noting _ _) ?_ fun cells => (ih _).mono ?_
        · rintro added e rfl
          rw [hpending []]
          exact .refused hheader
        · rintro added result hrest before rfl
          rw [hpending cells]
          exact .fetched hheader hrest
      · rename_i hheader
        rw [hpending []]
        exact .of_value (fun _ => rfl) (.absent (by simpa using hheader))

/-- Evaluating a query asks for nothing. -/
theorem evaluate_apply (query : Query) (columns : Columns) (world : World τ) :
    (selectIdentifiers.liftExcept (selectRows query.source columns query.clauses) >>=
        fun rows => selectIdentifiers.liftExcept
          (lookUpIdentifiers rows ((columns.lookup query.idColumn).getD []))
      : Action τ Error (List String)) world = (query.evaluate columns, world) := by
  rw [Action.bind_apply, Query.evaluate]
  cases selectRows query.source columns query.clauses with
  | error e => rfl
  | ok rows => rfl

theorem selectIdentifiers_writes (delimiter : Char) (query : Query) :
    (selectIdentifiers tool.transcribing delimiter query).Writes
      (QueryTranscript query delimiter) := by
  have hfetch (headers : List String) := fetchColumns_writes tool query.source delimiter headers
    (query.columns ++ [query.idColumn]) []
  rw [query.pendingNames_eq] at hfetch
  refine .bind (.noting _ _) ?_ fun headers =>
    .bind (hfetch headers) ?_ fun columns => .of_value (evaluate_apply query columns) ?_
  · rintro added e rfl
    exact .refused
  · rintro added e hfetched before rfl
    exact .unfetched hfetched
  · rintro fetched hfetched before rfl
    rw [List.append_nil]
    exact .evaluated hfetched

theorem mapM_selectIdentifiers_writes (delimiter : Char) (queries : List Query) :
    (queries.mapM (selectIdentifiers tool.transcribing delimiter)).Writes
      (QueriesTranscript delimiter queries) := by
  induction queries with
  | nil => exact .of_value (fun _ => rfl) .done
  | cons query queries ih =>
    rw [List.mapM_cons]
    refine .bind (selectIdentifiers_writes tool delimiter query) ?_ fun identifiers =>
      .bind ih ?_ fun sets => .of_value (fun _ => rfl) ?_
    · rintro added e hquery
      exact .stopped hquery
    · rintro added e hqueries before hquery
      exact .next hquery hqueries
    · rintro added hqueries before hquery
      rw [List.append_nil]
      exact .next hquery hqueries

theorem plan_writes (queries : List Query) (target : Path) (options : Options)
    (world : World (τ × List Exchange)) (hfile : world.files.isFile target = true) :
    ∃ added, (plan tool.transcribing queries target options world).2.tool.2 =
        world.tool.2 ++ added ∧
      PlanTranscript queries target options added
        (plan tool.transcribing queries target options world).1 := by
  unfold plan
  rw [if_pos hfile]
  refine Action.Writes.bind (mapM_selectIdentifiers_writes tool _ queries) ?_
    (fun sets => .bind (.noting _ _) ?_ fun headers => ?_) world
  · intro added e hqueries
    exact .stopped hqueries
  · rintro added e rfl before hqueries
    exact .refused hqueries
  · split
    · rename_i e hselection
      refine .of_value (fun _ => rfl) ?_
      rintro asked rfl before hqueries
      exact .unselected hqueries hselection
    · rename_i selection hselection
      refine .of_value (fun _ => rfl) ?_
      rintro asked rfl before hqueries
      exact .made hqueries hselection

end

end ColumnSieve
