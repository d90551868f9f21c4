import ColumnSieve.Plan
import ColumnSieve.Proofs.Action
import ColumnSieve.Proofs.Outcome

/-!
# Planning from the answers of a tool

If the answers of a tool depend on the question alone, a plan depends on the world only through
the existence of the target.  The rest is a computation without a world.

* `Answers`, `Tool.Gives`   — answers to questions, and a tool that gives them;
* `Answers.fetchColumns`, `Answers.selectIdentifiers`, `Answers.plan` — the computation;
* `Tool.Gives.plan_eq`      — it is what `plan` does;
* `Tool.Gives.plan_congr`   — so two tools are compared by their answers;
* `Answers.fetchColumns_isOk_iff`, `Answers.lookup_of_fetchColumns` — when columns are fetched,
  and which.
-/

namespace ColumnSieve

/-- The answers to the questions that a plan may ask. -/
structure Answers where
  headers : (source : Path) → (delimiter : Char) → Except Error (List String)
  values : (source : Path) → (column : String) → (delimiter : Char) →
    Except Error (List String)

section

variable {τ : Type}

/-- A tool gives these answers in every world.  Nothing is asked about columns that are not
among the headers of their table, so the tool may answer there as it likes. -/
structure Tool.Gives (tool : Tool τ) (answers : Answers) : Prop where
  headers : ∀ source delimiter,
    (tool.headers source delimiter).Returns (answers.headers source delimiter)
  values : ∀ source delimiter headers column,
    answers.headers source delimiter = .ok headers → column ∈ headers →
      (tool.values source column delimiter).Returns (answers.values source column delimiter)

end

namespace Answers

/-- The named columns, each asked for once and only if it is among the headers. -/
def fetchColumns (answers : Answers) (source : Path) (delimiter : Char) (headers : List String) :
    List String → Columns → Except Error Columns
  | [], columns => .ok columns
  | name :: names, columns =>
    if (columns.lookup name).isSome then
      fetchColumns answers source delimiter headers names columns
    else if headers.contains name then
      answers.values source name delimiter >>= fun cells =>
        fetchColumns answers source delimiter headers names (columns ++ [(name, cells)])
    else
      .error (.missingColumn name source)

/-- The identifiers that a query selects, by these answers. -/
def selectIdentifiers (answers : Answers) (delimiter : Char) (query : Query) :
    Except Error (List String) := do
  let headers ← answers.headers query.source delimiter
  let columns ← answers.fetchColumns query.source delimiter headers
    (query.columns ++ [query.idColumn]) []
  let rows ← selectRows query.source columns query.clauses
  lookUpIdentifiers rows ((columns.lookup query.idColumn).getD [])

/-- The plan for a target that exists, by these answers. -/
def plan (answers : Answers) (queries : List Query) (target : Path) (options : Options) :
    Except Error Plan := do
  let sets ← queries.mapM (answers.selectIdentifiers options.metadataDelimiter)
  let headers ← answers.headers target options.delimiter
  let selection ←
    selectColumns options.mode options.alwaysInclude headers options.ignoreMissing sets
  return ⟨selection.identifiers, selection.columns, Spec.ofColumns selection.columns,
    headers.length⟩

/-! ## Fetched columns -/

section

variable {answers : Answers} {source : Path} {delimiter : Char} {headers names : List String}
  {columns out : Columns}

/-- The columns hold what the tool answers, and only columns that are among the headers. -/
def Fetched (answers : Answers) (source : Path) (delimiter : Char) (headers : List String)
    (columns : Columns) : Prop :=
  ∀ name cells, columns.lookup name = some cells →
    name ∈ headers ∧ answers.values source name delimiter = .ok cells

theorem fetched_nil : Fetched answers source delimiter headers [] := by
  intro name cells h
  cases h

theorem lookup_append_singleton {name : String} {cells : List String}
    (hn : columns.lookup name = none) (key : String) :
    (columns ++ [(name, cells)]).lookup key =
      if key = name then some cells else columns.lookup key := by
  rw [List.lookup_append]
  by_cases hk : key = name
  · subst hk
    simp [hn]
  · have hb : (key == name) = false := by simpa using hk
    simp [List.lookup_cons, hb, hk]

/-- One more column keeps the invariant. -/
theorem Fetched.append {name : String} {cells : List String}
    (hf : Fetched answers source delimiter headers columns)
    (hn : columns.lookup name = none) (hh : name ∈ headers)
    (hv : answers.values source name delimiter = .ok cells) :
    Fetched answers source delimiter headers (columns ++ [(name, cells)]) := by
  intro key found h
  rw [lookup_append_singleton hn] at h
  split at h
  · rename_i hk
    cases h
    exact hk ▸ ⟨hh, hv⟩
  · exact hf key found h

/-- What is fetched is what the tool answers, for the names that were asked for and those that
were there before. -/
theorem lookup_of_fetchColumns (hf : Fetched answers source delimiter headers columns)
    (h : fetchColumns answers source delimiter headers names columns = .ok out) :
    Fetched answers source delimiter headers out ∧
      ∀ name, (out.lookup name).isSome ↔ (columns.lookup name).isSome ∨ name ∈ names := by
  induction names generalizing columns with
  | nil =>
    cases h
    exact ⟨hf, fun name => by simp⟩
  | cons name names ih =>
    unfold fetchColumns at h
    split at h
    · rename_i hs
      obtain ⟨hout, hl⟩ := ih hf h
      refine ⟨hout, ?_⟩
      intro key
      rw [hl key, List.mem_cons]
      grind
    · rename_i hs
      have hn : columns.lookup name = none := Option.not_isSome_iff_eq_none.1 hs
      split at h
      · rename_i hc
        obtain ⟨cells, hv, h⟩ := Outcome.bind_eq_ok_iff.1 h
        obtain ⟨hout, hl⟩ := ih (hf.append hn (by simpa using hc) hv) h
        refine ⟨hout, ?_⟩
        intro key
        rw [hl key, lookup_append_singleton hn, List.mem_cons]
        split <;> simp_all
      · cases h

/-- Columns are fetched exactly if all of them are among the headers and the tool answers. -/
theorem fetchColumns_isOk_iff (hf : Fetched answers source delimiter headers columns) :
    (∃ out, fetchColumns answers source delimiter headers names columns = .ok out) ↔
      ∀ name ∈ names, name ∈ headers ∧ ∃ cells, answers.values source name delimiter = .ok cells := by
  induction names generalizing columns with
  | nil => exact iff_of_true ⟨columns, rfl⟩ fun name h => absurd h List.not_mem_nil
  | cons name names ih =>
    unfold fetchColumns
    rw [List.forall_mem_cons]
    split
    · rename_i hs
      obtain ⟨cells, hl⟩ := Option.isSome_iff_exists.1 hs
      obtain ⟨hh, hv⟩ := hf name cells hl
      rw [ih hf]
      exact ⟨fun h => ⟨⟨hh, cells, hv⟩, h⟩, fun h => h.2⟩
    · rename_i hs
      have hn : columns.lookup name = none := Option.not_isSome_iff_eq_none.1 hs
      split
      · rename_i hc
        have hh : name ∈ headers := by simpa using hc
        constructor
        · rintro ⟨out, h⟩
          obtain ⟨cells, hv, h⟩ := Outcome.bind_eq_ok_iff.1 h
          exact ⟨⟨hh, cells, hv⟩, (ih (hf.append hn hh hv)).1 ⟨out, h⟩⟩
        · rintro ⟨⟨-, cells, hv⟩, h⟩
          obtain ⟨out, ho⟩ := (ih (hf.append hn hh hv)).2 h
          exact ⟨out, Outcome.bind_eq_ok_iff.2 ⟨cells, hv, ho⟩⟩
      · rename_i hc
        refine iff_of_false (by simp) fun h => hc ?_
        simpa using h.1.1

end

end Answers

namespace Tool.Gives

variable {τ : Type} {tool : Tool τ} {answers : Answers}

theorem fetchColumns (hg : tool.Gives answers) {source : Path} {delimiter : Char}
    {headers : List String} (hh : answers.headers source delimiter = .ok headers)
    (names : List String) (columns : Columns) :
    (ColumnSieve.fetchColumns tool source delimiter headers names columns).Returns
      (answers.fetchColumns source delimiter headers names columns) := by
  induction names generalizing columns with
  | nil => exact .pure columns
  | cons name names ih =>
    unfold ColumnSieve.fetchColumns Answers.fetchColumns
    split
    · exact ih columns
    · split
      · rename_i hc
        exact (hg.values source delimiter headers name hh (by simpa using hc)).bind
          fun cells _ => ih _
      · exact .throw _

theorem selectIdentifiers (hg : tool.Gives answers) (delimiter : Char) (query : Query) :
    (ColumnSieve.selectIdentifiers tool delimiter query).Returns
      (answers.selectIdentifiers delimiter query) := by
  refine (hg.headers _ _).bind fun headers hh => ?_
  refine (hg.fetchColumns hh _ _).bind fun columns _ => ?_
  -- what follows is computed without the world
  have lift : ∀ {α : Type} (result : Except Error α),
      Action.Returns (selectIdentifiers.liftExcept (τ := τ) result) result :=
    fun result world => rfl
  exact (lift _).bind fun rows _ => lift _

/-- **A plan for a target that exists is the computation on the answers.** -/
theorem plan_eq (hg : tool.Gives answers) {queries : List Query} {target : Path}
    {options : Options} {world : World τ} (ht : world.files.isFile target = true) :
    (plan tool queries target options world).1 = answers.plan queries target options := by
  unfold plan
  rw [if_pos ht]
  refine ((Action.Returns.mapM (hg.selectIdentifiers _) queries).bind fun sets _ => ?_) world
  refine (hg.headers _ _).bind fun headers _ => ?_
  cases selectColumns options.mode options.alwaysInclude headers options.ignoreMissing sets with
  | error e => exact .throw e
  | ok selection => exact .pure _

/-- What holds between the plans on the answers of two tools holds between the plans that are made
with them, if each of these answers has a plan when the other has. -/
theorem plan_congr {τ' : Type} {tool' : Tool τ'} {answers' : Answers}
    {queries queries' : List Query} {target : Path} {options : Options} {world : World τ}
    {world' : World τ'} {Like : Plan → Plan → Prop} (hg : tool.Gives answers)
    (hg' : tool'.Gives answers')
    (hfile : world.files.isFile target = world'.files.isFile target)
    (hto : ∀ made, answers.plan queries target options = .ok made →
      ∃ made', answers'.plan queries' target options = .ok made' ∧ Like made made')
    (hfrom : ∀ made', answers'.plan queries' target options = .ok made' →
      ∃ made, answers.plan queries target options = .ok made) :
    ((∃ made, (plan tool queries target options world).1 = .ok made) ↔
      ∃ made', (plan tool' queries' target options world').1 = .ok made') ∧
    ∀ made made', (plan tool queries target options world).1 = .ok made →
      (plan tool' queries' target options world').1 = .ok made' → Like made made' := by
  by_cases hin : world.files.isFile target = true
  · rw [hg.plan_eq hin, hg'.plan_eq (hfile ▸ hin)]
    refine ⟨⟨?_, ?_⟩, ?_⟩
    · rintro ⟨made, h⟩
      obtain ⟨made', h', -⟩ := hto made h
      exact ⟨made', h'⟩
    · rintro ⟨made', h'⟩
      exact hfrom made' h'
    · intro made made' h h'
      obtain ⟨found, hfound, hlike⟩ := hto made h
      cases h'.symm.trans hfound
      exact hlike
  · -- without the target both fail
    have hout : ¬ world'.files.isFile target = true := hfile ▸ hin
    unfold plan
    rw [if_neg hin, if_neg hout]
    simp

end Tool.Gives

end ColumnSieve
