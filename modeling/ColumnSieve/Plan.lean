import ColumnSieve.Column.Runs
import ColumnSieve.Query.Basic
import ColumnSieve.Selection.Rows
import ColumnSieve.Selection.Target
import ColumnSieve.Tool.Basic

/-!
# Planning and performing a split

* `fetchColumns`      — the cells that a query needs, each column fetched once;
* `selectIdentifiers` — the identifiers that one query selects;
* `plan`              — the columns of the target that some queries select;
* `run`               — the plan, carried out.
-/

namespace ColumnSieve

/-- What the user decides about a split, apart from its queries and files. -/
structure Options where
  /-- Drop selected identifiers that the target lacks, instead of failing. -/
  ignoreMissing : Bool
  /-- Delimiter of the target table. -/
  delimiter : Char
  /-- Delimiter of the metadata tables. -/
  metadataDelimiter : Char
  /-- Identifiers to extract whatever the queries select. -/
  alwaysInclude : List String
  mode : Mode
  deriving DecidableEq, Repr

/-- All that is decided before anything is extracted. -/
structure Plan where
  /-- The selected identifiers, in the order of their selection. -/
  identifiers : List String
  /-- The columns of the target that they name. -/
  columns : List Column
  /-- The same columns as they are given to the tool. -/
  spec : Spec
  /-- The number of columns of the target. -/
  targetColumns : Nat
  deriving DecidableEq, Repr

section

variable {τ : Type}

/-- Fetches the named columns of a table, each once and only if it is among the headers. -/
def fetchColumns (tool : Tool τ) (source : Path) (delimiter : Char) (headers : List String) :
    List String → Columns → Action τ Error Columns
  | [], columns => pure columns
  | name :: names, columns =>
    if (columns.lookup name).isSome then
      fetchColumns tool source delimiter headers names columns
    else if headers.contains name then do
      let cells ← tool.values source name delimiter
      fetchColumns tool source delimiter headers names (columns ++ [(name, cells)])
    else
      throw (.missingColumn name source)

/-- The identifiers that a query selects in its table. -/
def selectIdentifiers (tool : Tool τ) (delimiter : Char) (query : Query) :
    Action τ Error (List String) := do
  let headers ← tool.headers query.source delimiter
  let columns ← fetchColumns tool query.source delimiter headers
    (query.columns ++ [query.idColumn]) []
  let rows ← liftExcept (selectRows query.source columns query.clauses)
  liftExcept (lookUpIdentifiers rows ((columns.lookup query.idColumn).getD []))
where
  /-- A computation without effects as an action. -/
  liftExcept {α : Type} (result : Except Error α) : Action τ Error α := fun world =>
    (result, world)

/-- Works out which columns of the target the queries select, without extracting them. -/
def plan (tool : Tool τ) (queries : List Query) (target : Path) (options : Options) :
    Action τ Error Plan := fun world =>
  if world.files.isFile target then
    (do
      let sets ← queries.mapM (selectIdentifiers tool options.metadataDelimiter)
      let headers ← tool.headers target options.delimiter
      match selectColumns options.mode options.alwaysInclude headers options.ignoreMissing sets with
      | .error e => throw e
      | .ok selection =>
        return ⟨selection.identifiers, selection.columns, Spec.ofColumns selection.columns,
          headers.length⟩ : Action τ Error Plan) world
  else
    (.error (.sourceNotFound target), world)

/-- Extracts the columns that the queries select from the target into the destination, which
is touched only when the extraction has succeeded. -/
def run (tool : Tool τ) (nonce : UInt64) (queries : List Query) (target destination : Path)
    (options : Options) : Action τ Error Plan := do
  let plan ← plan tool queries target options
  writeWith .file nonce destination fun temp =>
    tool.extract target plan.spec options.delimiter temp
  return plan

end

end ColumnSieve
