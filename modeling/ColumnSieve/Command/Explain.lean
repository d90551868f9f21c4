import ColumnSieve.Command.Arguments
import ColumnSieve.Json
import ColumnSieve.Query.Printer
import ColumnSieve.Query.Reader

/-!
# The command `explain`

Shows how queries are understood, as a table for people or as JSON for programs.  Queries are
read before the format is looked at.
-/

namespace ColumnSieve.Command

/-! ## As JSON -/

def clauseRecord (clause : Clause) : Json.Value :=
  .record
    [("filter_variable", .text clause.column),
      ("comparator", .text clause.comparator.name),
      ("combinator", .text clause.combinator.name),
      ("filter_values", .list (clause.values.map .text))]

def queryRecord (query : Query) : Json.Value :=
  .record
    [("raw", .text query.raw),
      ("source", .text query.source.text),
      ("id_column", .text query.idColumn),
      ("clauses", .list (query.clauses.map clauseRecord))]

/-! ## As a table -/

/-- A clause as a line, its combinator in a column of fixed width. -/
def clauseLine (clause : Clause) : String :=
  let combinator := String.ofList (clause.combinator.name.toList.rightpad 9 ' ')
  let comparator := String.ofList clause.comparator.symbol
  s!"  {combinator}  {clause.column} {comparator} [" ++ ", ".intercalate clause.values ++ "]\n"

def queryLines (query : Query) : String :=
  s!"{query.render}\n  source:    {query.source}\n  id column: {query.idColumn}\n" ++
    String.join (query.clauses.map clauseLine)

/-! ## The command -/

/-- Queries in the format of that name. -/
def showQueries (format : String) (queries : List Query) : Except Error String :=
  match format with
  | "json" => .ok ((Json.Value.list (queries.map queryRecord)).pretty ++ "\n")
  | "table" => .ok ("\n".intercalate (queries.map queryLines))
  | _ => .error (.setting (.unknownFormat format))

def explain (env : Environment) (files : FileTree) (request : ExplainRequest) :
    Except Error String :=
  match Query.readAll env files request.queries with
  | .error e => .error e
  | .ok queries => showQueries request.format queries

end ColumnSieve.Command
