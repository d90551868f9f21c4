import ColumnSieve.Clause.Printer
import ColumnSieve.Query.Basic

/-!
# The written form of queries

The source with its at signs escaped, the identifier column, and the clauses.
-/

namespace ColumnSieve

namespace Query

/-- A path as it stands in a query: a backslash before each at sign. -/
def escapePath (path : List Char) : List Char :=
  path.flatMap fun c => if c = '@' then ['\\', '@'] else [c]

def chars (query : Query) : List Char :=
  escapePath query.source.chars ++ '@' :: (query.idColumn.toList ++
    query.clauses.flatMap Clause.chars)

/-- The query in its canonical form. -/
def render (query : Query) : String := String.ofList query.chars

end Query

end ColumnSieve
