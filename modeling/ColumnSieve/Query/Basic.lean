import ColumnSieve.Clause.Basic
import ColumnSieve.Path

/-!
# Metadata queries

A query names a metadata table, the column that holds the identifiers, and a chain of clauses:
`<path>@<id-column><clauses>`.  An at sign in the path is written with a backslash before it; a
backslash anywhere else stands for itself.

* `Query.split?`  — the three parts of a raw query;
* `Query.columns` — the columns that the clauses ask about.
-/

namespace ColumnSieve

structure Query where
  raw : String
  source : Path
  idColumn : String
  clauses : List Clause
  deriving DecidableEq, Repr

namespace Query

/-- The path in front of the first bare at sign, and the text behind the sign. -/
def splitPath? : List Char → Option (List Char × List Char)
  | [] => none
  | '@' :: s => some ([], s)
  | '\\' :: '@' :: s => (splitPath? s).map fun p => ('@' :: p.1, p.2)
  | c :: s => (splitPath? s).map fun p => (c :: p.1, p.2)

/-- Path, identifier column and chain of a raw query.  The chain starts at the first sign
behind the at sign; path and column must not be empty. -/
def split? (raw : List Char) : Option (List Char × List Char × List Char) :=
  match splitPath? raw with
  | none => none
  | some (path, rest) =>
    let idColumn := rest.takeWhile fun c => !isSign c
    let chain := rest.dropWhile fun c => !isSign c
    if chain = [] ∨ path = [] ∨ idColumn = [] then none else some (path, idColumn, chain)

/-- The columns that the clauses ask about, in the order in which they are first named. -/
def columns (query : Query) : List String := (query.clauses.map Clause.column).eraseDups

end Query

end ColumnSieve
