import ColumnSieve.Clause.Parser
import ColumnSieve.Environment
import ColumnSieve.FileTree.Basic
import ColumnSieve.Query.Basic

/-!
# Reading queries

* `resolveSource` — the regular file that the path of a query leads to;
* `Query.read`    — a query whose table has been found.

Of several faults the first of these counts: the shape of the query, its clauses, its table.
-/

namespace ColumnSieve

/-- Replaces a leading `~/` by the user's own directory. -/
def expandHome (env : Environment) (path : List Char) : Path :=
  match path, env.home? with
  | '~' :: '/' :: rest, some home => home.join ⟨String.ofList rest⟩
  | _, _ => ⟨String.ofList path⟩

/-- The absolute path of the file that a path leads to.  Whatever goes wrong, the file is
reported as missing, by its path without a leading `~/`. -/
def resolveSource (env : Environment) (files : FileTree) (path : List Char) :
    Except Error Path :=
  let expanded := expandHome env path
  match files.canonicalize expanded with
  | .error _ => .error (.sourceNotFound expanded)
  | .ok resolved =>
    if files.isFile resolved then .ok resolved else .error (.sourceNotFound expanded)

namespace Query

def read (env : Environment) (files : FileTree) (raw : String) : Except Error Query :=
  match split? raw.toList with
  | none => .error (.invalidQuery raw)
  | some (path, idColumn, chain) =>
    match Clause.parseChars chain with
    | .error e => .error (.invalidClause e)
    | .ok clauses =>
      match resolveSource env files path with
      | .error e => .error e
      | .ok source => .ok ⟨raw, source, String.ofList idColumn, clauses⟩

/-- Several queries; the first that cannot be read is reported. -/
def readAll (env : Environment) (files : FileTree) (raws : List String) :
    Except Error (List Query) :=
  raws.mapM (read env files)

end Query

end ColumnSieve
