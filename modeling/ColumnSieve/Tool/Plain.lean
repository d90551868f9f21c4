import ColumnSieve.Tool.Basic

/-!
# Plain tables

A plain table is a text file with a row in each line and a delimiter between cells; there is no
quoting.  Rows may differ in length.

* `plainRows`    — the rows of a text;
* `extractRow`   — the cells of one row that a specification asks for;
* `Tool.plain`   — the tool that reads and writes plain tables.
-/

namespace ColumnSieve

/-- The rows of a text.  A line feed at the end does not start another row. -/
def plainRows (delimiter : Char) (text : List Char) : List (List String) :=
  let body := if text.getLast? = some '\n' then text.dropLast else text
  if body = [] then []
  else (body.splitOn '\n').map fun line => (line.splitOn delimiter).map String.ofList

/-- The index of a column in the rows of a table; names are looked up among the headers. -/
def columnIndex? (headers : List String) : Column → Option Nat
  | .position n => some (n - 1)
  | .name text => headers.idxOf? text

/-- The cells of a row at some indices; a row that is too short has empty cells. -/
def extractRow (indices : List Nat) (row : List String) : List String :=
  indices.map fun i => row[i]?.getD ""

/-- Rows as text, with commas between cells. -/
def writeRows (rows : List (List String)) : String :=
  String.join (rows.map fun row => ",".intercalate row ++ "\n")

namespace Tool

/-- Reads the rows of a plain table. -/
def plainTable {τ : Type} (source : Path) (delimiter : Char) :
    Action τ Error (List (List String)) := fun world =>
  match world.files.readText source with
  | .ok text => (.ok (plainRows delimiter text.toList), world)
  | .error e => (.error (.file e), world)

/-- The report on a column that a table does not have. -/
def noSuchColumn (name : String) : Error := .program name "exit status: 1" "no such column"

/-- Reads and writes plain tables; `name` is the name of the tool in errors. -/
def plain {τ : Type} (name : String) : Tool τ where
  headers source delimiter := do
    let rows ← plainTable source delimiter
    return rows.headD []
  values source column delimiter := do
    let rows ← plainTable source delimiter
    match (rows.headD []).idxOf? column with
    | none => throw (noSuchColumn name)
    | some i => return rows.tail.filterMap (·[i]?)
  extract source spec delimiter destination := do
    let rows ← plainTable source delimiter
    match spec.columns.mapM (columnIndex? (rows.headD [])) with
    | none => throw (noSuchColumn name)
    | some indices => fun world =>
      match world.files.writeFile destination (writeRows (rows.map (extractRow indices))).toUTF8 with
      | .ok files => (.ok (), { world with files := files })
      | .error e => (.error (.file e), world)

end Tool

end ColumnSieve
