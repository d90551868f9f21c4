import ColumnSieve.Column.Basic
import ColumnSieve.Error
import ColumnSieve.Selection.Combine

/-!
# Identifiers as columns of the target table

* `headerPosition?` — where a header stands first, counted from one;
* `selectColumns`   — the identifiers to keep, with the column of the target for each.
-/

namespace ColumnSieve

/-- The identifiers to extract and the columns of the target that they name. -/
structure Selection where
  identifiers : List String
  columns : List Column
  deriving DecidableEq, Repr

/-- The first position of a header, counted from one. -/
def headerPosition? (headers : List String) (identifier : String) : Option Nat :=
  (headers.idxOf? identifier).map (· + 1)

/-- A header by its position; an identifier that heads no column by its name. -/
def columnOf (headers : List String) (identifier : String) : Column :=
  match headerPosition? headers identifier with
  | some position => .position position
  | none => .name identifier

/-- Matches the combined identifiers with the headers of the target.  Identifiers that head no
column are an error, or are dropped when `ignoreMissing` is set.  The identifiers to include
always are added without that check, so they cannot rescue an empty selection. -/
def selectColumns (mode : Mode) (alwaysInclude headers : List String) (ignoreMissing : Bool)
    (sets : List (List String)) : Except Error Selection :=
  let combined := combine mode sets
  let present := combined.filter headers.contains
  let missing := combined.filter fun id => !headers.contains id
  if combined = [] then
    .error (.emptySelection (.nothingSelected mode))
  else if missing ≠ [] ∧ ignoreMissing = false then
    .error (.missingHeaders missing)
  else if present = [] then
    .error (.emptySelection .nothingSurvived)
  else
    let identifiers := (present ++ alwaysInclude).eraseDups
    .ok ⟨identifiers, identifiers.map (columnOf headers)⟩

end ColumnSieve
