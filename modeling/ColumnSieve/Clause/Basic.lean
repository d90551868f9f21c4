/-!
# Filter clauses

A clause names a column of a metadata table, the values to look for in it, and how the rows
it finds join the rows selected so far.  A chain is a list of clauses, read left to right.

* `Combinator.ofSign?` — the character that opens a clause;
* `Clause.admits` — whether a cell satisfies a clause.
-/

namespace ColumnSieve

/-- How the rows of a clause join the rows selected by the clauses before it. -/
inductive Combinator where
  | union
  | intersect
  deriving DecidableEq, Repr

/-- Whether a cell has to be, or must not be, one of the values of a clause. -/
inductive Comparator where
  | equal
  | notEqual
  deriving DecidableEq, Repr

/-- One condition on the cells of a column. -/
structure Clause where
  combinator : Combinator
  column : String
  comparator : Comparator
  values : List String
  deriving DecidableEq, Repr

namespace Combinator

/-- A question mark or a bar adds rows, an ampersand narrows them. -/
def ofSign? : Char → Option Combinator
  | '?' | '|' => some .union
  | '&' => some .intersect
  | _ => none

/-- The sign that a clause is written with. -/
def sign : Combinator → Char
  | .union => '?'
  | .intersect => '&'

def name : Combinator → String
  | .union => "union"
  | .intersect => "intersect"

theorem ofSign?_sign (c : Combinator) : ofSign? c.sign = some c := by
  cases c <;> rfl

end Combinator

/-- The characters that open a clause. -/
def isSign (c : Char) : Bool := (Combinator.ofSign? c).isSome

namespace Comparator

/-- The operator between the column and the values. -/
def symbol : Comparator → List Char
  | .equal => ['=']
  | .notEqual => ['!', '=']

def name : Comparator → String
  | .equal => "equal"
  | .notEqual => "not_equal"

end Comparator

namespace Clause

/-- Whether a cell is, or is not, one of the values, as the comparator asks. -/
def admits (clause : Clause) (cell : String) : Bool :=
  match clause.comparator with
  | .equal => clause.values.contains cell
  | .notEqual => !clause.values.contains cell

end Clause

end ColumnSieve
