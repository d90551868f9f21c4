import ColumnSieve.Error
import ColumnSieve.Text.Cut

/-!
# Reading clauses

* `segments`         — a chain is cut before every sign but the one it opens with;
* `Clause.ofSegment` — the clause that one segment stands for, or what is wrong with it;
* `Clause.parse`     — the clauses of a whole chain; of several faults the leftmost counts.
-/

namespace ColumnSieve

/-- Cuts a chain into segments: a new one starts at every sign but the first character. -/
def segments (chain : List Char) : List (List Char) :=
  chain.splitBy fun _ next => !isSign next

/-- The text inside a pair of enclosing brackets. -/
def unbracket? : List Char → Option (List Char)
  | '[' :: s => if s.getLast? = some ']' then some s.dropLast else none
  | _ => none

/-- A bracketed text lists its values with commas between them, any other text is one value.
A value that was named before is not named again. -/
def parseValues (text : List Char) : List (List Char) :=
  match unbracket? text with
  | some inner => (inner.splitOn ',').eraseDups
  | none => [text]

/-- Column, comparator and values of a segment without its sign.  The unequal sign holds an
equal sign, so it is looked for first, in the whole text. -/
def cutComparator? (body : List Char) : Option (List Char × Comparator × List Char) :=
  match Text.cutAt? Comparator.notEqual.symbol body with
  | some (column, values) => some (column, .notEqual, values)
  | none =>
    match Text.cutAt? Comparator.equal.symbol body with
    | some (column, values) => some (column, .equal, values)
    | none => none

namespace Clause

/-- The clause of one segment. -/
def ofSegment (segment : List Char) : Except ClauseError Clause :=
  match segment.head?.bind Combinator.ofSign? with
  | none => .error (.noSign (String.ofList segment))
  | some combinator =>
    match cutComparator? segment.tail with
    | none => .error (.noComparator (String.ofList segment))
    | some ([], _, _) => .error (.noColumn (String.ofList segment))
    | some (column, comparator, values) =>
      .ok ⟨combinator, String.ofList column, comparator, (parseValues values).map String.ofList⟩

/-- The clauses of a chain, one for each segment. -/
def parseChars (chain : List Char) : Except ClauseError (List Clause) :=
  match chain with
  | [] => .error .noClauses
  | _ :: _ => (segments chain).mapM ofSegment

def parse (chain : String) : Except Error (List Clause) :=
  (parseChars chain.toList).mapError .invalidClause

end Clause

end ColumnSieve
