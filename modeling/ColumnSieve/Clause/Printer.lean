import ColumnSieve.Clause.Basic

/-!
# The written form of clauses

A clause is written as its sign, its column, its comparator and its values.  A lone value
stands bare unless it looks like a list; all other values stand in brackets, with commas
between them.  The text of a chain is that of its clauses, one after the other.
-/

namespace ColumnSieve

/-- A text that starts with an opening and ends with a closing bracket; one bracket alone may
not do both, so the two characters are looked at one by one. -/
def looksListed (value : List Char) : Bool :=
  value.head? == some '[' && value.getLast? == some ']'

/-- Values in brackets, with commas between them. -/
def listed (values : List (List Char)) : List Char :=
  '[' :: (List.intercalate [','] values ++ [']'])

namespace Clause

/-- The values as they stand behind the comparator. -/
def valueChars : List (List Char) → List Char
  | [value] => if looksListed value then listed [value] else value
  | values => listed values

def chars (clause : Clause) : List Char :=
  clause.combinator.sign ::
    (clause.column.toList ++ clause.comparator.symbol ++
      valueChars (clause.values.map String.toList))

/-- The clause as it is written in a query. -/
def render (clause : Clause) : String := String.ofList clause.chars

/-- A chain as it is written in a query. -/
def renderChain (clauses : List Clause) : String := String.ofList (clauses.flatMap chars)

end Clause

end ColumnSieve
