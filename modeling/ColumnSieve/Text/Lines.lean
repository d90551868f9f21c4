/-!
# Lines

A line ends with a line feed, or with a carriage return and a line feed.  Text behind the last
line feed is a line if it is not empty, and a carriage return at its end belongs to it.
-/

namespace ColumnSieve.Text

/-- Without a carriage return at the end. -/
def dropReturn (line : List Char) : List Char :=
  if line.getLast? = some '\r' then line.dropLast else line

def lines (s : List Char) : List (List Char) :=
  let pieces := s.splitOn '\n'
  pieces.dropLast.map dropReturn ++
    match pieces.getLast? with
    | none | some [] => []
    | some rest => [rest]

end ColumnSieve.Text
