/-!
# Combining several queries

The mode says which identifiers are kept when several queries select some.
-/

namespace ColumnSieve

/-- Keep the identifiers that any query selects, or those that every query selects. -/
inductive Mode where
  | union
  | intersect
  deriving DecidableEq, Repr, Inhabited

namespace Mode

def name : Mode → String
  | .union => "union"
  | .intersect => "intersect"

/-- Reads a mode without regard to case.  No letter outside ASCII has a lower case made of
the letters of these words, so the ASCII case map decides. -/
def ofName? (text : String) : Option Mode :=
  match text.toLower with
  | "union" => some .union
  | "intersect" | "intersection" => some .intersect
  | _ => none

end Mode

end ColumnSieve
