/-!
# Columns of the target table

A column is referred to by its position, counted from one, or by its name.  A specification is
a list of tokens: a single position, a range of positions with both ends included, or a name.

* `Token.columns` — the columns that a token stands for.
-/

namespace ColumnSieve

/-- A column of the target table. -/
inductive Column where
  | position (n : Nat)
  | name (text : String)
  deriving DecidableEq, Repr

/-- One element of a column specification. -/
inductive Token where
  | single (n : Nat)
  | range (first last : Nat)
  | name (text : String)
  deriving DecidableEq, Repr

/-- The columns to extract, in order. -/
structure Spec where
  tokens : List Token
  deriving DecidableEq, Repr

namespace Column

def position? : Column → Option Nat
  | .position n => some n
  | .name _ => none

def name? : Column → Option String
  | .position _ => none
  | .name text => some text

end Column

namespace Token

/-- The ends of the run of positions that a token covers; a name covers none. -/
def ends? : Token → Option (Nat × Nat)
  | .single n => some (n, n)
  | .range first last => some (first, last)
  | .name _ => none

/-- The columns that a token stands for, a range with all its positions. -/
def columns : Token → List Column
  | .single n => [.position n]
  | .range first last => (List.range' first (last + 1 - first)).map .position
  | .name text => [.name text]

end Token

namespace Spec

/-- The columns that a specification stands for, in order. -/
def columns (spec : Spec) : List Column := spec.tokens.flatMap Token.columns

end Spec

end ColumnSieve
