import ColumnSieve.Column.Basic
import ColumnSieve.NatSet

/-!
# Folding positions into runs

* `Token.runs`       — ascending positions as single positions and ranges;
* `Token.ofPositions` — the same for positions in any order, with repetitions;
* `Spec.ofColumns`   — positions folded into runs, with the names behind them.
-/

namespace ColumnSieve

/-- The position after `n`; positions are words of 64 bits, so the last one is followed by
zero. -/
def nextPosition (n : Nat) : Nat := (n + 1) % UInt64.size

namespace Token

/-- Puts a position in front of the tokens of greater positions: it lengthens the first run if
it is adjacent to it. -/
def before (p : Nat) : List Token → List Token
  | .single q :: tokens =>
    if q = nextPosition p then .range p q :: tokens else .single p :: .single q :: tokens
  | .range q r :: tokens =>
    if q = nextPosition p then .range p r :: tokens else .single p :: .range q r :: tokens
  | tokens => .single p :: tokens

/-- The runs of ascending positions. -/
def runs (positions : List Nat) : List Token := positions.foldr before []

/-- The runs of the positions in a list. -/
def ofPositions (positions : List Nat) : List Token := runs (NatSet.ofList positions).toList

end Token

namespace Spec

/-- The positions of some columns in runs, then the names in their order. -/
def ofColumns (columns : List Column) : Spec :=
  ⟨Token.ofPositions (columns.filterMap Column.position?) ++
    (columns.filterMap Column.name?).map Token.name⟩

end Spec

end ColumnSieve
