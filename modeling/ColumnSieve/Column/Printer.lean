import ColumnSieve.Column.Basic

/-!
# The written form of column specifications

Tokens are joined by commas.  A name stands in double quotes, and a quote inside it is written
twice, so a name is never read as a position or a range.
-/

namespace ColumnSieve

/-- A text in double quotes, its own quotes doubled. -/
def quoted (text : List Char) : List Char :=
  '"' :: (text.flatMap fun c => if c = '"' then ['"', '"'] else [c]) ++ ['"']

namespace Token

def chars : Token → List Char
  | .single n => Nat.toDigits 10 n
  | .range first last => Nat.toDigits 10 first ++ '-' :: Nat.toDigits 10 last
  | .name text => quoted text.toList

def render (token : Token) : String := String.ofList token.chars

end Token

namespace Spec

/-- The specification as the extracting program reads it. -/
def render (spec : Spec) : String :=
  String.ofList (List.intercalate [','] (spec.tokens.map Token.chars))

end Spec

end ColumnSieve
