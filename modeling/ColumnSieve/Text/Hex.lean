/-!
# Hexadecimal digits

* `hexDigits`        — a number in a fixed number of digits;
* `length_hexDigits` — that number of digits.
-/

namespace ColumnSieve.Text

/-- The last `width` hexadecimal digits of a number, in lower case, with zeros in front. -/
def hexDigits : Nat → Nat → List Char
  | 0, _ => []
  | width + 1, n => hexDigits width (n / 16) ++ [Nat.digitChar (n % 16)]

theorem length_hexDigits (width n : Nat) : (hexDigits width n).length = width := by
  induction width generalizing n with
  | zero => rfl
  | succ width ih => simp [hexDigits, ih]

end ColumnSieve.Text
