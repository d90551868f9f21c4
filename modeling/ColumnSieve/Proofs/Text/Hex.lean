import ColumnSieve.Text.Hex
import Mathlib.Algebra.Ring.Nat

/-!
# Hexadecimal digits, read back

* `hexValue`        — the number that some digits stand for;
* `IsHex`           — a number in a fixed number of lowercase digits;
* `isHex_hexDigits` — a number that fits is written so.
-/

namespace ColumnSieve.Text

def hexAlphabet : List Char := "0123456789abcdef".toList

/-- The number that some digits stand for. -/
def hexValue (digits : List Char) : Nat :=
  digits.foldl (fun value digit => 16 * value + hexAlphabet.idxOf digit) 0

/-- The number `n`, in lower case, with zeros in front that make it `width` digits. -/
structure IsHex (width n : Nat) (digits : List Char) : Prop where
  length_eq : digits.length = width
  lowercase : ∀ digit ∈ digits, digit ∈ hexAlphabet
  value_eq : hexValue digits = n

theorem hexValue_concat (digits : List Char) (digit : Char) :
    hexValue (digits ++ [digit]) = 16 * hexValue digits + hexAlphabet.idxOf digit := by
  simp [hexValue, List.foldl_append]

theorem idxOf_digitChar : ∀ d < 16, hexAlphabet.idxOf (Nat.digitChar d) = d := by decide

theorem digitChar_mem : ∀ d < 16, Nat.digitChar d ∈ hexAlphabet := by decide

theorem mem_hexAlphabet_of_mem_hexDigits {width n : Nat} {digit : Char}
    (h : digit ∈ hexDigits width n) : digit ∈ hexAlphabet := by
  induction width generalizing n with
  | zero => cases h
  | succ width ih =>
    rcases List.mem_append.1 h with h | h
    · exact ih h
    · rw [List.mem_singleton.1 h]
      exact digitChar_mem _ (Nat.mod_lt _ (by decide))

theorem hexValue_hexDigits (width n : Nat) : hexValue (hexDigits width n) = n % 16 ^ width := by
  induction width generalizing n with
  | zero => simp [hexDigits, hexValue, Nat.mod_one]
  | succ width ih =>
    have hdigit : n % 16 < 16 := Nat.mod_lt _ (by decide)
    calc hexValue (hexDigits (width + 1) n)
      _ = 16 * (n / 16 % 16 ^ width) + n % 16 := by
        rw [hexDigits, hexValue_concat, ih, idxOf_digitChar _ hdigit]
      _ = n % 16 ^ (width + 1) := by rw [Nat.pow_succ', Nat.mod_mul, Nat.add_comm]

theorem isHex_hexDigits {width n : Nat} (h : n < 16 ^ width) :
    IsHex width n (hexDigits width n) where
  length_eq := length_hexDigits width n
  lowercase _ := mem_hexAlphabet_of_mem_hexDigits
  value_eq := by rw [hexValue_hexDigits, Nat.mod_eq_of_lt h]

end ColumnSieve.Text
