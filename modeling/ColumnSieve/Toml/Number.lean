import ColumnSieve.Toml.Table
import ColumnSieve.Toml.Text

/-!
# TOML numbers, dates and times

* `integer`  — words of 64 bits, in four bases;
* `float`    — decimal numbers that do not round to infinity, infinity itself, and NaN;
* `dateTime` — dates that are in the calendar, times, and both together.
-/

namespace ColumnSieve.Toml

open Reader

/-! ## Digits -/

/-- Digits that follow a digit; single underscores may stand between digits. -/
def digitRun (test : Char → Bool) : List Char → List Char × List Char
  | [] => ([], [])
  | '_' :: d :: s =>
    if test d then (d :: (digitRun test s).1, (digitRun test s).2) else ([], '_' :: d :: s)
  | c :: s => if test c then (c :: (digitRun test s).1, (digitRun test s).2) else ([], c :: s)

def digits (test : Char → Bool) : Reader (List Char) := do
  let first ← satisfy test
  let rest ← fun s => some (digitRun test s)
  return first :: rest

/-- The number that some digits denote. -/
def ofDigits (base : Nat) (ds : List Char) : Nat :=
  ds.foldl (fun n d => base * n + (hexValue? d).getD 0) 0

/-- Whether a number has a minus sign. -/
def sign : Reader Bool :=
  (do exactly ['-']; return true) <|> (do exactly ['+']; return false) <|> return false

/-- A decimal number without needless zeros in front. -/
def decimal : Reader (List Char) :=
  (do exactly ['0']; return ['0']) <|> digits Char.isDigit

/-! ## Integers -/

/-- Integers are words of 64 bits with a sign. -/
def integerBound : Nat := 9223372036854775808

def inBase (mark : Char) (base : Nat) : Reader Value := do
  exactly ['0', mark]
  let ds ← digits fun c => match hexValue? c with
    | some d => d < base
    | none => false
  let n := ofDigits base ds
  if n < integerBound then return .integer n else failure

def integer : Reader Value :=
  inBase 'x' 16 <|> inBase 'o' 8 <|> inBase 'b' 2 <|> do
    let negative ← sign
    let n : Int := ofDigits 10 (← decimal)
    let n := if negative then -n else n
    if -integerBound ≤ n ∧ n < integerBound then return .integer n else failure

/-! ## Floats -/

/-- Whether `m * 10 ^ e` rounds to a finite number of double precision: it is less than the
middle between the greatest such number and the power of two behind it.  Far from that bound
the number of digits decides. -/
def isFinite (m : Nat) (e : Int) : Bool :=
  let size : Int := (Nat.toDigits 10 m).length + e
  if m = 0 ∨ size < 300 then true
  else if 320 < size then false
  else
    let bound := (Nat.pow 2 54 - 1) * Nat.pow 2 970
    if 0 ≤ e then m * Nat.pow 10 e.toNat < bound else m < bound * Nat.pow 10 (-e).toNat

def exponent : Reader Int := do
  let _ ← satisfy fun c => c == 'e' || c == 'E'
  let negative ← sign
  let n : Int := ofDigits 10 (← digits Char.isDigit)
  return if negative then -n else n

def fraction : Reader (List Char) := do
  exactly ['.']
  digits Char.isDigit

/-- A number with a fraction, an exponent, or both.  Only a number that rounds to positive
infinity is refused. -/
def decimalFloat : Reader Value := do
  let negative ← sign
  let whole ← decimal
  let (part, e) ← (do return ([], ← exponent)) <|> do
    let part ← fraction
    return (part, (← optionally exponent).getD 0)
  let m := ofDigits 10 (whole ++ part)
  if negative || isFinite m (e - part.length) then return .float else failure

def float : Reader Value :=
  decimalFloat <|> do
    let _ ← sign
    exactly ['i', 'n', 'f'] <|> exactly ['n', 'a', 'n']
    return .float

/-! ## Dates and times -/

/-- A number of exactly so many digits, within bounds. -/
def field (width low high : Nat) : Reader Nat := fun s =>
  let ds := s.take width
  let n := ofDigits 10 ds
  if ds.length = width ∧ ds.all Char.isDigit ∧ low ≤ n ∧ n ≤ high then some (n, s.drop width)
  else none

def daysOf (year month : Nat) : Nat :=
  if month = 2 then
    if year % 4 = 0 ∧ (year % 100 ≠ 0 ∨ year % 400 = 0) then 29 else 28
  else if month = 4 ∨ month = 6 ∨ month = 9 ∨ month = 11 then 30
  else 31

def date : Reader Unit := do
  let year ← field 4 0 9999
  exactly ['-']
  let month ← field 2 1 12
  exactly ['-']
  let _ ← field 2 1 (daysOf year month)

/-- A time of day; a minute may have a leap second. -/
def time : Reader Unit := do
  let _ ← field 2 0 23
  exactly [':']
  let _ ← field 2 0 59
  exactly [':']
  let _ ← field 2 0 60
  let _ ← optionally (do exactly ['.']; let _ ← whilst1 Char.isDigit)

def offset : Reader Unit :=
  (do let _ ← satisfy fun c => c == 'Z' || c == 'z') <|> do
    let _ ← satisfy fun c => c == '+' || c == '-'
    let _ ← field 2 0 23
    exactly [':']
    let _ ← field 2 0 59

def dateTime : Reader Value := do
  (do
    date
    let _ ← optionally (do
      let _ ← satisfy fun c => c == 'T' || c == 't' || c == ' '
      time
      let _ ← optionally offset)) <|> time
  return .dateTime

end ColumnSieve.Toml
