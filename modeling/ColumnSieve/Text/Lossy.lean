/-!
# Reading bytes as text, whatever they are

Valid UTF-8 is read as it is.  In other bytes each longest start of a character that is not
continued as it has to be, and each byte that starts no character, reads as U+FFFD.
-/

namespace ColumnSieve.Text

/-- A character begun: the bytes it still needs, its value so far, and the bounds of the next
byte. -/
structure Partial where
  owed : Nat
  value : Nat
  low : Nat
  high : Nat

/-- Stands for bytes that make no character. -/
def replacement : Char := Char.ofNat 0xFFFD

/-- What the first byte of a character begins, if it begins one of several bytes. -/
def Partial.ofLead? (b : Nat) : Option Partial :=
  if 0xC2 ≤ b ∧ b ≤ 0xDF then some ⟨1, b - 0xC0, 0x80, 0xBF⟩
  else if b = 0xE0 then some ⟨2, b - 0xE0, 0xA0, 0xBF⟩
  else if b = 0xED then some ⟨2, b - 0xE0, 0x80, 0x9F⟩
  else if 0xE1 ≤ b ∧ b ≤ 0xEF then some ⟨2, b - 0xE0, 0x80, 0xBF⟩
  else if b = 0xF0 then some ⟨3, b - 0xF0, 0x90, 0xBF⟩
  else if 0xF1 ≤ b ∧ b ≤ 0xF3 then some ⟨3, b - 0xF0, 0x80, 0xBF⟩
  else if b = 0xF4 then some ⟨3, b - 0xF0, 0x80, 0x8F⟩
  else none

/-- A byte between two characters: the text it gives at once, or the character it begins. -/
def startByte (b : Nat) : List Char × Option Partial :=
  if b < 0x80 then ([Char.ofNat b], none)
  else
    match Partial.ofLead? b with
    | some p => ([], some p)
    | none => ([replacement], none)

/-- A byte inside a character. -/
def nextByte (p : Partial) (b : Nat) : List Char × Option Partial :=
  if p.low ≤ b ∧ b ≤ p.high then
    let value := 64 * p.value + (b - 0x80)
    if p.owed = 1 then ([Char.ofNat value], none) else ([], some ⟨p.owed - 1, value, 0x80, 0xBF⟩)
  else (replacement :: (startByte b).1, (startByte b).2)

def scanBytes : Option Partial → List UInt8 → List Char
  | none, [] => []
  | some _, [] => [replacement]
  | none, b :: s => (startByte b.toNat).1 ++ scanBytes (startByte b.toNat).2 s
  | some p, b :: s => (nextByte p b.toNat).1 ++ scanBytes (nextByte p b.toNat).2 s

/-- The text of some bytes. -/
def ofBytes (bytes : ByteArray) : String :=
  match String.fromUTF8? bytes with
  | some text => text
  | none => String.ofList (scanBytes none bytes.data.toList)

end ColumnSieve.Text
