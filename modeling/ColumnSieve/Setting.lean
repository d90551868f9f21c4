import ColumnSieve.Error

/-!
# Reading single settings

The texts by which a user names a delimiter or a mode.
-/

namespace ColumnSieve

namespace Setting

/-- One ASCII character stands for itself; `\t` and the word "tab" stand for a tabulator. -/
def parseDelimiter (text : String) : Except Error Char :=
  if text = "\\t" ∨ text.toLower = "tab" then .ok '\t'
  else
    match text.toList with
    | [c] => if c.toNat < 128 then .ok c else .error (.setting (.invalidDelimiter text))
    | _ => .error (.setting (.invalidDelimiter text))

def parseMode (text : String) : Except Error Mode :=
  match Mode.ofName? text with
  | some mode => .ok mode
  | none => .error (.setting (.invalidMode text))

end Setting

end ColumnSieve
