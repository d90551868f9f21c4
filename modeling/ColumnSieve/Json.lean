import ColumnSieve.Text.Hex

/-!
# Printing JSON

Texts, lists and records, printed over several lines and indented by two spaces a level.

* `Value`        — what is printed;
* `Value.pretty` — its text.
-/

namespace ColumnSieve.Json

inductive Value where
  | text (text : String)
  | list (items : List Value)
  | record (fields : List (String × Value))
  deriving Repr

/-- A character within quotes.  Quotes, backslashes and control characters are escaped; all
others stand for themselves. -/
def escapeChar (c : Char) : List Char :=
  if c = '"' then ['\\', '"']
  else if c = '\\' then ['\\', '\\']
  else if c = '\n' then ['\\', 'n']
  else if c = '\r' then ['\\', 'r']
  else if c = '\t' then ['\\', 't']
  else if c = '\x08' then ['\\', 'b']
  else if c = '\x0c' then ['\\', 'f']
  else if c.toNat < 32 then '\\' :: 'u' :: Text.hexDigits 4 c.toNat
  else [c]

def quote (text : String) : List Char := '"' :: (text.toList.flatMap escapeChar ++ ['"'])

/-- The start of a line at some depth. -/
def newLine (depth : Nat) : List Char := '\n' :: List.replicate (2 * depth) ' '

/-- Parts between brackets: each on a line of its own, one level deeper than the brackets. -/
def enclose (depth : Nat) (opening closing : Char) : List (List Char) → List Char
  | [] => [opening, closing]
  | parts =>
    let inner := newLine (depth + 1)
    opening :: (inner ++ List.intercalate (',' :: inner) parts ++ newLine depth ++ [closing])

mutual

def Value.chars (depth : Nat) : Value → List Char
  | .text text => quote text
  | .list items => enclose depth '[' ']' (itemChars (depth + 1) items)
  | .record fields => enclose depth '\x7b' '\x7d' (fieldChars (depth + 1) fields)

def itemChars (depth : Nat) : List Value → List (List Char)
  | [] => []
  | item :: items => item.chars depth :: itemChars depth items

def fieldChars (depth : Nat) : List (String × Value) → List (List Char)
  | [] => []
  | (key, value) :: fields =>
    (quote key ++ ':' :: ' ' :: value.chars depth) :: fieldChars depth fields

end

def Value.pretty (value : Value) : String := String.ofList (value.chars 0)

end ColumnSieve.Json
