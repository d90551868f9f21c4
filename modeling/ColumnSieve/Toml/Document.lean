import ColumnSieve.Toml.Number

/-!
# TOML documents

* `scalar`, `value` — values; arrays and inline tables are nested only so deep;
* `statement`       — a line;
* `Toml.parse`      — the table that a text denotes, or nothing if the text is no document.
-/

namespace ColumnSieve.Toml

open Reader

/-! ## Values -/

def boolean : Reader Value :=
  (do exactly ['t', 'r', 'u', 'e']; return .boolean true) <|> do
    exactly ['f', 'a', 'l', 's', 'e']
    return .boolean false

def scalar : Reader Value :=
  (do return .string (← string)) <|> dateTime <|> float <|> integer <|> boolean

/-- An array, which may run over lines and end with a comma. -/
def arrayOf (item : Reader Value) : Reader Value := do
  exactly ['[']
  let items ← separated (do blanks; let v ← item; blanks; return v) (exactly [','])
  if items.length ≠ 0 then
    let _ ← optionally (exactly [','])
  blanks
  exactly [']']
  return .array items

/-- A key and its value, and the spaces around them. -/
def pairOf (item : Reader Value) : Reader (List String × String × Value) := do
  let (path, key) ← dottedKey
  exactly ['=']
  spaces
  let v ← item
  spaces
  return (path, key, v)

/-- A table on one line. -/
def inlineTableOf (item : Reader Value) : Reader Value := do
  exactly ['\x7b']
  let pairs ← separated (pairOf item) (exactly [','])
  spaces
  exactly ['\x7d']
  match pairs.foldlM (fun entries p => assign entries p.1 p.2.1 p.2.2) [] with
  | some entries => return .inlineTable entries
  | none => failure

/-- A value with at most so many arrays and inline tables around its parts. -/
def value : Nat → Reader Value
  | 0 => scalar
  | depth + 1 => arrayOf (value depth) <|> inlineTableOf (value depth) <|> scalar

/-! ## Lines -/

def assignment : Reader Statement := do
  let (path, key) ← dottedKey
  exactly ['=']
  spaces
  let v ← value (depthLimit - 1)
  lineRest
  return .assignment path key v

def arrayHeader : Reader Statement := do
  exactly ['[', '[']
  let (path, key) ← dottedKey
  exactly [']', ']']
  lineRest
  return .arrayHeader path key

def header : Reader Statement := do
  exactly ['[']
  let (path, key) ← dottedKey
  exactly [']']
  lineRest
  return .header path key

/-- One line; empty lines and lines with only a comment say nothing. -/
def statement : Reader (Option Statement) := do
  let found ← (do newline; return none) <|> (do comment; lineEnd; return none) <|>
    (do return some (← arrayHeader)) <|> (do return some (← header)) <|>
    (do return some (← assignment))
  spaces
  return found

/-- All lines of a text.  A byte order mark may stand before the first. -/
def document : Reader (List Statement) := do
  let _ ← optionally (satisfy fun c => c.toNat = 0xFEFF)
  spaces
  let found ← many statement
  atEnd
  return found.filterMap id

def parse (text : String) : Option Entries :=
  match document text.toList with
  | some (statements, _) => build statements
  | none => none

end ColumnSieve.Toml
