import ColumnSieve.Toml.Reader

/-!
# TOML strings and keys

Basic strings stand in double quotes and have escapes, literal strings stand in single quotes
and have none; each kind is written on one line, or with three quotes on several.
-/

namespace ColumnSieve.Toml

open Reader

/-! ## Escapes -/

def hexValue? (c : Char) : Option Nat :=
  if '0' ≤ c ∧ c ≤ '9' then some (c.toNat - 48)
  else if 'a' ≤ c ∧ c ≤ 'f' then some (c.toNat - 87)
  else if 'A' ≤ c ∧ c ≤ 'F' then some (c.toNat - 55)
  else none

/-- A character by its number, in a fixed number of hexadecimal digits. -/
def numbered (width : Nat) : Reader Char := fun s =>
  if width ≤ s.length then
    match (s.take width).mapM hexValue? with
    | some digits =>
      let n := digits.foldl (fun n d => 16 * n + d) 0
      if n.isValidChar then some (Char.ofNat n, s.drop width) else none
    | none => none
  else none

/-- The character that stands for what follows a backslash. -/
def escape : Reader Char
  | 'b' :: s => some ('\x08', s)
  | 't' :: s => some ('\t', s)
  | 'n' :: s => some ('\n', s)
  | 'f' :: s => some ('\x0C', s)
  | 'r' :: s => some ('\r', s)
  | '"' :: s => some ('"', s)
  | '\\' :: s => some ('\\', s)
  | 'u' :: s => numbered 4 s
  | 'U' :: s => numbered 8 s
  | _ => none

/-! ## Strings on one line -/

def isBasic (c : Char) : Bool := isPlain c && c != '"' && c != '\\'

def isLiteral (c : Char) : Bool := isPlain c && c != '\''

/-- A stretch of a basic string: plain characters, or one escape. -/
def basicPiece : Reader (List Char) :=
  whilst1 isBasic <|> do
    exactly ['\\']
    return [← escape]

def basicString : Reader String := do
  exactly ['"']
  let pieces ← many basicPiece
  exactly ['"']
  return String.ofList pieces.flatten

def literalString : Reader String := do
  exactly ['\'']
  let text ← whilst isLiteral
  exactly ['\'']
  return String.ofList text

/-! ## Strings on several lines -/

/-- A backslash at the end of a line removes the line break and all blanks behind it. -/
def lineContinuation : Reader (List Char) := do
  exactly ['\\']
  spaces
  newline
  let _ ← many ((do let _ ← whilst1 isSpace) <|> newline)
  return []

/-- A line break, in either form, reads as a line feed. -/
def lineBreak : Reader (List Char) := do
  newline
  return ['\n']

/-- Three quotes, with up to two more before them that belong to the text. -/
def closingQuotes (quote : Char) : Reader (List Char) := do
  exactly [quote, quote, quote]
  (do exactly [quote, quote]; return [quote, quote]) <|> (do exactly [quote]; return [quote]) <|>
    return []

/-- One or two quotes inside a text, which do not close it. -/
def innerQuote (quote : Char) : Reader (List Char)
  | c :: s =>
    if c = quote ∧ ¬ [quote, quote, quote].isPrefixOf (c :: s) then some ([quote], s) else none
  | [] => none

/-- A text between three quotes on either side; a line break behind the first is dropped. -/
def longString (quote : Char) (piece : Reader (List Char)) : Reader String := do
  exactly [quote, quote, quote]
  let _ ← optionally newline
  let pieces ← many (piece <|> lineBreak <|> innerQuote quote)
  let last ← closingQuotes quote
  return String.ofList (pieces.flatten ++ last)

def longBasicString : Reader String := longString '"' (lineContinuation <|> basicPiece)

def longLiteralString : Reader String := longString '\'' (whilst1 isLiteral)

def string : Reader String :=
  longBasicString <|> basicString <|> longLiteralString <|> literalString

/-! ## Keys -/

def isKeyChar (c : Char) : Bool := c.isAlphanum || c == '-' || c == '_'

def simpleKey : Reader String :=
  basicString <|> literalString <|> do return String.ofList (← whilst1 isKeyChar)

/-- How deep tables and arrays may be nested, and how many parts a key may have, at most one
less than this. -/
def depthLimit : Nat := 80

/-- A key with its parts, which dots separate: the names on the way, and the last. -/
def dottedKey : Reader (List String × String) := do
  let parts ← separated1 (do spaces; let part ← simpleKey; spaces; return part) (exactly ['.'])
  if parts.length < depthLimit then return (parts.dropLast, parts.getLastD "") else failure

end ColumnSieve.Toml
