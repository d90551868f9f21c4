/-!
# Readers of TOML text

A reader takes characters from the front of a text, or fails.

* `Reader.many`      — as often as possible; the text gets shorter each time, so it ends;
* `Reader.separated` — with separators between, none behind the last;
* spaces, comments and ends of lines.
-/

namespace ColumnSieve.Toml

abbrev Reader := StateT (List Char) Option

namespace Reader

variable {α : Type}

/-- A character that passes a test. -/
def satisfy (test : Char → Bool) : Reader Char
  | c :: s => if test c then some (c, s) else none
  | [] => none

/-- These characters, one after the other. -/
def exactly (text : List Char) : Reader Unit := fun s =>
  (text.isPrefixOf? s).map fun rest => ((), rest)

/-- The longest run of characters that pass a test. -/
def whilst (test : Char → Bool) : Reader (List Char) := fun s =>
  some (s.takeWhile test, s.dropWhile test)

def whilst1 (test : Char → Bool) : Reader (List Char) := do
  let first ← satisfy test
  let rest ← whilst test
  return first :: rest

def atEnd : Reader Unit
  | [] => some ((), [])
  | _ :: _ => none

def optionally (reader : Reader α) : Reader (Option α) := fun s =>
  match reader s with
  | some (a, rest) => some (some a, rest)
  | none => some (none, s)

/-- All that a reader takes as long as it succeeds and takes something. -/
def repeated (reader : Reader α) (s : List Char) : List α × List Char :=
  match reader s with
  | none => ([], s)
  | some (a, rest) =>
    if rest.length < s.length then (a :: (repeated reader rest).1, (repeated reader rest).2)
    else ([], s)
termination_by s.length

def many (reader : Reader α) : Reader (List α) := fun s => some (repeated reader s)

/-- One or more, with a separator between each two. -/
def separated1 (reader : Reader α) (separator : Reader Unit) : Reader (List α) := do
  let first ← reader
  let rest ← many (do separator; reader)
  return first :: rest

def separated (reader : Reader α) (separator : Reader Unit) : Reader (List α) := do
  return (← optionally (separated1 reader separator)).getD []

end Reader

open Reader

/-! ## Spaces, comments and lines -/

def isSpace (c : Char) : Bool := c == ' ' || c == '\t'

/-- Control characters other than the tabulator stand nowhere, not even in comments. -/
def isPlain (c : Char) : Bool :=
  c == '\t' || (0x20 ≤ c.toNat && c.toNat ≤ 0x7E) || 0x80 ≤ c.toNat

def spaces : Reader Unit := do
  let _ ← whilst isSpace

def newline : Reader Unit := exactly ['\n'] <|> exactly ['\r', '\n']

def comment : Reader Unit := do
  exactly ['#']
  let _ ← whilst isPlain

def lineEnd : Reader Unit := newline <|> atEnd

/-- What may stand behind a statement. -/
def lineRest : Reader Unit := do
  spaces
  let _ ← optionally comment
  lineEnd

/-- Spaces, comments and ends of lines. -/
def blanks : Reader Unit := do
  let _ ← many ((do let _ ← whilst1 isSpace) <|> newline <|> comment)

end ColumnSieve.Toml
