/-!
# Paths

A path is a text whose names are separated by slashes; one that starts with a slash starts at
the root.  These operations look at the text alone and not at any file.

* `Path.fileName?`    — the last name, unless the path ends in `..` or names no file;
* `Path.parent`       — the text in front of the file name;
* `Path.withFileName` — the path with another file name, or with a file name added;
* `Path.join`         — a path taken from a directory;
* `Path.same`         — whether two texts name one path.

Slashes in a row count as one, and a `.` counts only where a relative path starts with it.
-/

namespace ColumnSieve

structure Path where
  text : String
  deriving DecidableEq, Repr, Inhabited

namespace Path

instance : ToString Path := ⟨Path.text⟩

def chars (p : Path) : List Char := p.text.toList

def isAbsolute (p : Path) : Bool := p.chars.head? == some '/'

/-- What stands between the slashes.  An absolute path has an empty first name. -/
def names (p : Path) : List (List Char) := p.chars.splitOn '/'

/-- Names that lead nowhere: they stand between two slashes, or are a single dot. -/
def isIdle (name : List Char) : Bool := name == [] || name == ['.']

/-- The names without the idle ones at the end. -/
def dropIdle (names : List (List Char)) : List (List Char) :=
  (names.reverse.dropWhile isIdle).reverse

/-- The first name of a path and, without the idle ones at the end, the names behind it. -/
def split (p : Path) : List Char × List (List Char) :=
  (p.names.headD [], dropIdle p.names.tail)

/-- The name of the file that a path leads to. -/
def fileName? (p : Path) : Option (List Char) :=
  match p.split.2.getLast? with
  | some name => if name = ['.', '.'] then none else some name
  | none => if isIdle p.split.1 || p.split.1 == ['.', '.'] then none else some p.split.1

/-- The text of some names; the root is the path whose only name is empty. -/
def ofNames (names : List (List Char)) : Path :=
  if names = [[]] then ⟨"/"⟩ else ⟨String.ofList (List.intercalate ['/'] names)⟩

/-- The names that count: a dot does only at the start of a relative path. -/
def trail (p : Path) : List (List Char) :=
  (p.names.take 1).filter (· ≠ []) ++ (p.names.drop 1).filter fun name => !isIdle name

/-- Whether two texts name one path: both start at the root or neither does, and the same names
follow. -/
def same (p q : Path) : Bool := p.isAbsolute == q.isAbsolute && p.trail == q.trail

/-- The path without its last name. -/
def parent (p : Path) : Path :=
  match p.split with
  | (_, []) => ⟨""⟩
  | (first, rest) => ofNames (first :: dropIdle rest.dropLast)

/-- Goes on from `dir` to `p`, which replaces `dir` if it is absolute. -/
def join (dir p : Path) : Path :=
  if p.isAbsolute then p
  else if dir.text = "" || dir.chars.getLast? == some '/' then ⟨dir.text ++ p.text⟩
  else ⟨dir.text ++ "/" ++ p.text⟩

/-- Replaces the file name, or adds one to a path that has none. -/
def withFileName (p : Path) (name : List Char) : Path :=
  match p.fileName? with
  | some _ => p.parent.join ⟨String.ofList name⟩
  | none => p.join ⟨String.ofList name⟩

end Path

end ColumnSieve
