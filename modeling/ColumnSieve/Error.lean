import ColumnSieve.Clause.Basic
import ColumnSieve.Mode
import ColumnSieve.Path

/-!
# Why an operation fails

Every failure is a cause with the data that describe it.  The wording is in one place:
`Error.message` and the messages of the parts it is made of.
-/

namespace ColumnSieve

/-- An errand that the operating system refused. -/
inductive OsError where
  | noEntry
  | accessDenied
  | busy
  | alreadyExists
  | notDirectory
  | isDirectory
  | invalidArgument
  | nameTooLong
  | notEmpty
  deriving DecidableEq, Repr

namespace OsError

def number : OsError → Nat
  | .noEntry => 2
  | .accessDenied => 13
  | .busy => 16
  | .alreadyExists => 17
  | .notDirectory => 20
  | .isDirectory => 21
  | .invalidArgument => 22
  | .nameTooLong => 36
  | .notEmpty => 39

def description : OsError → String
  | .noEntry => "No such file or directory"
  | .accessDenied => "Permission denied"
  | .busy => "Device or resource busy"
  | .alreadyExists => "File exists"
  | .notDirectory => "Not a directory"
  | .isDirectory => "Is a directory"
  | .invalidArgument => "Invalid argument"
  | .nameTooLong => "File name too long"
  | .notEmpty => "Directory not empty"

def message (e : OsError) : String := s!"{e.description} (os error {e.number})"

end OsError

/-- A file that could not be read, written, renamed or removed, or a directory that could not
be created. -/
inductive FileError where
  | os (cause : OsError)
  /-- A name with a NUL character never reaches the operating system. -/
  | nulInName
  | notUtf8
  deriving DecidableEq, Repr

def FileError.message : FileError → String
  | .os cause => cause.message
  | .nulInName => "file name contained an unexpected NUL byte"
  | .notUtf8 => "stream did not contain valid UTF-8"

/-- A table whose records differ in their number of fields. -/
structure UnequalRecord where
  /-- Counted from zero, the header included. -/
  record : Nat
  line : Nat
  byte : Nat
  found : Nat
  expected : Nat
  deriving DecidableEq, Repr

def UnequalRecord.message (e : UnequalRecord) : String :=
  s!"CSV error: record {e.record} (line: {e.line}, byte: {e.byte}): " ++
    s!"found record with {e.found} fields, but the previous record has {e.expected} fields"

/-- A chain of clauses that cannot be read; the segment at fault is quoted. -/
inductive ClauseError where
  | noClauses
  | noSign (segment : String)
  | noComparator (segment : String)
  | noColumn (segment : String)
  deriving DecidableEq, Repr

def ClauseError.message : ClauseError → String
  | .noClauses => "no clauses given"
  | .noSign segment => s!"'{segment}' does not start with one of '?', '|' or '&'"
  | .noComparator segment => s!"'{segment}' has no '=' or '!=' comparator"
  | .noColumn segment => s!"'{segment}' has no variable"

/-- A setting or a configuration file that cannot be used. -/
inductive SettingError where
  | fileNotFound (path : Path)
  /-- With the report of the reader of such files. -/
  | malformed (path : Path) (report : String)
  | delimiterNotAscii (key : String) (found : Char)
  | invalidDelimiter (text : String)
  | invalidMode (text : String)
  | unknownFormat (text : String)
  deriving DecidableEq, Repr

def SettingError.message : SettingError → String
  | .fileNotFound path => s!"Config file not found: {path}"
  | .malformed path report => s!"Failed to parse {path}: {report}"
  | .delimiterNotAscii key found => s!"{key} must be a single ASCII character, got '{found}'"
  | .invalidDelimiter text => s!"Delimiter must be a single ASCII character, got '{text}'"
  | .invalidMode text => s!"Invalid cross-source mode '{text}': expected union or intersect"
  | .unknownFormat text => s!"Unknown format '{text}': expected table or json"

/-- A selection that holds nothing. -/
inductive EmptySelection where
  | noRow (column : String) (comparator : Comparator) (values : List String)
  | nothingSelected (mode : Mode)
  | nothingSurvived
  deriving DecidableEq, Repr

def EmptySelection.message : EmptySelection → String
  | .noRow column comparator values =>
    let relation := match comparator with
      | .equal => "one of"
      | .notEqual => "none of"
    s!"variable '{column}' has no rows where it is {relation} [" ++ ", ".intercalate values ++ "]"
  | .nothingSelected mode => s!"nothing was selected by the metadata queries ({mode.name} mode)"
  | .nothingSurvived => "nothing survived after removing identifiers missing from the target"

/-- The ways in which an operation of this library fails. -/
inductive Error where
  | file (cause : FileError)
  | csv (cause : UnequalRecord)
  | setting (cause : SettingError)
  | invalidQuery (raw : String)
  | invalidClause (cause : ClauseError)
  | sourceNotFound (path : Path)
  | missingColumn (column : String) (table : Path)
  | emptySelection (cause : EmptySelection)
  | missingHeaders (identifiers : List String)
  | rowOutOfRange (row : Nat) (length : Nat)
  | program (name : String) (status : String) (report : String)
  deriving DecidableEq, Repr

def Error.message : Error → String
  | .file cause => "IO error: " ++ cause.message
  | .csv cause => "CSV error: " ++ cause.message
  | .setting cause => "Configuration error: " ++ cause.message
  | .invalidQuery raw =>
    s!"Invalid metadata query '{raw}': expected <path>@<id-column><clauses>"
  | .invalidClause cause => "Invalid clause: " ++ cause.message
  | .sourceNotFound path => s!"File not found: {path}"
  | .missingColumn column table => s!"Variable '{column}' not found in headers of {table}"
  | .emptySelection cause => "Empty selection: " ++ cause.message
  | .missingHeaders identifiers =>
    "Selected identifiers missing from target headers: " ++ ", ".intercalate identifiers
  | .rowOutOfRange row length =>
    s!"Row {row} has no identifier (identifier column has {length} values)"
  | .program name status report => s!"{name} failed ({status}): {report}"

end ColumnSieve
