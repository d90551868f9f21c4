import ColumnSieve.Column.Printer
import ColumnSieve.Csv.Reader
import ColumnSieve.Text.Blank
import ColumnSieve.Text.Lines
import ColumnSieve.Text.Lossy
import ColumnSieve.Tool.Basic

/-!
# A command-line program as a tool

The program is called as `headers -j -d DELIMITER SOURCE` and as
`select -d DELIMITER COLUMNS SOURCE`, with `-o FILE` behind it where the columns go to a file.
It prints headers one to a line, and columns as comma-separated values whatever the delimiter
of the source.

* `Programs`      — how a program is started, and what it leaves;
* `Tool.external` — the tool that such a program makes.
-/

namespace ColumnSieve

/-- How a program came to its end. -/
inductive ExitStatus where
  | code (n : Nat)
  | signal (n : Nat)
  deriving DecidableEq, Repr

namespace ExitStatus

/-- The names of signals, from number one on. -/
def signalNames : List String :=
  ["SIGHUP", "SIGINT", "SIGQUIT", "SIGILL", "SIGTRAP", "SIGABRT", "SIGBUS", "SIGFPE", "SIGKILL",
    "SIGUSR1", "SIGSEGV", "SIGUSR2", "SIGPIPE", "SIGALRM", "SIGTERM", "SIGSTKFLT", "SIGCHLD",
    "SIGCONT", "SIGSTOP", "SIGTSTP", "SIGTTIN", "SIGTTOU", "SIGURG", "SIGXCPU", "SIGXFSZ",
    "SIGVTALRM", "SIGPROF", "SIGWINCH", "SIGIO", "SIGPWR", "SIGSYS"]

def message : ExitStatus → String
  | .code n => s!"exit status: {n}"
  | .signal n =>
    match (none :: signalNames.map some)[n]? with
    | some (some name) => s!"signal: {n} ({name})"
    | _ => s!"signal: {n}"

end ExitStatus

/-- What a program leaves behind, apart from files. -/
structure Finished where
  status : ExitStatus
  stdout : ByteArray
  stderr : ByteArray

/-- Why a program could not be started. -/
inductive StartError where
  | os (cause : OsError)
  /-- A name or an argument with a NUL character cannot be handed over. -/
  | nulInText
  deriving DecidableEq, Repr

def StartError.message : StartError → String
  | .os cause => cause.message
  | .nulInText => "nul byte found in provided data"

/-- The way in which programs are run: the name of a program and its arguments change the
world and leave an outcome. -/
abbrev Programs (τ : Type) := String → List String → World τ → Except StartError Finished × World τ

namespace Tool

variable {τ : Type}

/-- Runs a program that has to succeed, and gives what it prints. -/
def execute (programs : Programs τ) (program : String) (arguments : List String) :
    Action τ Error String := fun world =>
  match programs program arguments world with
  | (.error e, world) => (.error (.program program "could not start" e.message), world)
  | (.ok finished, world) =>
    if finished.status = .code 0 then (.ok (Text.ofBytes finished.stdout), world)
    else
      let report := String.ofList (Text.trim (Text.ofBytes finished.stderr).toList)
      (.error (.program program finished.status.message report), world)

/-- The arguments that ask for the headers of a table. -/
def headerArguments (source : Path) (delimiter : Char) : List String :=
  ["headers", "-j", "-d", delimiter.toString, source.text]

/-- The arguments that ask for some columns of a table. -/
def selectArguments (source : Path) (columns : String) (delimiter : Char) : List String :=
  ["select", "-d", delimiter.toString, columns, source.text]

/-- A column name as a column specification: quoted, so that it is never read as a number. -/
def columnSelector (column : String) : String := String.ofList (quoted column.toList)

/-- The tool made of a program. -/
def external (programs : Programs τ) (program : String) : Tool τ where
  headers source delimiter := do
    let stdout ← execute programs program (headerArguments source delimiter)
    return (Text.lines stdout.toList).map String.ofList
  values source column delimiter := do
    let stdout ← execute programs program
      (selectArguments source (columnSelector column) delimiter)
    match Csv.firstFields stdout.toList with
    | .ok cells => return cells.map String.ofList
    | .error e => throw (.csv e)
  extract source spec delimiter destination := do
    let _ ← execute programs program
      (selectArguments source spec.render delimiter ++ ["-o", destination.text])
    return ()

end Tool

end ColumnSieve
