import ColumnSieve.Environment
import ColumnSieve.FileTree.Basic
import ColumnSieve.Plan
import ColumnSieve.Toml.Document

/-!
# Configuration

A configuration file sets the program that reads tables, the delimiters and the mode.  What it
leaves out has a default, and so has all if there is no file.

* `Config.same`        — whether two configurations say the same;
* `Config.ofToml`      — the settings of a document;
* `Config.loadFrom`    — the settings of a file;
* `Config.defaultPath` — where the file is, unless the user names another;
* `Options.ofConfig`   — the options that follow from it.
-/

namespace ColumnSieve

structure Config where
  /-- The program that reads and writes tables. -/
  program : Path
  /-- Delimiter of the target table. -/
  delimiter : Char
  /-- Delimiter of the metadata tables. -/
  metadataDelimiter : Char
  mode : Mode
  deriving DecidableEq, Repr

namespace Config

def default : Config := ⟨⟨"xsv"⟩, ',', ',', .union⟩

/-- Whether two configurations say the same; different texts may name one program. -/
def same (c d : Config) : Bool :=
  c.program.same d.program && c.delimiter == d.delimiter &&
    c.metadataDelimiter == d.metadataDelimiter && c.mode == d.mode

/-! ## Settings from a document -/

def textOf : Toml.Value → Option String
  | .string text => some text
  | _ => none

def pathOf (value : Toml.Value) : Option Path := (textOf value).map Path.mk

/-- A character is written as a string of that character. -/
def charOf (value : Toml.Value) : Option Char :=
  match (textOf value).map String.toList with
  | some [c] => some c
  | _ => none

def modeOfKey : String → Option Mode
  | "union" => some .union
  | "intersect" => some .intersect
  | _ => none

/-- An array or a table with nothing in it. -/
def isVoid : Toml.Value → Bool
  | .array [] | .inlineTable [] | .table _ _ [] => true
  | _ => false

/-- A mode is written as a string, or as the only key of a table with a void value. -/
def modeOf : Toml.Value → Option Mode
  | .string text => modeOfKey text
  | .inlineTable [(key, value)] | .table _ _ [(key, value)] =>
    if isVoid value then modeOfKey key else none
  | _ => none

/-- A setting that may be missing but must not be wrong. -/
def setting {α : Type} (entries : Toml.Entries) (key : String) (read : Toml.Value → Option α)
    (otherwise : α) : Option α :=
  match entries.lookup key with
  | none => some otherwise
  | some value => read value

/-- The settings of a document; keys that are no settings are passed over. -/
def ofToml (entries : Toml.Entries) : Option Config := do
  let program ← setting entries "xsv" pathOf default.program
  let delimiter ← setting entries "delimiter" charOf default.delimiter
  let metadataDelimiter ← setting entries "metadata_delimiter" charOf default.metadataDelimiter
  let mode ← setting entries "cross_source_mode" modeOf default.mode
  return ⟨program, delimiter, metadataDelimiter, mode⟩

/-- Delimiters have to be ASCII characters. -/
def validate (config : Config) : Except Error Config :=
  if 128 ≤ config.delimiter.toNat then
    .error (.setting (.delimiterNotAscii "delimiter" config.delimiter))
  else if 128 ≤ config.metadataDelimiter.toNat then
    .error (.setting (.delimiterNotAscii "metadata_delimiter" config.metadataDelimiter))
  else .ok config

/-! ## Files -/

/-- The settings of a file, or the defaults if it does not exist. -/
def loadFrom (env : Environment) (files : FileTree) (path : Path) : Except Error Config :=
  if files.exists? path then
    match files.readText path with
    | .error e => .error (.file e)
    | .ok text =>
      match (Toml.parse text).bind ofToml with
      | none => .error (.setting (.malformed path (env.report text)))
      | some config => config.validate
  else .ok default

/-- The directory for configuration files.  A relative path in the environment is ignored. -/
def directory? (env : Environment) : Option Path :=
  match env.home? with
  | none => none
  | some home =>
    match env.get? "XDG_CONFIG_HOME" with
    | none => some (home.join ⟨".config"⟩)
    | some text =>
      if (⟨text⟩ : Path).isAbsolute then some ⟨text⟩ else some (home.join ⟨".config"⟩)

/-- The configuration file: named by a variable of its own, which may be empty, or in the
directory for configuration files. -/
def defaultPath (env : Environment) : Option Path :=
  match env.get? "METASPLIT_CONFIG" with
  | some text => some ⟨text⟩
  | none => (directory? env).map fun dir => dir.join ⟨"metasplit/config.toml"⟩

def load (env : Environment) (files : FileTree) : Except Error Config :=
  match defaultPath env with
  | none => .ok default
  | some path => loadFrom env files path

end Config

namespace Options

/-- The options that a configuration sets; the others are off or empty. -/
def ofConfig (config : Config) : Options :=
  ⟨false, config.delimiter, config.metadataDelimiter, [], config.mode⟩

def default : Options := ofConfig .default

end Options

end ColumnSieve
