import ColumnSieve.Command.Grammar
import ColumnSieve.Setting

/-!
# What the arguments of a run ask for

* `SplitRequest`, `ExplainRequest` — the two commands with their options;
* `Detour`                         — why a command line is not carried out;
* `parse`                          — the command that the arguments ask for.

Arguments are taken in from left to right, and the first that cannot be taken in, or that asks
for help, decides.  An option counts once for each command unless it collects values.
-/

namespace ColumnSieve.Command

inductive Name where
  | split
  | explain
  | help
  deriving DecidableEq, Repr

namespace Name

def ofText? : String → Option Name
  | "split" | "s" => some .split
  | "explain" | "e" => some .explain
  | "help" => some .help
  | _ => none

end Name

structure SplitRequest where
  /-- The configuration file to use instead of the usual one. -/
  config : Option Path
  queries : List String
  target : Path
  destination : Path
  ignoreMissing : Bool
  delimiter : Option Char
  metadataDelimiter : Option Char
  alwaysInclude : List String
  mode : Option Mode
  /-- The program to use instead of the configured one. -/
  program : Option Path
  /-- Show what would be selected, and extract nothing. -/
  dryRun : Bool
  deriving DecidableEq, Repr

structure ExplainRequest where
  queries : List String
  format : String
  deriving DecidableEq, Repr

inductive Request where
  | split (request : SplitRequest)
  | explain (request : ExplainRequest)
  deriving DecidableEq, Repr

/-- Why a command line is not carried out. -/
inductive Detour where
  /-- The usage of a command, or of all of them, is asked for. -/
  | help (command : Option Name)
  | version
  | misuse
  deriving DecidableEq, Repr

/-! ## Options -/

inductive Key where
  | config
  | verbose
  | quiet
  | help
  | version
  | queries
  | ignoreMissing
  | delimiter
  | metadataDelimiter
  | alwaysInclude
  | mode
  | intersect
  | program
  | dryRun
  | format
  deriving DecidableEq, Repr

/-- Options that stand before or behind the name of a command. -/
def commonOptions : List (OptionSpec Key) :=
  [⟨.config, none, "config", true⟩,
    ⟨.verbose, some 'v', "verbose", false⟩,
    ⟨.quiet, some 'q', "quiet", false⟩,
    ⟨.help, some 'h', "help", false⟩]

/-- Options that stand before the name of a command. -/
def leadingOptions : List (OptionSpec Key) :=
  commonOptions ++ [⟨.version, some 'V', "version", false⟩]

def splitOptions : List (OptionSpec Key) :=
  commonOptions ++
    [⟨.queries, some 'm', "meta", true⟩,
      ⟨.ignoreMissing, none, "ignore-missing", false⟩,
      ⟨.delimiter, some 'd', "delimiter", true⟩,
      ⟨.metadataDelimiter, none, "metadata-delimiter", true⟩,
      ⟨.alwaysInclude, some 'a', "always-include", true⟩,
      ⟨.mode, none, "cross-source-mode", true⟩,
      ⟨.intersect, none, "intersect", false⟩,
      ⟨.program, none, "xsv", true⟩,
      ⟨.dryRun, some 'n', "dry-run", false⟩]

def explainOptions : List (OptionSpec Key) :=
  commonOptions ++ [⟨.format, some 'f', "format", true⟩]

/-! ## Taking arguments in -/

/-- Sets what has not been set before. -/
def once {α : Type} (old : Option α) (new : α) : Except Detour (Option α) :=
  match old with
  | none => .ok (some new)
  | some _ => .error .misuse

/-- Raises a flag that has not been raised before. -/
def raise (old : Bool) : Except Detour Bool := if old then .error .misuse else .ok true

/-- A text that must not be empty. -/
def nonempty (text : String) : Except Detour String :=
  if text = "" then .error .misuse else .ok text

/-- A setting that cannot be used is a misuse. -/
def usable {α : Type} : Except Error α → Except Detour α
  | .ok a => .ok a
  | .error _ => .error .misuse

/-- The common options that one part of a command line sets. -/
structure Common where
  config : Option Path
  verbose : Bool
  quiet : Bool
  deriving DecidableEq, Repr

namespace Common

def empty : Common := ⟨none, false, false⟩

def take (common : Common) (command : Option Name) : Item Key → Except Detour Common
  | .value .config text => do
    return { common with config := ← once common.config ⟨← nonempty text⟩ }
  | .flag .verbose => return { common with verbose := ← raise common.verbose }
  | .flag .quiet => return { common with quiet := ← raise common.quiet }
  | .flag .help => throw (.help command)
  | .flag .version => throw .version
  | _ => throw .misuse

/-- Asks for more and for fewer messages at once. -/
def conflicting (common : Common) : Bool := common.verbose && common.quiet

end Common

/-- A split as far as its arguments have been read. -/
structure SplitDraft where
  common : Common
  queries : List String
  target : Option Path
  destination : Option Path
  ignoreMissing : Bool
  delimiter : Option Char
  metadataDelimiter : Option Char
  alwaysInclude : List String
  mode : Option Mode
  intersect : Bool
  program : Option Path
  dryRun : Bool
  deriving DecidableEq, Repr

namespace SplitDraft

def empty : SplitDraft :=
  ⟨.empty, [], none, none, false, none, none, [], none, false, none, false⟩

def take (draft : SplitDraft) : Item Key → Except Detour SplitDraft
  | .value .queries text => return { draft with queries := draft.queries ++ [text] }
  | .value .alwaysInclude text =>
    return { draft with alwaysInclude := draft.alwaysInclude ++ [text] }
  | .value .delimiter text => do
    let delimiter ← usable (Setting.parseDelimiter text)
    return { draft with delimiter := ← once draft.delimiter delimiter }
  | .value .metadataDelimiter text => do
    let delimiter ← usable (Setting.parseDelimiter text)
    return { draft with metadataDelimiter := ← once draft.metadataDelimiter delimiter }
  | .value .mode text => do
    return { draft with mode := ← once draft.mode (← usable (Setting.parseMode text)) }
  | .value .program text => do
    return { draft with program := ← once draft.program ⟨← nonempty text⟩ }
  | .flag .ignoreMissing => return { draft with ignoreMissing := ← raise draft.ignoreMissing }
  | .flag .intersect => return { draft with intersect := ← raise draft.intersect }
  | .flag .dryRun => return { draft with dryRun := ← raise draft.dryRun }
  | .operand text => do
    let path : Path := ⟨← nonempty text⟩
    match draft.target with
    | none => return { draft with target := some path }
    | some _ => return { draft with destination := ← once draft.destination path }
  | item => return { draft with common := ← draft.common.take (some .split) item }

/-- The request, if nothing is missing from the draft and nothing in it conflicts. -/
def finish (draft : SplitDraft) (config : Option Path) : Except Detour SplitRequest :=
  match draft.target, draft.destination with
  | some target, some destination =>
    if draft.common.conflicting || draft.queries.isEmpty ||
        (draft.mode.isSome && draft.intersect) then throw .misuse
    else return {
      config := draft.common.config.or config
      queries := draft.queries
      target
      destination
      ignoreMissing := draft.ignoreMissing
      delimiter := draft.delimiter
      metadataDelimiter := draft.metadataDelimiter
      alwaysInclude := draft.alwaysInclude
      mode := if draft.intersect then some .intersect else draft.mode
      program := draft.program
      dryRun := draft.dryRun }
  | _, _ => throw .misuse

end SplitDraft

/-- An explanation as far as its arguments have been read. -/
structure ExplainDraft where
  common : Common
  queries : List String
  format : Option String
  deriving DecidableEq, Repr

namespace ExplainDraft

def empty : ExplainDraft := ⟨.empty, [], none⟩

def take (draft : ExplainDraft) : Item Key → Except Detour ExplainDraft
  | .operand text => return { draft with queries := draft.queries ++ [text] }
  | .value .format text => return { draft with format := ← once draft.format text }
  | item => return { draft with common := ← draft.common.take (some .explain) item }

/-- The request, if nothing is missing from the draft and nothing in it conflicts. -/
def finish (draft : ExplainDraft) : Except Detour ExplainRequest :=
  if draft.common.conflicting || draft.queries.isEmpty then throw .misuse
  else return ⟨draft.queries, draft.format.getD "table"⟩

end ExplainDraft

/-! ## Commands -/

/-- What the command `help` is asked about. -/
def helpTopic : List String → Option Name → Detour
  | [], topic => .help topic
  | name :: names, none =>
    match Name.ofText? name with
    | some topic => helpTopic names (some topic)
    | none => .misuse
  | _ :: _, some _ => .misuse

/-- A command with its arguments, given the configuration file named before it. -/
def parseCommand (config : Option Path) (name : Name) (arguments : List String) :
    Except Detour Request :=
  match name with
  | .split => do
    let items := readOptions splitOptions [] none arguments
    let draft ← items.foldlM SplitDraft.take .empty
    return .split (← draft.finish config)
  | .explain => do
    let items := readOptions explainOptions [] none arguments
    let draft ← items.foldlM ExplainDraft.take .empty
    return .explain (← draft.finish)
  | .help => throw (helpTopic arguments none)

/-- Takes in what stands before the name of a command, then the command. -/
def parseItems (common : Common) : List (Item Key) → Except Detour Request
  | [] => throw .misuse
  | .command name arguments :: _ =>
    match Name.ofText? name with
    | none => throw .misuse
    | some name => do
      let request ← parseCommand common.config name arguments
      if common.conflicting then throw .misuse
      return request
  | item :: items => do parseItems (← common.take none item) items

/-- The names under which commands are known. -/
def names : List String := ["split", "s", "explain", "e", "help"]

def parse (arguments : List String) : Except Detour Request :=
  parseItems .empty (readOptions leadingOptions names none arguments)

end ColumnSieve.Command
