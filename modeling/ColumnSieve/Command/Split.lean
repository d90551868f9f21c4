import ColumnSieve.Column.Printer
import ColumnSieve.Command.Arguments
import ColumnSieve.Config
import ColumnSieve.Query.Reader

/-!
# The command `split`

* `loadConfig`           — the configuration that a request leads to;
* `SplitRequest.options` — its options over those of the configuration;
* `Tools`                — the tool that is made of a program;
* `split`                — the whole command, which gives the text to print.
-/

namespace ColumnSieve.Command

/-- The configuration of a run.  A file that the user names has to exist. -/
def loadConfig (env : Environment) (files : FileTree) : Option Path → Except Error Config
  | none => Config.load env files
  | some path =>
    if files.exists? path then Config.loadFrom env files path
    else .error (.setting (.fileNotFound path))

namespace SplitRequest

/-- The options of a request, and those of the configuration where it says nothing. -/
def options (request : SplitRequest) (config : Config) : Options where
  ignoreMissing := request.ignoreMissing
  delimiter := request.delimiter.getD config.delimiter
  metadataDelimiter := request.metadataDelimiter.getD config.metadataDelimiter
  alwaysInclude := request.alwaysInclude
  mode := request.mode.getD config.mode

end SplitRequest

/-- What would be selected, identifier by identifier. -/
def previewText (plan : Plan) : String :=
  s!"Would select {plan.identifiers.length} of {plan.targetColumns} columns:\n" ++
    String.join (plan.identifiers.map fun identifier => s!"  {identifier}\n") ++
    s!"Column spec: {plan.spec.render}\n"

/-- What has been selected. -/
def summaryText (plan : Plan) : String :=
  s!"Selected {plan.identifiers.length} columns.\nDone!\n"

/-- The tool that is made of the program of some name. -/
abbrev Tools (τ : Type) := String → Tool τ

/-- Configuration and queries are read, in this order, before any table. -/
def split {τ : Type} (env : Environment) (tools : Tools τ) (nonce : UInt64)
    (request : SplitRequest) : Action τ Error String := fun world =>
  match loadConfig env world.files request.config with
  | .error e => (.error e, world)
  | .ok config =>
    match Query.readAll env world.files request.queries with
    | .error e => (.error e, world)
    | .ok queries =>
      let tool := tools (request.program.getD config.program).text
      let options := request.options config
      if request.dryRun then
        (previewText <$> plan tool queries request.target options) world
      else
        (summaryText <$> run tool nonce queries request.target request.destination options) world

end ColumnSieve.Command
