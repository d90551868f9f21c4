import ColumnSieve.Command.Explain
import ColumnSieve.Command.Split
import ColumnSieve.Command.Usage

/-!
# A whole run

* `Outcome` — how a run ends, with what it prints and its exit code;
* `execute` — a command line, carried out.
-/

namespace ColumnSieve.Command

/-- How a run ends. -/
inductive Outcome where
  | printed (text : String)
  | failed (error : Error)
  | misused
  deriving DecidableEq, Repr

namespace Outcome

def ofResult : Except Error String → Outcome
  | .ok text => .printed text
  | .error e => .failed e

def ofDetour : Detour → Outcome
  | .help command => .printed (usage command)
  | .version => .printed versionText
  | .misuse => .misused

def exitCode : Outcome → Nat
  | .printed _ => 0
  | .failed _ => 1
  | .misused => 2

def stdout : Outcome → String
  | .printed text => text
  | _ => ""

def stderr : Outcome → String
  | .printed _ => ""
  | .failed e => s!"Error: {e.message}\n"
  | .misused => programUsage

end Outcome

/-- Carries out a request; only a split changes the world. -/
def perform {τ : Type} (env : Environment) (tools : Tools τ) (nonce : UInt64) :
    Request → Action τ Error String
  | .split request => split env tools nonce request
  | .explain request => fun world => (explain env world.files request, world)

/-- Carries out a command line. -/
def execute {τ : Type} (env : Environment) (tools : Tools τ) (nonce : UInt64)
    (arguments : List String) (world : World τ) : Outcome × World τ :=
  match parse arguments with
  | .error detour => (.ofDetour detour, world)
  | .ok request =>
    let (result, world) := perform env tools nonce request world
    (.ofResult result, world)

end ColumnSieve.Command
