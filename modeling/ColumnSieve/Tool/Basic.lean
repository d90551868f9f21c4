import ColumnSieve.Column.Basic
import ColumnSieve.Output

/-!
# Tools that read tables

A tool answers questions about tables and extracts columns from them.  Its answers may depend
on the files and on a state of its own.

* `Tool.recording` — the same tool with a log of the calls made to it;
* `Tool.failingAt` — the same tool with one call that fails.
-/

namespace ColumnSieve

structure Tool (τ : Type) where
  /-- The header row of a table. -/
  headers : (source : Path) → (delimiter : Char) → Action τ Error (List String)
  /-- The cells of a column, without its header. -/
  values : (source : Path) → (column : String) → (delimiter : Char) →
    Action τ Error (List String)
  /-- Writes the columns of a specification to a file. -/
  extract : (source : Path) → (spec : Spec) → (delimiter : Char) → (destination : Path) →
    Action τ Error Unit

/-- A call made to a tool. -/
inductive ToolCall where
  | headers (source : Path) (delimiter : Char)
  | values (source : Path) (column : String) (delimiter : Char)
  | extract (source : Path) (spec : Spec) (delimiter : Char) (destination : Path)
  deriving DecidableEq, Repr

/-- Runs an action on a world whose tool has a second part, which is changed by `f`. -/
def Action.beside {τ σ ε α : Type} (f : σ → σ) (action : Action τ ε α) :
    Action (τ × σ) ε α := fun world =>
  match action ⟨world.files, world.tool.1⟩ with
  | (result, after) => (result, ⟨after.files, (after.tool, f world.tool.2)⟩)

namespace Tool

/-- Logs every call, whether or not it succeeds. -/
def recording {τ : Type} (tool : Tool τ) : Tool (τ × List ToolCall) where
  headers source delimiter :=
    (tool.headers source delimiter).beside (· ++ [.headers source delimiter])
  values source column delimiter :=
    (tool.values source column delimiter).beside (· ++ [.values source column delimiter])
  extract source spec delimiter destination :=
    (tool.extract source spec delimiter destination).beside
      (· ++ [.extract source spec delimiter destination])

/-- Performs `action`, or `failure` if the number of calls made before is `call`. -/
def orAt {τ α : Type} (call : Nat) (failure action : Action τ Error α) :
    Action (τ × Nat) Error α := fun world =>
  ((if world.tool.2 = call then failure else action).beside (· + 1)) world

/-- Fails at one call, counted from zero, with the given error.  An extraction that fails so
first writes `left` to its destination; if that is refused, it fails with the refusal. -/
def failingAt {τ : Type} (tool : Tool τ) (call : Nat) (error : Error) (left : ByteArray) :
    Tool (τ × Nat) where
  headers source delimiter := orAt call (throw error) (tool.headers source delimiter)
  values source column delimiter := orAt call (throw error) (tool.values source column delimiter)
  extract source spec delimiter destination :=
    let failure : Action τ Error Unit := fun world =>
      match world.files.writeFile destination left with
      | .ok files => (.error error, { world with files := files })
      | .error e => (.error (.file e), world)
    orAt call failure (tool.extract source spec delimiter destination)

end Tool

end ColumnSieve
