import ColumnSieve.FileTree.Change
import ColumnSieve.Text.Hex

/-!
# Output files, all or nothing

Output is written to a temporary file beside its destination, which takes the destination's
place only when it is complete.

* `tempPath`  — the temporary file for a destination;
* `persist`   — puts a finished file in place, or removes it;
* `writeWith` — runs a writer on the temporary file and persists or discards what it leaves.
-/

namespace ColumnSieve

/-- What the operations act on: the files, and the state of the tool that reads tables. -/
structure World (τ : Type) where
  files : FileTree
  tool : τ

/-- An operation on the world that may fail; the world it leaves is known in either case. -/
abbrev Action (τ ε α : Type) := ExceptT ε (StateM (World τ)) α

/-- The name of a temporary file.  A destination without a file name has the name of an output
file in its place. -/
def tempName (nonce : UInt64) (final : Path) : List Char :=
  ".tmp.".toList ++ Text.hexDigits 16 nonce.toNat ++
    '.' :: final.fileName?.getD "output".toList

/-- The temporary file beside a destination, told apart from others by the nonce. -/
def tempPath (nonce : UInt64) (final : Path) : Path := final.withFileName (tempName nonce final)

/-- Removes a file that a failed write has left, if there is one. -/
def discard (files : FileTree) (temp : Path) : FileTree :=
  match files.removeFile temp with
  | .ok files => files
  | .error _ => files

/-- Renames a finished file over its destination; if that is refused, the file is removed. -/
def persist (files : FileTree) (temp final : Path) : Except FileError Unit × FileTree :=
  match files.rename temp final with
  | .ok files => (.ok (), files)
  | .error e => (.error e, discard files temp)

/-- Produces `final` by a writer that is given the temporary path.  If the writer fails, the
temporary file is removed and the destination is left alone. -/
def writeWith {τ ε : Type} (ofFileError : FileError → ε) (nonce : UInt64) (final : Path)
    (write : Path → Action τ ε Unit) : Action τ ε Unit := fun world =>
  let temp := tempPath nonce final
  match (write temp) world with
  | (.error e, world) => (.error e, { world with files := discard world.files temp })
  | (.ok (), world) =>
    match persist world.files temp final with
    | (.ok (), files) => (.ok (), { world with files := files })
    | (.error e, files) => (.error (ofFileError e), { world with files := files })

end ColumnSieve
