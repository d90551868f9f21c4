import ColumnSieve.Command.Run
import ColumnSieve.Tool.Plain

/-!
# The command line

The files and directories along the paths that a request names are brought into a tree; the
command is carried out on that tree, and what it has changed is written back.  Tables are read
by the plain tool, under the name of the program that the user has chosen.
-/

namespace ColumnSieve.Command

/-! ## The paths of a request -/

/-- The table of a query, if the query has the shape of one. -/
def queryPath? (env : Environment) (raw : String) : Option Path :=
  (Query.split? raw.toList).map fun parts => expandHome env parts.1

/-- All paths that a request leads to. -/
def requestPaths (env : Environment) : Request → List Path
  | .split request =>
    (request.config.or (Config.defaultPath env)).toList ++
      request.queries.filterMap (queryPath? env) ++ [request.target, request.destination]
  | .explain request => request.queries.filterMap (queryPath? env)

/-- The location behind one more name of a path. -/
def nextLocation (here : Location) (name : String) : Location :=
  if name = "" ∨ name = "." then here
  else if name = ".." then here.dropLast
  else here ++ [name]

/-- The locations along a path, from its start on. -/
def locations (start : Location) : List String → List Location
  | [] => [start]
  | name :: names => start :: locations (nextLocation start name) names

/-- The nodes that a command has put into a tree or changed. -/
def changes (before after : FileTree) : List (Location × Node) :=
  after.nodes.filter fun n => before.node? n.1 != some n.2

/-! ## Files -/

/-- What stands at a location; what cannot be read counts as missing. -/
def readNode (loc : Location) : IO (Option Node) := do
  try
    return some (.file (← IO.FS.readBinFile (FileTree.pathOf loc).text))
  catch
    | .inappropriateType .. => return some .dir
    | _ => return none

/-- Adds what stands at a location to a tree. -/
def addNode (files : FileTree) (loc : Location) : IO FileTree := do
  if (files.node? loc).isSome then return files
  match ← readNode loc with
  | some node => return files.put loc node
  | none => return files

/-- A tree with all that stands along some paths. -/
def readTree (workDir : Location) (paths : List Path) : IO FileTree := do
  let empty : FileTree := ⟨workDir, []⟩
  let found := paths.flatMap fun path => locations (empty.start path) (FileTree.nameTexts path)
  (locations [] workDir ++ found).foldlM addNode empty

/-- Writes a file through a temporary file beside it. -/
def writeNode (nonce : UInt64) : Location × Node → IO Unit
  | (_, .dir) => return
  | (loc, .file content) => do
    let path := FileTree.pathOf loc
    let temp := tempPath nonce path
    IO.FS.writeBinFile temp.text content
    IO.FS.rename temp.text path.text

/-! ## The program -/

/-- The variables that configuration and paths depend on. -/
def readEnvironment : IO Environment := do
  let names := ["METASPLIT_CONFIG", "XDG_CONFIG_HOME", "HOME"]
  let found ← names.mapM fun name => do return (← IO.getEnv name).map fun value => (name, value)
  return ⟨found.filterMap id, fun _ => "no settings can be read"⟩

/-- The directory in which the program runs. -/
def readWorkDir : IO Location := do
  let text := (← IO.getEnv "PWD").getD "/"
  return (FileTree.nameTexts ⟨text⟩).filter (· ≠ "")

def readNonce : IO UInt64 := do
  let bytes ← IO.getRandomBytes 8
  return bytes.toList.foldl (fun n byte => 256 * n + byte.toUInt64) 0

end ColumnSieve.Command

open ColumnSieve Command in
/-- Carries out the command line, and leaves its exit code. -/
def main (arguments : List String) : IO UInt32 := do
  let env ← readEnvironment
  let nonce ← readNonce
  let paths := match parse arguments with
    | .ok request => requestPaths env request
    | .error _ => []
  let files ← readTree (← readWorkDir) paths
  let (outcome, world) := execute env Tool.plain nonce arguments ⟨files, ()⟩
  try
    (changes files world.files).forM (writeNode nonce)
  catch e =>
    IO.eprintln s!"Error: {e}"
    return 1
  IO.print outcome.stdout
  IO.eprint outcome.stderr
  return outcome.exitCode.toUInt32
