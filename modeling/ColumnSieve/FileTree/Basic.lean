import ColumnSieve.Error

/-!
# A tree of files

Files and directories are found by their location: the names that lead there from the root.
There are no links, so a location determines a file.

* `FileTree.node?`        — what stands at a location;
* `FileTree.step`         — one name further along a path;
* `FileTree.locate`       — the location that a path leads to;
* `FileTree.canonicalize` — the absolute path of that location.
-/

namespace ColumnSieve

/-- The names that lead from the root to a file or directory. -/
abbrev Location := List String

inductive Node where
  | file (content : ByteArray)
  | dir

instance : DecidableEq Node
  | .file ⟨a⟩, .file ⟨b⟩ =>
    if h : a = b then isTrue (h ▸ rfl) else isFalse fun e => h (by injections)
  | .dir, .dir => isTrue rfl
  | .file _, .dir => isFalse nofun
  | .dir, .file _ => isFalse nofun

/-- The files and directories, and the directory in which relative paths start. -/
structure FileTree where
  workDir : Location
  nodes : List (Location × Node)
  deriving DecidableEq

namespace FileTree

/-- The longest name of a file, in bytes. -/
def maxName : Nat := 255

/-- Texts of paths are shorter than this, in bytes. -/
def maxPath : Nat := 4096

/-- What stands at a location.  The root is always there. -/
def node? (t : FileTree) : Location → Option Node
  | [] => some .dir
  | loc => t.nodes.lookup loc

/-! ## Walking along a path -/

/-- One name further along a path.  Only a directory leads on, also to itself. -/
def step (t : FileTree) (here : Location) (name : String) : Except OsError Location :=
  match t.node? here with
  | none => .error .noEntry
  | some (.file _) => .error .notDirectory
  | some .dir =>
    if name = "" ∨ name = "." then .ok here
    else if name = ".." then .ok here.dropLast
    else if maxName < name.utf8ByteSize then .error .nameTooLong
    else
      match t.node? (here ++ [name]) with
      | none => .error .noEntry
      | some _ => .ok (here ++ [name])

def walk (t : FileTree) (here : Location) (names : List String) : Except OsError Location :=
  names.foldlM t.step here

/-- The directory in which a path starts. -/
def start (t : FileTree) (p : Path) : Location := if p.isAbsolute then [] else t.workDir

def nameTexts (p : Path) : List String := p.names.map String.ofList

/-- The location that a path leads to.  The empty name behind a last slash makes sure that
what stands in front of the slash is a directory. -/
def locate (t : FileTree) (p : Path) : Except FileError Location :=
  if p.chars.contains '\x00' then .error .nulInName
  else if p.text = "" then .error (.os .noEntry)
  else if maxPath ≤ p.text.utf8ByteSize then .error (.os .nameTooLong)
  else (t.walk (t.start p) (nameTexts p)).mapError .os

/-- The absolute path of a location. -/
def pathOf (loc : Location) : Path := ⟨"/" ++ "/".intercalate loc⟩

/-- The absolute path, without dots and needless slashes, of an existing file or directory.
The limit on the length of paths is on the outcome. -/
def canonicalize (t : FileTree) (p : Path) : Except FileError Path :=
  if p.chars.contains '\x00' then .error .nulInName
  else if p.text = "" then .error (.os .noEntry)
  else
    match t.walk (t.start p) (nameTexts p) with
    | .error e => .error (.os e)
    | .ok loc =>
      if maxPath ≤ (pathOf loc).text.utf8ByteSize then .error (.os .nameTooLong)
      else .ok (pathOf loc)

/-! ## Looking at files -/

/-- What a path leads to. -/
def look (t : FileTree) (p : Path) : Option Node :=
  match t.locate p with
  | .error _ => none
  | .ok loc => t.node? loc

def exists? (t : FileTree) (p : Path) : Bool := (t.look p).isSome

def isFile (t : FileTree) (p : Path) : Bool :=
  match t.look p with
  | some (.file _) => true
  | _ => false

def isDir (t : FileTree) (p : Path) : Bool :=
  match t.look p with
  | some .dir => true
  | _ => false

/-- The bytes of a file. -/
def readFile (t : FileTree) (p : Path) : Except FileError ByteArray :=
  match t.locate p with
  | .error e => .error e
  | .ok loc =>
    match t.node? loc with
    | some (.file content) => .ok content
    | some .dir => .error (.os .isDirectory)
    | none => .error (.os .noEntry)

/-- The text of a file, which has to be valid UTF-8. -/
def readText (t : FileTree) (p : Path) : Except FileError String :=
  match t.readFile p with
  | .error e => .error e
  | .ok content =>
    match String.fromUTF8? content with
    | some text => .ok text
    | none => .error .notUtf8

end FileTree

end ColumnSieve
