import ColumnSieve.FileTree.Basic

/-!
# Changing a tree of files

* `FileTree.put`, `FileTree.erase`, `FileTree.move` — the changes to the nodes themselves;
* `FileTree.writeFile`, `FileTree.removeFile`, `FileTree.rename`, `FileTree.makeDir` — the same
  by path, with the conditions under which the operating system refuses them;
* `FileTree.makeDirs` — a directory with those above it.

A refused change leaves the tree as it was: each operation gives a new tree or an error.  Only
`makeDirs` is a row of changes, of which those before a refusal stay.
-/

namespace ColumnSieve

namespace FileTree

/-! ## Nodes -/

/-- Places a node at a location, instead of what stood there. -/
def put (t : FileTree) (loc : Location) (node : Node) : FileTree :=
  { t with nodes := (loc, node) :: t.nodes.filter (·.1 ≠ loc) }

def erase (t : FileTree) (loc : Location) : FileTree :=
  { t with nodes := t.nodes.filter (·.1 ≠ loc) }

/-- A location at or below `source`, carried over to `target`. -/
def carry (source target loc : Location) : Location :=
  if source.isPrefixOf loc then target ++ loc.drop source.length else loc

/-- Moves a node, with all that stands below it, over what stood at the target. -/
def move (t : FileTree) (source target : Location) : FileTree :=
  { t with nodes := (t.nodes.filter (·.1 ≠ target)).map fun n => (carry source target n.1, n.2) }

/-- Whether anything stands below a location. -/
def hasChildren (t : FileTree) (loc : Location) : Bool :=
  t.nodes.any fun n => loc.isPrefixOf n.1 && n.1 != loc

/-! ## The place that a path names -/

/-- A name in a directory, whether or not a file of that name is there. -/
structure Place where
  dir : Location
  name : String
  /-- A slash behind the name, which asks for a directory. -/
  slash : Bool

namespace Place

/-- The root and the dots are no names in a directory. -/
def isSpecial (place : Place) : Bool :=
  place.name == "" || place.name == "." || place.name == ".."

def location (place : Place) : Location := place.dir ++ [place.name]

end Place

/-- The place that a path names: all names but the last have to lead to a directory. -/
def place (t : FileTree) (p : Path) : Except FileError Place :=
  if p.chars.contains '\x00' then .error .nulInName
  else if p.text = "" then .error (.os .noEntry)
  else if maxPath ≤ p.text.utf8ByteSize then .error (.os .nameTooLong)
  else
    let body := ((nameTexts p).reverse.dropWhile (· == "")).reverse
    match t.walk (t.start p) (body.dropLast ++ [""]) with
    | .error e => .error (.os e)
    | .ok dir => .ok ⟨dir, body.getLastD "", p.chars.getLast? == some '/'⟩

/-- What stands at a place.  Names that are too long are refused when they are looked up. -/
def lookUp (t : FileTree) (place : Place) : Except FileError (Option Node) :=
  if maxName < place.name.utf8ByteSize then .error (.os .nameTooLong)
  else .ok (t.node? place.location)

/-! ## Operations -/

/-- Creates a file, or replaces the content of one. -/
def writeFile (t : FileTree) (p : Path) (content : ByteArray) : Except FileError FileTree :=
  match t.place p with
  | .error e => .error e
  | .ok place =>
    if place.isSpecial || place.slash then .error (.os .isDirectory)
    else
      match t.lookUp place with
      | .error e => .error e
      | .ok (some .dir) => .error (.os .isDirectory)
      | .ok _ => .ok (t.put place.location (.file content))

/-- Removes a file; directories stay. -/
def removeFile (t : FileTree) (p : Path) : Except FileError FileTree :=
  match t.place p with
  | .error e => .error e
  | .ok place =>
    if place.isSpecial then .error (.os .isDirectory)
    else
      match t.lookUp place with
      | .error e => .error e
      | .ok none => .error (.os .noEntry)
      | .ok (some .dir) => .error (.os .isDirectory)
      | .ok (some (.file _)) =>
        if place.slash then .error (.os .notDirectory) else .ok (t.erase place.location)

/-- Whether a node may take the place of what stands at `target`. -/
def mayReplace (t : FileTree) (node : Node) (target : Location) : Except OsError Unit :=
  match node, t.node? target with
  | _, none => .ok ()
  | .file _, some (.file _) => .ok ()
  | .file _, some .dir => .error .isDirectory
  | .dir, some (.file _) => .error .notDirectory
  | .dir, some .dir => if t.hasChildren target then .error .notEmpty else .ok ()

/-- Renames a file or directory over a file or an empty directory of the same kind.  A
directory goes neither into itself nor over one that holds it. -/
def rename (t : FileTree) (source target : Path) : Except FileError FileTree :=
  if source.chars.contains '\x00' || target.chars.contains '\x00' then .error .nulInName
  else
    match t.place source with
    | .error e => .error e
    | .ok old =>
      match t.place target with
      | .error e => .error e
      | .ok new =>
        if old.isSpecial || new.isSpecial then .error (.os .busy)
        else
          match t.lookUp old with
          | .error e => .error e
          | .ok none => .error (.os .noEntry)
          | .ok (some node) =>
            match t.lookUp new with
            | .error e => .error e
            | .ok _ =>
              if node ≠ .dir ∧ (old.slash || new.slash) then .error (.os .notDirectory)
              else if old.location = new.location then .ok t
              else if old.location.isPrefixOf new.location then .error (.os .invalidArgument)
              else if new.location.isPrefixOf old.location then .error (.os .notEmpty)
              else
                match t.mayReplace node new.location with
                | .error e => .error (.os e)
                | .ok () => .ok (t.move old.location new.location)

/-- Creates a directory in one that is there.  The root and the dots are there already. -/
def makeDir (t : FileTree) (p : Path) : Except FileError FileTree :=
  match t.place p with
  | .error e => .error e
  | .ok place =>
    if place.isSpecial then .error (.os .alreadyExists)
    else
      match t.lookUp place with
      | .error e => .error e
      | .ok (some _) => .error (.os .alreadyExists)
      | .ok none => .ok (t.put place.location .dir)

/-! ## Directories above one another -/

/-- The outcome of creating a directory; one that is there already will do. -/
def settle (t : FileTree) (p : Path) : Except FileError FileTree → Except FileError Unit × FileTree
  | .ok made => (.ok (), made)
  | .error e => (if t.isDir p then .ok () else .error e, t)

/-- Creates a directory; if what is above it is missing, first its parent, at most `depth`
directories in all. -/
def makeDirsWithin : Nat → FileTree → Path → Except FileError Unit × FileTree
  | 0, t, _ => (.ok (), t)
  | depth + 1, t, p =>
    if p.text = "" then (.ok (), t)
    else
      match t.makeDir p with
      | .error (.os .noEntry) =>
        match makeDirsWithin depth t p.parent with
        | (.error e, t) => (.error e, t)
        | (.ok (), t) => t.settle p (t.makeDir p)
      | made => t.settle p made

/-- Creates a directory, and those above it that are missing.  Every parent has a name less,
so there are no more of them than names.  Directories created before a refusal stay. -/
def makeDirs (t : FileTree) (p : Path) : Except FileError Unit × FileTree :=
  makeDirsWithin p.names.length t p

end FileTree

end ColumnSieve
