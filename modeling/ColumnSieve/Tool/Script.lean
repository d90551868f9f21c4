import ColumnSieve.Tool.External

/-!
# Programs that play a script

Every program that is found plays the next response of a script, and its arguments are logged.
This is how runs are rehearsed without any program.

* `Script.findProgram` — whether, and why not, a program can be started;
* `Script.play`        — one call.
-/

namespace ColumnSieve

/-- What a program does when it is called. -/
structure Response where
  status : ExitStatus
  stdout : ByteArray
  stderr : ByteArray
  /-- Written to the file named behind the argument `-o`, if there is one. -/
  output : Option ByteArray

/-- The responses to come, and the arguments of the calls made so far. -/
structure Script where
  /-- The programs: names that are found without a path, and canonical paths of files. -/
  installed : List String
  responses : List Response
  calls : List (List String)

namespace Script

/-- A call beyond the end of the script. -/
def unscripted : Response where
  status := .code 99
  stdout := .empty
  stderr := "unscripted call".toUTF8
  output := none

/-- Whether a program can be started.  A name without a slash is looked up among the installed
programs, in whose directory the dots name directories.  A name with a slash is a path, and has to
lead to a file that is an installed program. -/
def findProgram (installed : List String) (files : FileTree) (program : String) :
    Except OsError Unit :=
  if program.toList.contains '/' then
    match files.locate ⟨program⟩ with
    | .error (.os e) => .error e
    | .error _ => .error .noEntry
    | .ok loc =>
      if files.isFile ⟨program⟩ && installed.contains (FileTree.pathOf loc).text then .ok ()
      else .error .accessDenied
  else if installed.contains program then .ok ()
  else if program = "." ∨ program = ".." then .error .accessDenied
  else if FileTree.maxName < program.utf8ByteSize then .error .nameTooLong
  else .error .noEntry

/-- The argument behind the first `-o`. -/
def outputArgument? (arguments : List String) : Option String :=
  (arguments.dropWhile (· ≠ "-o")).tail.head?

/-- Writes the output of a response where the arguments ask for it.  A file that cannot be
written is passed over. -/
def writeOutput (files : FileTree) (arguments : List String) (response : Response) : FileTree :=
  match response.output, outputArgument? arguments with
  | some output, some path =>
    match files.writeFile ⟨path⟩ output with
    | .ok files => files
    | .error _ => files
  | _, _ => files

/-- Starts a program, which plays the next response. -/
def play : Programs Script := fun program arguments world =>
  if (program :: arguments).any (·.toList.contains '\x00') then (.error .nulInText, world)
  else
    match findProgram world.tool.installed world.files program with
    | .error e => (.error (.os e), world)
    | .ok () =>
      let response := world.tool.responses.headD unscripted
      (.ok ⟨response.status, response.stdout, response.stderr⟩,
        { files := writeOutput world.files arguments response
          tool := { world.tool with
            responses := world.tool.responses.tail
            calls := world.tool.calls ++ [arguments] } })

end Script

end ColumnSieve
