import ColumnSieve.Proofs.Tool.Plain

/-!
# Sessions

Plans, runs and other attempts to produce a file, one after the other.

* `Call`, `Call.perform`, `Call.output` — one of them, and the file that it puts in place;
* `Session.perform`, `Session.outputs`  — several, and their files, the latest first;
* `Call.perform_becomes`                — one call changes nothing but its file;
* `Session.perform_becomes`             — nor do several: each location holds the latest file put
  there in full, or what it held at the start;
* `no_partial_output`                   — all of this in one statement.
-/

namespace ColumnSieve

open FileTree

/-- Something that is done with the files. -/
inductive Call (τ : Type) where
  | plan (queries : List Query) (target : Path) (options : Options)
  | run (nonce : UInt64) (queries : List Query) (target destination : Path) (options : Options)
  | write {ε : Type} (ofFileError : FileError → ε) (nonce : UInt64) (destination : Path)
    (writer : Path → Action τ ε Unit)

/-- A file put in place: where, and its content. -/
abbrev Placed := Location × ByteArray

/-- The file that an attempt puts in place if it succeeds: where `final` leads to, with what the
writer has left at `temp`. -/
def placed {τ ε α : Type} (temp final : Path) (left : Except ε Unit × World τ)
    (outcome : Except ε α × World τ) : List Placed :=
  match outcome with
  | (.error _, _) => []
  | (.ok _, after) =>
    match after.files.locate final, left.2.files.readFile temp with
    | .ok loc, .ok content => [(loc, content)]
    | _, _ => []

namespace Call

variable {τ : Type}

/-- The world that a call leaves. -/
def perform (tool : Tool τ) (world : World τ) : Call τ → World τ
  | .plan queries target options => (ColumnSieve.plan tool queries target options world).2
  | .run nonce queries target destination options =>
    (ColumnSieve.run tool nonce queries target destination options world).2
  | .write ofFileError nonce destination writer =>
    (writeWith ofFileError nonce destination writer world).2

/-- The file that a call puts in place, if it does. -/
def output (tool : Tool τ) (world : World τ) : Call τ → List Placed
  | .plan _ _ _ => []
  | .run nonce queries target destination options =>
    match ColumnSieve.plan tool queries target options world with
    | (.error _, _) => []
    | (.ok made, planned) =>
      placed (tempPath nonce destination) destination
        (tool.extract target made.spec options.delimiter (tempPath nonce destination) planned)
        (ColumnSieve.run tool nonce queries target destination options world)
  | .write ofFileError nonce destination writer =>
    placed (tempPath nonce destination) destination (writer (tempPath nonce destination) world)
      (writeWith ofFileError nonce destination writer world)

/-- The temporary path of a call is free, and its writer does no more than it may. -/
def Allowed (world : World τ) : Call τ → Prop
  | .plan _ _ _ => True
  | .run nonce _ _ destination _ => world.files.exists? (tempPath nonce destination) = false
  | .write _ nonce destination writer =>
    world.files.exists? (tempPath nonce destination) = false ∧
      Confined world.files (tempPath nonce destination)
        (writer (tempPath nonce destination) world).2.files

end Call

/-- Where files have been put in place, the latest first, stands the latest put there, in full;
all else is as before. -/
structure FileTree.Becomes (before : FileTree) (files : List Placed) (after : FileTree) : Prop where
  workDir_eq : after.workDir = before.workDir
  node?_eq : ∀ loc, after.node? loc =
    match files.lookup loc with
    | some content => some (.file content)
    | none => before.node? loc

namespace Session

variable {τ : Type}

/-- The world after several calls. -/
def perform (tool : Tool τ) (world : World τ) (calls : List (Call τ)) : World τ :=
  calls.foldl (Call.perform tool) world

/-- The files that several calls put in place, the latest first. -/
def outputs (tool : Tool τ) (world : World τ) : List (Call τ) → List Placed
  | [] => []
  | call :: calls => outputs tool (call.perform tool world) calls ++ call.output tool world

/-- Each call is allowed in the world that it finds. -/
def Allowed (tool : Tool τ) (world : World τ) : List (Call τ) → Prop
  | [] => True
  | call :: calls => call.Allowed world ∧ Allowed tool (call.perform tool world) calls

end Session

/-! ## Files put in place -/

namespace FileTree.Becomes

variable {before after after' : FileTree} {files files' : List Placed}

theorem of_same (h : before.Same after) : before.Becomes [] after := ⟨h.workDir_eq, h.node?_eq⟩

theorem of_sameBut {loc : Location} {content : ByteArray} (h : SameBut loc before after)
    (hnode : after.node? loc = some (.file content)) : before.Becomes [(loc, content)] after := by
  refine ⟨h.workDir_eq, ?_⟩
  intro other
  by_cases hother : other = loc
  · rw [hother, List.lookup_cons_self, hnode]
  · rw [List.lookup_cons, beq_eq_false_iff_ne.2 hother]
    exact h.node?_eq other hother

theorem trans (h : before.Becomes files after) (h' : after.Becomes files' after') :
    before.Becomes (files' ++ files) after' := by
  refine ⟨h'.workDir_eq.trans h.workDir_eq, ?_⟩
  intro loc
  rw [h'.node?_eq, h.node?_eq, List.lookup_append]
  cases files'.lookup loc with
  | none => rfl
  | some content => rfl

end FileTree.Becomes

/-- An attempt changes nothing but the file that it puts in place. -/
theorem AllOrNothing.becomes {τ ε α : Type} {ofFileError : FileError → ε} {before : FileTree}
    {temp final : Path} {left : Except ε Unit × World τ} {outcome : Except ε α × World τ}
    (h : AllOrNothing ofFileError before temp final left outcome) :
    before.Becomes (placed temp final left outcome) outcome.2.files := by
  match outcome, h with
  | (.error _, _), ⟨hsame, _⟩ => exact .of_same hsame
  | (.ok _, _), ⟨_, content, hread, loc, hloc, hnode, hbut⟩ =>
    simp only [placed, hloc, hread]
    exact .of_sameBut hbut hnode

/-! ## One call -/

section

variable {τ : Type} {tool : Tool τ} {world : World τ} {call : Call τ}

/-- The step of a session: a call changes nothing but the file that it puts in place. -/
theorem Call.perform_becomes (confined : tool.Confined) (hwf : world.files.WellFormed)
    (hallowed : call.Allowed world) :
    world.files.Becomes (call.output tool world) (call.perform tool world).files ∧
      (call.perform tool world).files.WellFormed := by
  cases call with
  | plan queries target options =>
    have hsame := plan_keeps confined queries target options world
    exact ⟨.of_same hsame, hwf.same hsame⟩
  | run nonce queries target destination options =>
    obtain ⟨hend, hafter⟩ := run_ends confined hwf hallowed
    refine ⟨?_, hafter⟩
    unfold RunEnds at hend
    match hplan : ColumnSieve.plan tool queries target options world with
    | (.error e, planned) =>
      rw [hplan] at hend
      obtain ⟨hrun, hsame⟩ := hend
      simp only [output, perform, hplan, hrun]
      exact .of_same hsame
    | (.ok made, planned) =>
      rw [hplan] at hend
      simp only [output, perform, hplan]
      exact hend.1.becomes
  | write ofFileError nonce destination writer =>
    obtain ⟨hend, hafter⟩ := writeWith_allOrNothing hwf hallowed.1 hallowed.2
    exact ⟨hend.becomes, hafter⟩

end

/-! ## Sessions -/

section

variable {τ : Type} {tool : Tool τ} {world : World τ} {calls : List (Call τ)}

theorem Session.Allowed.take (h : Session.Allowed tool world calls) (n : Nat) :
    Session.Allowed tool world (calls.take n) := by
  induction calls generalizing world n with
  | nil => simpa using h
  | cons call calls ih =>
    cases n with
    | zero => trivial
    | succ n => exact ⟨h.1, ih h.2 n⟩

/-- **Whatever has been done, every location holds the latest file put there in full, or what it
held at the start.** -/
theorem Session.perform_becomes (confined : tool.Confined) (hwf : world.files.WellFormed)
    (hallowed : Session.Allowed tool world calls) :
    world.files.Becomes (Session.outputs tool world calls)
      (Session.perform tool world calls).files := by
  induction calls generalizing world with
  | nil => exact .of_same (.refl world.files)
  | cons call calls ih =>
    obtain ⟨hstep, hnext⟩ := Call.perform_becomes confined hwf hallowed.1
    exact hstep.trans (ih hnext hallowed.2)

/-- **No output is ever partial.**  Where a temporary path is free and the writer or the tool does
no more than it may, every attempt to produce a file and every run end with the whole file in place
and all else untouched, or with the files as they were and an error of the plan, the writer or the
renaming.  So after each step of a session every location holds the latest file put there in full,
or what it held at the start. -/
theorem no_partial_output (world : World τ) (hwf : world.files.WellFormed) :
    (∀ {ε : Type} (ofFileError : FileError → ε) (nonce : UInt64) (destination : Path)
        (writer : Path → Action τ ε Unit),
      world.files.exists? (tempPath nonce destination) = false →
      Confined world.files (tempPath nonce destination)
        (writer (tempPath nonce destination) world).2.files →
      AllOrNothing ofFileError world.files (tempPath nonce destination) destination
        (writer (tempPath nonce destination) world)
        (writeWith ofFileError nonce destination writer world)) ∧
    ∀ tool : Tool τ, tool.Confined →
      (∀ nonce queries target destination options,
        world.files.exists? (tempPath nonce destination) = false →
        RunEnds tool nonce queries target destination options world) ∧
      ∀ calls n, Session.Allowed tool world calls →
        world.files.Becomes (Session.outputs tool world (calls.take n))
          (Session.perform tool world (calls.take n)).files := by
  constructor
  · intro ε ofFileError nonce destination writer hfresh hwriter
    exact (writeWith_allOrNothing hwf hfresh hwriter).1
  · intro tool confined
    constructor
    · intro nonce queries target destination options hfresh
      exact (run_ends confined hwf hfresh).1
    · intro calls n hallowed
      exact Session.perform_becomes confined hwf (hallowed.take n)

end

/-! ## A session in a directory with data -/

namespace Session

/-- Two tables and a file that is there already. -/
def dataFiles : FileTree :=
  ⟨["data"], [(["data"], .dir),
    (["data", "samples.csv"], .file "id,tissue\ns1,liver\ns2,lung\n".toUTF8),
    (["data", "counts.csv"], .file "gene,s1,s2\ng1,4,7\n".toUTF8),
    (["data", "out.csv"], .file "old\n".toUTF8)]⟩

def lungQuery : Query :=
  ⟨"samples.csv@id?tissue=lung", ⟨"/data/samples.csv"⟩, "id", [⟨.union, "tissue", .equal, ["lung"]⟩]⟩

def plainOptions : Options := ⟨false, ',', ',', [], .union⟩

def lungPlan : Plan := ⟨["s2"], [.position 3], ⟨[.single 3]⟩, 3⟩

/-- Leaves a part of its output and fails. -/
def breakingWriter (temp : Path) : Action Unit String Unit := fun world =>
  match world.files.writeFile temp "par".toUTF8 with
  | .ok files => (.error "broken", { world with files := files })
  | .error _ => (.error "refused", world)

/-- A run over the file that is there, failing attempts at it and in a directory that is not
there, and a plan. -/
def dataCalls : List (Call Unit) :=
  [.run 7 [lungQuery] ⟨"counts.csv"⟩ ⟨"out.csv"⟩ plainOptions,
    .write (fun _ => "refused") 8 ⟨"out.csv"⟩ breakingWriter,
    .write (fun _ => "refused") 9 ⟨"absent/out.csv"⟩ breakingWriter,
    .plan [lungQuery] ⟨"counts.csv"⟩ plainOptions]

theorem breakingWriter_confined {temp : Path} {world : World Unit}
    (h : world.files.exists? temp = false) :
    Confined world.files temp (breakingWriter temp world).2.files := by
  unfold breakingWriter
  split
  · rename_i files hwrite
    exact .of_writeFile hwrite
  · exact .of_unchanged h

theorem dataCalls_allowed : Allowed (Tool.plain "csvtk") ⟨dataFiles, ()⟩ dataCalls := by
  have hrun : dataFiles.exists? (tempPath 7 ⟨"out.csv"⟩) = false := by decide +kernel
  have hbroken {nonce : UInt64} {destination : Path} {world : World Unit}
      (h : world.files.exists? (tempPath nonce destination) = false) :
      Call.Allowed world (.write (fun _ => "refused") nonce destination breakingWriter) :=
    ⟨h, breakingWriter_confined h⟩
  exact ⟨hrun, hbroken (by decide +kernel), hbroken (by decide +kernel), trivial, trivial⟩

end Session

theorem no_partial_output_of_data :
    Session.dataFiles.WellFormed ∧ (Tool.plain "csvtk" : Tool Unit).Confined ∧
      Session.dataFiles.Same
        (writeWith (fun _ => "refused") 8 ⟨"out.csv"⟩ Session.breakingWriter
          ⟨Session.dataFiles, ()⟩).2.files ∧
      Replaces Session.dataFiles ⟨"out.csv"⟩ "s2\n7\n".toUTF8
        (run (Tool.plain "csvtk") 7 [Session.lungQuery] ⟨"counts.csv"⟩ ⟨"out.csv"⟩
          Session.plainOptions ⟨Session.dataFiles, ()⟩).2.files ∧
      Session.dataFiles.Becomes [(["data", "out.csv"], "s2\n7\n".toUTF8)]
        (Session.perform (Tool.plain "csvtk") ⟨Session.dataFiles, ()⟩ Session.dataCalls).files := by
  have hwf : Session.dataFiles.WellFormed := by decide +kernel
  obtain ⟨hwrite, htool⟩ := no_partial_output (⟨Session.dataFiles, ()⟩ : World Unit) hwf
  obtain ⟨hrun, hsession⟩ := htool (Tool.plain "csvtk") (Tool.plain_confined "csvtk")
  refine ⟨hwf, Tool.plain_confined "csvtk", ?_, ?_, ?_⟩
  · have hfresh : Session.dataFiles.exists? (tempPath 8 ⟨"out.csv"⟩) = false := by decide +kernel
    have hend := hwrite (fun _ => "refused") 8 ⟨"out.csv"⟩ Session.breakingWriter hfresh
      (Session.breakingWriter_confined hfresh)
    have herror : (writeWith (fun _ => "refused") 8 ⟨"out.csv"⟩ Session.breakingWriter
        ⟨Session.dataFiles, ()⟩).1 = .error "broken" := by decide +kernel
    exact hend.same_of_error herror
  · have hfresh : Session.dataFiles.exists? (tempPath 7 ⟨"out.csv"⟩) = false := by decide +kernel
    have hend := hrun 7 [Session.lungQuery] ⟨"counts.csv"⟩ ⟨"out.csv"⟩ Session.plainOptions hfresh
    have hplan : plan (Tool.plain "csvtk") [Session.lungQuery] ⟨"counts.csv"⟩ Session.plainOptions
        ⟨Session.dataFiles, ()⟩ = (.ok Session.lungPlan, ⟨Session.dataFiles, ()⟩) :=
      Prod.ext (by decide +kernel) (congrArg (fun files => (⟨files, ()⟩ : World Unit))
        (show (plan _ _ _ _ _).2.files = Session.dataFiles by decide +kernel))
    rw [RunEnds, hplan] at hend
    have hrun : (run (Tool.plain "csvtk") 7 [Session.lungQuery] ⟨"counts.csv"⟩ ⟨"out.csv"⟩
        Session.plainOptions ⟨Session.dataFiles, ()⟩).1 = .ok Session.lungPlan := by
      decide +kernel
    exact hend.1.replaces_of_ok hrun (by decide +kernel)
  · have houtputs : Session.outputs (Tool.plain "csvtk") ⟨Session.dataFiles, ()⟩
        (Session.dataCalls.take 4) = [(["data", "out.csv"], "s2\n7\n".toUTF8)] := by
      decide +kernel
    exact houtputs ▸ hsession Session.dataCalls 4 Session.dataCalls_allowed

end ColumnSieve
