import ColumnSieve.Plan
import ColumnSieve.Proofs.Action
import ColumnSieve.Proofs.Output.Drafts

/-!
# Runs, all or nothing

A plan only reads.  So a run that fails leaves the files as they were, and one that succeeds puts
in place what the tool has extracted.

* `Tool.Preserves`      — what the answers of a tool leave true of the world;
* `Tool.Confined`       — a tool that writes nowhere but where it is told to;
* `plan_preserves`      — a plan preserves whatever the answers of the tool preserve;
* `plan_keeps`          — so it leaves the files alone;
* `RunEnds`, `run_ends` — a run ends as its plan does, or like any attempt to produce a file.
-/

namespace ColumnSieve

/-- What holds of the world still holds after the tool has been asked for headers or values. -/
structure Tool.Preserves {τ : Type} (tool : Tool τ) (Holds : World τ → Prop) : Prop where
  headers : ∀ source delimiter, (tool.headers source delimiter).Preserves Holds
  values : ∀ source column delimiter, (tool.values source column delimiter).Preserves Holds

/-- The tool changes no file but the one it extracts columns to, which it leaves a file or leaves
out; this is asked only for destinations where nothing is. -/
structure Tool.Confined {τ : Type} (tool : Tool τ) : Prop where
  headers : ∀ source delimiter, (tool.headers source delimiter).Keeps
  values : ∀ source column delimiter, (tool.values source column delimiter).Keeps
  extract : ∀ source spec delimiter destination (world : World τ),
    world.files.WellFormed → world.files.exists? destination = false →
      ColumnSieve.Confined world.files destination
        (tool.extract source spec delimiter destination world).2.files

/-- How a run ends: without a plan it reports what the plan does, and nothing has changed; with
one it is an attempt to produce the destination from what the tool extracts, and returns that
plan. -/
def RunEnds {τ : Type} (tool : Tool τ) (nonce : UInt64) (queries : List Query)
    (target destination : Path) (options : Options) (world : World τ) : Prop :=
  match plan tool queries target options world with
  | (.error e, planned) =>
    run tool nonce queries target destination options world = (.error e, planned) ∧
      world.files.Same planned.files
  | (.ok made, planned) =>
    AllOrNothing .file world.files (tempPath nonce destination) destination
        (tool.extract target made.spec options.delimiter (tempPath nonce destination) planned)
        (run tool nonce queries target destination options world) ∧
      ∀ returned, (run tool nonce queries target destination options world).1 = .ok returned →
        returned = made

section

variable {τ : Type} {tool : Tool τ}

/-! ## Plans -/

section

variable {Holds : World τ → Prop} (preserves : tool.Preserves Holds)

include preserves

theorem fetchColumns_preserves (source : Path) (delimiter : Char) (headers names : List String)
    (columns : Columns) :
    (fetchColumns tool source delimiter headers names columns).Preserves Holds := by
  induction names generalizing columns with
  | nil => exact .pure columns
  | cons name names ih =>
    rw [fetchColumns]
    split
    · exact ih columns
    · split
      · exact (preserves.values source name delimiter).bind fun cells => ih _
      · exact .throw _

theorem selectIdentifiers_preserves (delimiter : Char) (query : Query) :
    (selectIdentifiers tool delimiter query).Preserves Holds := by
  have hlift {α : Type} (result : Except Error α) :
      Action.Preserves Holds (selectIdentifiers.liftExcept result : Action τ Error α) :=
    fun _ h => h
  exact (preserves.headers _ _).bind fun headers =>
    (fetchColumns_preserves preserves _ _ headers _ _).bind fun columns =>
      (hlift _).bind fun rows => hlift _

theorem mapM_selectIdentifiers_preserves (delimiter : Char) (queries : List Query) :
    (queries.mapM (selectIdentifiers tool delimiter)).Preserves Holds :=
  .mapM (selectIdentifiers_preserves preserves delimiter) queries

/-- A plan only asks the tool for headers and values. -/
theorem plan_preserves (queries : List Query) (target : Path) (options : Options) :
    (plan tool queries target options).Preserves Holds := by
  intro world
  unfold plan
  split
  · refine ((mapM_selectIdentifiers_preserves preserves _ queries).bind fun sets =>
      (preserves.headers _ _).bind fun headers => ?_) world
    split
    · exact .throw _
    · exact .pure _
  · exact id

end

theorem Tool.Confined.preserves (confined : tool.Confined) (files : FileTree) :
    tool.Preserves fun world => files.Same world.files where
  headers source delimiter := Action.keeps_iff.1 (confined.headers source delimiter) files
  values source column delimiter :=
    Action.keeps_iff.1 (confined.values source column delimiter) files

theorem plan_keeps (confined : tool.Confined) (queries : List Query) (target : Path)
    (options : Options) : (plan tool queries target options).Keeps :=
  Action.keeps_iff.2 fun files => plan_preserves (confined.preserves files) queries target options

/-! ## Runs -/

variable {nonce : UInt64} {queries : List Query} {target destination : Path} {options : Options}
  {world planned : World τ} {made : Plan}

theorem run_of_plan_failed {e : Error}
    (h : plan tool queries target options world = (.error e, planned)) :
    run tool nonce queries target destination options world = (.error e, planned) := by
  rw [run, Action.bind_apply, h]

/-- Behind its plan a run is an attempt to produce the destination. -/
theorem run_of_planned (h : plan tool queries target options world = (.ok made, planned)) :
    run tool nonce queries target destination options world =
      ((writeWith .file nonce destination
        (fun temp => tool.extract target made.spec options.delimiter temp) planned).1.map
          fun _ => made,
        (writeWith .file nonce destination
          (fun temp => tool.extract target made.spec options.delimiter temp) planned).2) := by
  rw [run, Action.bind_apply, h]
  exact Action.bind_pure_apply _ made planned

/-- A run succeeds exactly if its plan, the extraction and the renaming do. -/
theorem run_eq_ok_iff {after : World τ} :
    run tool nonce queries target destination options world = (.ok made, after) ↔
      ∃ planned left result, plan tool queries target options world = (.ok made, planned) ∧
        tool.extract target made.spec options.delimiter (tempPath nonce destination) planned =
          (.ok (), left) ∧
        left.files.rename (tempPath nonce destination) destination = .ok result ∧
        after = { left with files := result } := by
  rw [run, Action.bind_eq_ok_iff]
  constructor
  · rintro ⟨found, planned, hplan, h⟩
    obtain ⟨⟨⟩, written, hwrite, h⟩ := Action.bind_eq_ok_iff.1 h
    cases h
    obtain ⟨left, result, hleft, hrename, hafter⟩ := writeWith_eq_ok_iff.1 hwrite
    exact ⟨planned, left, result, hplan, hleft, hrename, hafter⟩
  · rintro ⟨planned, left, result, hplan, hleft, hrename, hafter⟩
    refine ⟨made, planned, hplan, Action.bind_eq_ok_iff.2 ⟨(), after, ?_, rfl⟩⟩
    exact writeWith_eq_ok_iff.2 ⟨left, result, hleft, hrename, hafter⟩

/-- **Every run ends as its plan does, or like any attempt to produce its destination.** -/
theorem run_ends (confined : tool.Confined) (hwf : world.files.WellFormed)
    (hfresh : world.files.exists? (tempPath nonce destination) = false) :
    RunEnds tool nonce queries target destination options world ∧
      (run tool nonce queries target destination options world).2.files.WellFormed := by
  unfold RunEnds
  have hkeeps := plan_keeps confined queries target options world
  match hplan : plan tool queries target options world with
  | (.error e, planned) =>
    have hsame : world.files.Same planned.files := by simpa only [hplan] using hkeeps
    rw [run_of_plan_failed hplan]
    exact ⟨⟨rfl, hsame⟩, hwf.same hsame⟩
  | (.ok made, planned) =>
    have hsame : world.files.Same planned.files := by simpa only [hplan] using hkeeps
    have hfresh' : planned.files.exists? (tempPath nonce destination) = false := by
      rwa [hsame.exists?_eq]
    obtain ⟨hend, hafter⟩ := writeWith_allOrNothing (hwf.same hsame) hfresh'
      (confined.extract target made.spec options.delimiter _ planned (hwf.same hsame) hfresh')
    rw [run_of_planned hplan]
    refine ⟨⟨(hend.of_same hsame).map _, ?_⟩, hafter⟩
    intro returned h
    obtain ⟨_, _, hmade⟩ := Outcome.map_eq_ok_iff.1 h
    exact hmade.symm

end

end ColumnSieve
