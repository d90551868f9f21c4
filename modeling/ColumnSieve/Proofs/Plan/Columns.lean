import ColumnSieve.Command.Split
import ColumnSieve.Proofs.Plan.Meaning
import ColumnSieve.Proofs.Selection.Columns

/-!
# What a plan says of its columns

A plan names its columns three times: by identifiers, one by one, and folded into a specification.

* `plan_eq_ok_iff_stages` — a plan is made in stages: queries, headers, matching;
* `Plan.Agrees`           — the three lists name the same columns of the target;
* `plan_agrees`           — so they do in every plan, whatever the tool answers.
-/

namespace ColumnSieve

/-- Identifiers and columns of a plan agree, the positions are those of headers, and the
specification stands for the columns, each once, positions ascending before names. -/
structure Plan.Agrees (plan : Plan) (headers alwaysInclude : List String) : Prop where
  selection_agrees : Selection.Agrees ⟨plan.identifiers, plan.columns⟩ headers alwaysInclude
  targetColumns_eq : plan.targetColumns = headers.length
  position_within : ∀ n, .position n ∈ plan.columns → 1 ≤ n ∧ n ≤ plan.targetColumns
  spec_perm : plan.spec.columns.Perm plan.columns
  spec_ordered : ∃ positions : List Nat, positions.Pairwise (· < ·) ∧
    plan.spec.columns =
      positions.map .position ++ (plan.columns.filterMap Column.name?).map .name
  length_spec : plan.spec.columns.length = plan.identifiers.length

theorem Plan.Agrees.columns_eq {plan : Plan} {headers alwaysInclude : List String}
    (h : plan.Agrees headers alwaysInclude) :
    plan.columns = plan.identifiers.map (columnOf headers) :=
  h.selection_agrees.columns_eq

section

variable {τ : Type} {tool : Tool τ} {queries : List Query} {target : Path} {options : Options}
  {world after : World τ} {made : Plan}

/-- A plan is made of what the queries select, the headers that the tool then finds in the target,
and the columns for both. -/
theorem plan_eq_ok_iff_stages : plan tool queries target options world = (.ok made, after) ↔
    world.files.isFile target = true ∧ ∃ sets before headers selection,
      queries.mapM (selectIdentifiers tool options.metadataDelimiter) world = (.ok sets, before) ∧
      tool.headers target options.delimiter before = (.ok headers, after) ∧
      selectColumns options.mode options.alwaysInclude headers options.ignoreMissing sets =
        .ok selection ∧
      made = ⟨selection.identifiers, selection.columns, Spec.ofColumns selection.columns,
        headers.length⟩ := by
  unfold plan
  split
  · rename_i hfile
    constructor
    · intro h
      obtain ⟨sets, before, hsets, h⟩ := Action.bind_eq_ok_iff.1 h
      obtain ⟨headers, asked, hheaders, h⟩ := Action.bind_eq_ok_iff.1 h
      cases hselection : selectColumns options.mode options.alwaysInclude headers
          options.ignoreMissing sets with
      | error e =>
        rw [hselection] at h
        cases h
      | ok selection =>
        rw [hselection] at h
        cases h
        exact ⟨hfile, sets, before, headers, selection, hsets, hheaders, hselection, rfl⟩
    · rintro ⟨-, sets, before, headers, selection, hsets, hheaders, hselection, rfl⟩
      refine Action.bind_eq_ok_iff.2 ⟨sets, before, hsets, ?_⟩
      refine Action.bind_eq_ok_iff.2 ⟨headers, after, hheaders, ?_⟩
      rw [hselection]
      rfl
  · rename_i hfile
    exact iff_of_false nofun fun h => hfile h.1

/-- What a selection that agrees says of positions and of its specification. -/
theorem agrees_of_selection {headers alwaysInclude : List String} {selection : Selection}
    (h : selection.Agrees headers alwaysInclude) :
    Plan.Agrees ⟨selection.identifiers, selection.columns, Spec.ofColumns selection.columns,
      headers.length⟩ headers alwaysInclude := by
  have hperm := Spec.columns_perm h.columns_nodup
  refine ⟨h, rfl, ?_, hperm, ?_, ?_⟩
  · intro n hn
    obtain ⟨id, -, hid⟩ := List.mem_map.1 (h.columns_eq ▸ hn)
    obtain ⟨i, rfl, hi, -⟩ := standsFor_iff.2 hid.symm
    obtain ⟨hlt, -⟩ := List.getElem?_eq_some_iff.1 hi
    exact ⟨Nat.succ_pos i, hlt⟩
  · exact ⟨_, NatSet.ascending _, Spec.columns_ofColumns _⟩
  · exact hperm.length_eq.trans h.standFor.length_eq.symm

/-- **What a plan says of its columns never drifts apart**, whatever the tool answers.  By the
headers that it finds in the target, identifiers and columns agree side by side, the specification
stands for these columns, and there are as many of them as the command line announces. -/
theorem plan_agrees (h : (plan tool queries target options world).1 = .ok made) :
    ∃ sets before headers,
      queries.mapM (selectIdentifiers tool options.metadataDelimiter) world = (.ok sets, before) ∧
      tool.headers target options.delimiter before =
        (.ok headers, (plan tool queries target options world).2) ∧
      made.Agrees headers options.alwaysInclude ∧
      Command.summaryText made = s!"Selected {made.spec.columns.length} columns.\nDone!\n" ∧
      ∃ list, Command.previewText made =
        s!"Would select {made.spec.columns.length} of {headers.length} columns:\n" ++ list := by
  obtain ⟨-, sets, before, headers, selection, hsets, hheaders, hselection, rfl⟩ :=
    plan_eq_ok_iff_stages.1 (Prod.ext h rfl)
  have hagrees := agrees_of_selection (agrees_of_selectColumns hselection)
  rw [hagrees.length_spec]
  exact ⟨sets, before, headers, hsets, hheaders, hagrees, rfl, _, String.append_assoc⟩

end

/-! ## A plan for two samples -/

/-- The sample of each of two tissues. -/
def sampleQueries : List Query :=
  [⟨"", ⟨"/samples.csv"⟩, "id", [⟨.union, "tissue", .equal, ["skin"]⟩]⟩,
    ⟨"", ⟨"/samples.csv"⟩, "id", [⟨.union, "tissue", .equal, ["liver"]⟩]⟩]

/-- One of the samples is also always included, and so is a name that heads no column. -/
def sampleOptions : Options := ⟨true, ',', ',', ["gene", "s2", "note"], .union⟩

def samplePlan : Plan :=
  ⟨["s2", "s1", "gene", "note"], [.position 2, .position 3, .position 1, .name "note"],
    ⟨[.range 1 3, .name "note"]⟩, 4⟩

def sampleWorld : World Unit := ⟨⟨[], [(["counts.csv"], .file .empty)]⟩, ()⟩

theorem plan_of_samples : (plan (Tool.ofTables Unit sampleTables) sampleQueries ⟨"/counts.csv"⟩
    sampleOptions sampleWorld).1 = .ok samplePlan := by
  have hselection : selectColumns .union sampleOptions.alwaysInclude ["gene", "s2", "s1", "s2"] true
      [["s2"], ["s1"]] = .ok ⟨samplePlan.identifiers, samplePlan.columns⟩ := by
    decide +kernel
  -- sorting does not compute, but the positions are known
  have hpositions (n : Nat) :
      n ∈ samplePlan.columns.filterMap Column.position? ↔ n ∈ [1, 2, 3] := by
    show n ∈ [2, 3, 1] ↔ n ∈ [1, 2, 3]
    grind
  have hspec : Spec.ofColumns samplePlan.columns = samplePlan.spec := by
    rw [Spec.ofColumns_eq [1, 2, 3] (by decide) hpositions]
    decide
  have hmade : samplePlan = ⟨samplePlan.identifiers, samplePlan.columns,
      Spec.ofColumns samplePlan.columns, 4⟩ := by
    rw [hspec]
    rfl
  exact congrArg Prod.fst (plan_eq_ok_iff_stages.2 ⟨by decide +kernel, [["s2"], ["s1"]], _, _, _,
    Prod.ext (by decide +kernel) rfl, rfl, hselection, hmade⟩)

theorem plan_agrees_of_samples :
    (plan (Tool.ofTables Unit sampleTables) sampleQueries ⟨"/counts.csv"⟩ sampleOptions
        sampleWorld).1 = .ok samplePlan ∧
      samplePlan.Agrees ["gene", "s2", "s1", "s2"] ["gene", "s2", "note"] := by
  obtain ⟨sets, before, headers, -, hheaders, hagrees, -⟩ := plan_agrees plan_of_samples
  have hheader : Except.ok headers = Except.ok ["gene", "s2", "s1", "s2"] :=
    congrArg Prod.fst hheaders.symm
  cases hheader
  exact ⟨plan_of_samples, hagrees⟩

end ColumnSieve
