import ColumnSieve.Proofs.Run

/-!
# Transcripts of calls

A transcript has every call made to a tool with the answer that the tool gave.  It is kept beside
the world, so neither the tool nor those who ask it can tell.

* `Exchange`, `Tool.transcribing` — a call with its answer, and a tool that writes them down;
* `Tool.Related`, `plan_related`  — tools that cannot be told apart lead to one plan;
* `plan_transcribing`             — a transcript changes nothing, and has the calls that
  `Tool.recording` logs;
* `Action.Writes`                 — what an action adds to a transcript, and its outcome with it.
-/

namespace ColumnSieve

/-- A call to a tool with the answer to it. -/
inductive Exchange where
  | headers (source : Path) (delimiter : Char) (answer : Except Error (List String))
  | values (source : Path) (column : String) (delimiter : Char)
    (answer : Except Error (List String))
  | extract (source : Path) (spec : Spec) (delimiter : Char) (destination : Path)
    (answer : Except Error Unit)

namespace Exchange

def call : Exchange → ToolCall
  | headers source delimiter _ => .headers source delimiter
  | values source column delimiter _ => .values source column delimiter
  | extract source spec delimiter destination _ => .extract source spec delimiter destination

/-- The error that a call has failed with. -/
def failure? : Exchange → Option Error
  | headers _ _ (.error e) => some e
  | values _ _ _ (.error e) => some e
  | extract _ _ _ _ (.error e) => some e
  | _ => none

section

variable {source : Path} {column : String} {delimiter : Char}
  {answer : Except Error (List String)} {e : Error}

@[simp] theorem failure?_headers_eq_some_iff :
    (headers source delimiter answer).failure? = some e ↔ answer = .error e := by
  cases answer <;> simp [failure?]

@[simp] theorem failure?_values_eq_some_iff :
    (values source column delimiter answer).failure? = some e ↔ answer = .error e := by
  cases answer <;> simp [failure?]

end

end Exchange

/-- Adds a note on its outcome behind the notes that stand beside the world. -/
def Action.noting {τ σ ε α : Type} (note : Except ε α → σ) (action : Action τ ε α) :
    Action (τ × List σ) ε α := fun world =>
  match action ⟨world.files, world.tool.1⟩ with
  | (result, after) => (result, ⟨after.files, (after.tool, world.tool.2 ++ [note result])⟩)

/-- Writes down every call with its answer. -/
def Tool.transcribing {τ : Type} (tool : Tool τ) : Tool (τ × List Exchange) where
  headers source delimiter := (tool.headers source delimiter).noting (.headers source delimiter)
  values source column delimiter :=
    (tool.values source column delimiter).noting (.values source column delimiter)
  extract source spec delimiter destination :=
    (tool.extract source spec delimiter destination).noting
      (.extract source spec delimiter destination)

/-! ## Tools that cannot be told apart -/

/-- Asked in related worlds, the tools give the same headers and values, and leave related
worlds. -/
structure Tool.Related {τ σ : Type} (R : World τ → World σ → Prop) (tool : Tool τ)
    (other : Tool σ) : Prop where
  headers : ∀ source delimiter,
    Action.Related R (tool.headers source delimiter) (other.headers source delimiter)
  values : ∀ source column delimiter,
    Action.Related R (tool.values source column delimiter) (other.values source column delimiter)

section

variable {τ σ : Type} {tool : Tool τ} {other : Tool σ} {R : World τ → World σ → Prop}
  (related : tool.Related R other)

include related

theorem fetchColumns_related (source : Path) (delimiter : Char) (headers names : List String)
    (columns : Columns) :
    Action.Related R (fetchColumns tool source delimiter headers names columns)
      (fetchColumns other source delimiter headers names columns) := by
  induction names generalizing columns with
  | nil => exact .pure columns
  | cons name names ih =>
    rw [fetchColumns, fetchColumns]
    split
    · exact ih columns
    · split
      · exact (related.values source name delimiter).bind fun cells => ih _
      · exact .throw _

theorem selectIdentifiers_related (delimiter : Char) (query : Query) :
    Action.Related R (selectIdentifiers tool delimiter query)
      (selectIdentifiers other delimiter query) := by
  have hlift {α : Type} (result : Except Error α) :
      Action.Related R (selectIdentifiers.liftExcept result : Action τ Error α)
        (selectIdentifiers.liftExcept result) :=
    fun _ _ h => ⟨rfl, h⟩
  exact (related.headers _ _).bind fun headers =>
    (fetchColumns_related related _ _ headers _ _).bind fun columns =>
      (hlift _).bind fun rows => hlift _

/-- Tools that cannot be told apart lead to one plan, if the files cannot be told apart either. -/
theorem plan_related (hfiles : ∀ world world', R world world' → world.files = world'.files)
    (queries : List Query) (target : Path) (options : Options) :
    Action.Related R (plan tool queries target options) (plan other queries target options) := by
  intro world world' hworld
  unfold plan
  rw [hfiles world world' hworld]
  split
  · refine ((Action.Related.mapM (selectIdentifiers_related related _) queries).bind fun sets =>
      (related.headers _ _).bind fun headers => ?_) world world' hworld
    split
    · exact .throw _
    · exact .pure _
  · exact ⟨rfl, hworld⟩

end

/-! ## Transcripts of plans -/

section

variable {τ : Type} (tool : Tool τ)

/-- Taking notes changes neither the outcome nor the world. -/
theorem Action.noting_related {ε α σ : Type} (note : Except ε α → σ) (action : Action τ ε α) :
    Action.Related (fun world noted => noted.files = world.files ∧ noted.tool.1 = world.tool)
      action (action.noting note) := by
  rintro ⟨files, state⟩ ⟨files', state', notes⟩ ⟨rfl, rfl⟩
  exact ⟨rfl, rfl, rfl⟩

theorem Tool.transcribing_related :
    tool.Related (fun world noted => noted.files = world.files ∧ noted.tool.1 = world.tool)
      tool.transcribing where
  headers _ _ := Action.noting_related _ _
  values _ _ _ := Action.noting_related _ _

/-- Logging calls is to transcribe them and to drop the answers. -/
theorem Action.beside_related {ε α : Type} {note : Except ε α → Exchange} {call : ToolCall}
    (action : Action τ ε α) (hcall : ∀ result, (note result).call = call) :
    Action.Related (fun noted logged => noted.files = logged.files ∧
        noted.tool.1 = logged.tool.1 ∧ noted.tool.2.map Exchange.call = logged.tool.2)
      (action.noting note) (action.beside (· ++ [call])) := by
  rintro ⟨files, state, notes⟩ ⟨files', state', calls⟩ ⟨rfl, rfl, rfl⟩
  refine ⟨rfl, rfl, rfl, ?_⟩
  change (notes ++ [note (action ⟨files, state⟩).1]).map Exchange.call =
    notes.map Exchange.call ++ [call]
  rw [List.map_append, List.map_singleton, hcall]

theorem Tool.recording_related :
    tool.transcribing.Related (fun noted logged => noted.files = logged.files ∧
        noted.tool.1 = logged.tool.1 ∧ noted.tool.2.map Exchange.call = logged.tool.2)
      tool.recording where
  headers _ _ := Action.beside_related _ fun _ => rfl
  values _ _ _ := Action.beside_related _ fun _ => rfl

/-- What holds of every note that an action can lead to holds of all notes. -/
theorem Action.noting_preserves {ε α σ : Type} {Holds : σ → Prop} {note : Except ε α → σ}
    {action : Action τ ε α} (h : ∀ world, Holds (note (action world).1)) :
    (action.noting note).Preserves fun world => ∀ n ∈ world.tool.2, Holds n := by
  intro world hworld
  exact List.forall_mem_append.2 ⟨hworld, List.forall_mem_singleton.2 (h _)⟩

/-- **Nobody can tell that a transcript is kept.**  With and without one a plan has the same outcome
and leaves the same world, and the calls of the transcript are those that are logged. -/
theorem plan_transcribing (queries : List Query) (target : Path) (options : Options)
    (world : World τ) :
    ∃ transcript,
      plan tool.transcribing queries target options ⟨world.files, (world.tool, [])⟩ =
        ((plan tool queries target options world).1,
          ⟨(plan tool queries target options world).2.files,
            ((plan tool queries target options world).2.tool, transcript)⟩) ∧
      plan tool.recording queries target options ⟨world.files, (world.tool, [])⟩ =
        ((plan tool queries target options world).1,
          ⟨(plan tool queries target options world).2.files,
            ((plan tool queries target options world).2.tool, transcript.map Exchange.call)⟩) := by
  obtain ⟨houtcome, hfiles, htool⟩ := plan_related tool.transcribing_related
    (fun _ _ h => h.1.symm) queries target options world ⟨world.files, (world.tool, [])⟩ ⟨rfl, rfl⟩
  obtain ⟨houtcome', hfiles', htool', hcalls⟩ := plan_related tool.recording_related
    (fun _ _ h => h.1) queries target options ⟨world.files, (world.tool, [])⟩
    ⟨world.files, (world.tool, [])⟩ ⟨rfl, rfl, rfl⟩
  match hnoted : plan tool.transcribing queries target options ⟨world.files, (world.tool, [])⟩,
      hlogged : plan tool.recording queries target options ⟨world.files, (world.tool, [])⟩ with
  | (_, ⟨_, _, transcript⟩), (_, ⟨_, _, _⟩) =>
    simp only [hnoted, hlogged] at houtcome hfiles htool houtcome' hfiles' htool' hcalls
    subst houtcome hfiles htool houtcome' hfiles' htool' hcalls
    exact ⟨transcript, rfl, rfl⟩

end

/-! ## What is written down -/

/-- Whatever the transcript holds already, what the action adds to it goes with its outcome. -/
def Action.Writes {τ σ ε α : Type} (Fits : List σ → Except ε α → Prop)
    (action : Action (τ × List σ) ε α) : Prop :=
  ∀ world, ∃ added, (action world).2.tool.2 = world.tool.2 ++ added ∧ Fits added (action world).1

namespace Action.Writes

variable {τ σ ε α β : Type} {Fits : List σ → Except ε α → Prop}

/-- An action that has its outcome at hand writes nothing. -/
theorem of_value {result : Except ε α} {action : Action (τ × List σ) ε α}
    (haction : ∀ world, action world = (result, world)) (h : Fits [] result) :
    Writes Fits action := by
  intro world
  rw [haction]
  exact ⟨[], by simp, h⟩

theorem noting (note : Except ε α → σ) (action : Action τ ε α) :
    Writes (fun added result => added = [note result]) (action.noting note) :=
  fun _ => ⟨_, rfl, rfl⟩

theorem mono {Fits' : List σ → Except ε α → Prop} {action : Action (τ × List σ) ε α}
    (h : Writes Fits action) (himp : ∀ added result, Fits added result → Fits' added result) :
    Writes Fits' action := by
  intro world
  obtain ⟨added, hadded, hfits⟩ := h world
  exact ⟨added, hadded, himp _ _ hfits⟩

/-- What the second of two actions writes stands behind what the first has written. -/
theorem bind {First : List σ → Except ε α → Prop} {Both : List σ → Except ε β → Prop}
    {action : Action (τ × List σ) ε α} {next : α → Action (τ × List σ) ε β}
    (hfirst : Writes First action)
    (herror : ∀ added e, First added (.error e) → Both added (.error e))
    (hnext : ∀ a, Writes (fun added result => ∀ before, First before (.ok a) →
      Both (before ++ added) result) (next a)) : Writes Both (action >>= next) := by
  intro world
  obtain ⟨before, hbefore, hfits⟩ := hfirst world
  rw [Action.bind_apply]
  match hr : action world with
  | (.error e, left) =>
    rw [hr] at hbefore hfits
    exact ⟨before, hbefore, herror before e hfits⟩
  | (.ok a, left) =>
    rw [hr] at hbefore hfits
    obtain ⟨added, hadded, hboth⟩ := hnext a left
    refine ⟨before ++ added, ?_, hboth before hfits⟩
    rw [hadded, hbefore, List.append_assoc]

end Action.Writes

end ColumnSieve
