import ColumnSieve.Proofs.Output.Drafts
import ColumnSieve.Proofs.Session
import Mathlib.Logic.Relation

/-!
# Several attempts at one destination

Any number of attempts to produce one file run side by side.  Each of them writes to its temporary
path as often as it likes, and then renames it over the destination; if it fails before, or the
renaming is refused, it removes what it has left.  Their steps come in any order.

* `Race`, `Race.Step` — the attempts at one moment, and one step of one of them;
* `Race.Alone`, `Race.Run` — steps of one attempt alone, and steps of all in any order;
* `Race.Drafting`     — what each attempt has in the files at that moment;
* `Race.drafting_step`, `Race.drafting_run` — every step keeps to that, and so does every run;
* `Race.Fair`         — what can be seen of a race at the destination and at the temporary paths;
* `Race.Enacts`       — the steps of an attempt are those that `writeWith` and `persist` take;
* `Race.alone_cases`  — what an attempt has done when it has taken steps alone;
* `race_fair`         — every race is fair at every moment, and its attempts are those of the code.
-/

namespace ColumnSieve

open FileTree

/-- How far an attempt has come. -/
inductive Phase where
  | writing
  /-- It has failed, and has still to clear up. -/
  | failing
  | succeeded
  | failed
  deriving DecidableEq, Repr

/-- Some attempts at one destination at one moment. -/
structure Race (ι : Type) where
  files : FileTree
  phase : ι → Phase
  /-- What each attempt found at its temporary path right after its own latest write. -/
  left : ι → Option ByteArray
  /-- The attempts whose renaming has succeeded, the latest first. -/
  renamed : List ι

namespace Race

variable {ι : Type}

def start (files : FileTree) : Race ι := ⟨files, fun _ => .writing, fun _ => none, []⟩

/-- The attempt has come to its end. -/
def Ended (race : Race ι) (i : ι) : Prop := race.phase i = .succeeded ∨ race.phase i = .failed

section

variable [DecidableEq ι]

/-- One step of attempt `i`, which alters the files only in the way shown. -/
inductive Step (nonce : ι → UInt64) (final : Path) (i : ι) : Race ι → Race ι → Prop where
  | write {race : Race ι} {files : FileTree} (hphase : race.phase i = .writing)
    (hwrite : Confined race.files (tempPath (nonce i) final) files) :
    Step nonce final i race { race with
      files := files
      left := Function.update race.left i (files.readFile (tempPath (nonce i) final)).toOption }
  | fail {race : Race ι} (hphase : race.phase i = .writing) :
    Step nonce final i race { race with phase := Function.update race.phase i .failing }
  | rename {race : Race ι} {files : FileTree} (hphase : race.phase i = .writing)
    (hrename : race.files.rename (tempPath (nonce i) final) final = .ok files) :
    Step nonce final i race { race with
      files := files
      phase := Function.update race.phase i .succeeded
      renamed := i :: race.renamed }
  | refuse {race : Race ι} {refusal : FileError} (hphase : race.phase i = .writing)
    (hrename : race.files.rename (tempPath (nonce i) final) final = .error refusal) :
    Step nonce final i race { race with phase := Function.update race.phase i .failing }
  | discard {race : Race ι} (hphase : race.phase i = .failing) :
    Step nonce final i race { race with
      files := discard race.files (tempPath (nonce i) final)
      phase := Function.update race.phase i .failed }

/-- Steps of one attempt, while the others stand still. -/
abbrev Alone (nonce : ι → UInt64) (final : Path) (i : ι) : Race ι → Race ι → Prop :=
  Relation.ReflTransGen (Step nonce final i)

/-- The steps of some attempts, in any order. -/
abbrev Run (nonce : ι → UInt64) (final : Path) : Race ι → Race ι → Prop :=
  Relation.ReflTransGen fun race race' => ∃ i, Step nonce final i race race'

theorem Alone.run {nonce : ι → UInt64} {final : Path} {i : ι} {race race' : Race ι}
    (h : Alone nonce final i race race') : Run nonce final race race' := by
  induction h with
  | refl => exact .refl
  | tail _ hstep ih => exact ih.tail ⟨i, hstep⟩

/-- An attempt alone leaves the others as far as they are. -/
theorem Alone.phase_eq {nonce : ι → UInt64} {final : Path} {i j : ι} {race race' : Race ι}
    (h : Alone nonce final i race race') (hne : j ≠ i) : race'.phase j = race.phase j := by
  induction h with
  | refl => rfl
  | tail _ hstep ih =>
    rw [← ih]
    cases hstep with
    | write => rfl
    | fail | rename | refuse | discard => exact Function.update_of_ne hne ..

end

/-! ## What the attempts have in the files -/

/-- The draft of an attempt: what it has left, as long as it has not ended. -/
def draft (race : Race ι) (i : ι) : Option ByteArray :=
  match race.phase i with
  | .writing | .failing => race.left i
  | .succeeded | .failed => none

/-- The file at the destination, once there is one: what the latest to be renamed had left. -/
def placed (race : Race ι) : Option ByteArray := race.renamed.head?.bind race.left

/-- The invariant of a race that started from `before`. -/
structure Drafting (before : FileTree) (nonce : ι → UInt64) (final : Path) (race : Race ι) :
    Prop where
  drafted : Drafted before (fun i => tempPath (nonce i) final) final race.draft race.placed
    race.files
  succeeded_iff : ∀ i, race.phase i = .succeeded ↔ i ∈ race.renamed
  left_of_renamed : ∀ i ∈ race.renamed, ∃ content, race.left i = some content

theorem draft_of_ended {race : Race ι} {i : ι} (h : race.Ended i) : race.draft i = none := by
  rcases h with h | h <;> simp only [draft, h]

variable {before : FileTree} {nonce : ι → UInt64} {final : Path} {race race' : Race ι} {i : ι}

theorem drafting_start (apart : Apart (fun i => tempPath (nonce i) final) final)
    (hwf : before.WellFormed) (hfresh : ∀ i, before.exists? (tempPath (nonce i) final) = false) :
    Drafting before nonce final (start before) where
  drafted := .start apart hwf hfresh
  succeeded_iff _ := iff_of_false nofun List.not_mem_nil
  left_of_renamed _ h := nomatch h

variable [DecidableEq ι]

/-! ### One step -/

/-- An attempt that ends has no draft any more. -/
theorem draft_update_of_ended {phase : Phase} (h : phase = .succeeded ∨ phase = .failed)
    {files : FileTree} {renamed : List ι} :
    draft ⟨files, Function.update race.phase i phase, race.left, renamed⟩ =
      Function.update race.draft i none := by
  funext j
  by_cases hj : j = i
  · subst hj
    rcases h with rfl | rfl <;> simp [draft]
  · simp [draft, hj]

/-- An attempt that comes further without success does not alter which ones have succeeded. -/
theorem succeeded_update_iff {phase : Phase} (h : race.phase i ≠ .succeeded)
    (hphase : phase ≠ .succeeded) (j : ι) :
    Function.update race.phase i phase j = .succeeded ↔ race.phase j = .succeeded := by
  by_cases hj : j = i
  · subst hj
    simp [h, hphase]
  · rw [Function.update_of_ne hj]

/-- A write changes the draft of its own attempt. -/
theorem draft_update_left (hphase : race.phase i = .writing) {files : FileTree}
    {content : Option ByteArray} :
    draft ⟨files, race.phase, Function.update race.left i content, race.renamed⟩ =
      Function.update race.draft i content := by
  funext j
  by_cases hj : j = i
  · subst hj
    simp [draft, hphase]
  · simp [draft, hj]

/-- A write changes nothing that is in place. -/
theorem placed_update_left (h : i ∉ race.renamed) {files : FileTree} {phase : ι → Phase}
    {content : Option ByteArray} :
    placed ⟨files, phase, Function.update race.left i content, race.renamed⟩ = race.placed := by
  unfold placed
  cases hrenamed : race.renamed with
  | nil => rfl
  | cons j rest =>
    have hj : j ≠ i := by
      rintro rfl
      exact h (hrenamed ▸ List.mem_cons_self)
    simp [hj]

/-- An attempt that fails keeps its draft until it clears up. -/
theorem drafting_fail (h : Drafting before nonce final race) (hphase : race.phase i = .writing) :
    Drafting before nonce final { race with phase := Function.update race.phase i .failing } := by
  have hdraft : draft { race with phase := Function.update race.phase i .failing } =
      race.draft := by
    funext j
    by_cases hj : j = i
    · subst hj
      simp [draft, hphase]
    · simp [draft, hj]
  refine ⟨?_, fun j => ?_, h.left_of_renamed⟩
  · rw [hdraft]
    exact h.drafted
  · rw [← h.succeeded_iff]
    exact succeeded_update_iff (by simp [hphase]) (by simp) j

section

variable (apart : Apart (fun i => tempPath (nonce i) final) final)

include apart

theorem drafting_write (h : Drafting before nonce final race) {files : FileTree}
    (hphase : race.phase i = .writing)
    (hwrite : Confined race.files (tempPath (nonce i) final) files) :
    Drafting before nonce final { race with
      files := files
      left := Function.update race.left i
        (files.readFile (tempPath (nonce i) final)).toOption } := by
  have hnot : i ∉ race.renamed := by
    rw [← h.succeeded_iff, hphase]
    simp
  refine ⟨?_, h.succeeded_iff, ?_⟩
  · rw [draft_update_left hphase, placed_update_left hnot]
    exact h.drafted.write apart hwrite
  · intro j hj
    have hne : j ≠ i := fun he => hnot (he ▸ hj)
    simp only [Function.update_of_ne hne]
    exact h.left_of_renamed j hj

theorem drafting_rename (h : Drafting before nonce final race) {files : FileTree}
    (hphase : race.phase i = .writing)
    (hrename : race.files.rename (tempPath (nonce i) final) final = .ok files) :
    Drafting before nonce final { race with
      files := files
      phase := Function.update race.phase i .succeeded
      renamed := i :: race.renamed } := by
  obtain ⟨content, hdraft, hdrafted⟩ := h.drafted.rename apart hrename
  have hleft : race.left i = some content := by simpa [draft, hphase] using hdraft
  have hplaced : placed { race with
      files := files
      phase := Function.update race.phase i .succeeded
      renamed := i :: race.renamed } = some content := hleft
  refine ⟨?_, fun j => ?_, List.forall_mem_cons.2 ⟨⟨content, hleft⟩, h.left_of_renamed⟩⟩
  · rw [draft_update_of_ended (.inl rfl), hplaced]
    exact hdrafted
  · rw [List.mem_cons, ← h.succeeded_iff]
    by_cases hj : j = i
    · subst hj
      simp
    · simp [hj]

theorem drafting_discard (h : Drafting before nonce final race)
    (hphase : race.phase i = .failing) :
    Drafting before nonce final { race with
      files := discard race.files (tempPath (nonce i) final)
      phase := Function.update race.phase i .failed } := by
  refine ⟨?_, fun j => ?_, h.left_of_renamed⟩
  · rw [draft_update_of_ended (.inr rfl)]
    simpa only [placed] using h.drafted.discard apart i
  · rw [← h.succeeded_iff]
    exact succeeded_update_iff (by simp [hphase]) (by simp) j

/-- **Every step keeps to what the attempts have in the files.** -/
theorem drafting_step (h : Drafting before nonce final race)
    (hstep : Step nonce final i race race') : Drafting before nonce final race' := by
  cases hstep with
  | write hphase hwrite => exact drafting_write apart h hphase hwrite
  | fail hphase => exact drafting_fail h hphase
  | rename hphase hrename => exact drafting_rename apart h hphase hrename
  | refuse hphase hrename => exact drafting_fail h hphase
  | discard hphase => exact drafting_discard apart h hphase

theorem drafting_run (h : Drafting before nonce final race) (hrun : Run nonce final race race') :
    Drafting before nonce final race' := by
  induction hrun with
  | refl => exact h
  | tail _ hstep ih =>
    obtain ⟨i, hstep⟩ := hstep
    exact drafting_step apart ih hstep

end

end Race

/-! ## What can be seen of a race -/

namespace Race

variable {ι : Type}

/-- What can be seen of a race that started from `before`: the destination is as it was, or holds
all that the latest attempt to be renamed had left; every attempt that is under way finds what it
has left itself, and one that has ended leaves nothing; and once all have ended, nothing else has
changed. -/
structure Fair (before : FileTree) (nonce : ι → UInt64) (final : Path) (race : Race ι) : Prop where
  destination : match race.renamed with
    | [] => race.files.look final = before.look final
    | i :: _ => race.phase i = .succeeded ∧
      ∃ content, race.left i = some content ∧ race.files.readFile final = .ok content
  succeeded_iff : ∀ i, race.phase i = .succeeded ↔ i ∈ race.renamed
  own : ∀ i, ¬ race.Ended i →
    (race.files.readFile (tempPath (nonce i) final)).toOption = race.left i
  cleared : ∀ i, race.Ended i → race.files.exists? (tempPath (nonce i) final) = false
  settled : (∀ i, race.Ended i) → match race.renamed with
    | [] => before.Same race.files
    | i :: _ => ∃ content, race.left i = some content ∧ Replaces before final content race.files

theorem Drafting.fair {before : FileTree} {nonce : ι → UInt64} {final : Path} {race : Race ι}
    (apart : Apart (fun i => tempPath (nonce i) final) final) (hwf : before.WellFormed)
    (h : Drafting before nonce final race) : Fair before nonce final race := by
  have hplaced {i : ι} {rest : List ι} (hrenamed : race.renamed = i :: rest) :
      ∃ content, race.left i = some content ∧
        Drafted before (fun i => tempPath (nonce i) final) final race.draft (some content)
          race.files := by
    obtain ⟨content, hleft⟩ := h.left_of_renamed i (by simp [hrenamed])
    have hat : race.placed = some content := by simp [placed, hrenamed, hleft]
    exact ⟨content, hleft, hat ▸ h.drafted⟩
  have hunplaced (hrenamed : race.renamed = []) :
      Drafted before (fun i => tempPath (nonce i) final) final race.draft none race.files := by
    have hat : race.placed = none := by simp [placed, hrenamed]
    exact hat ▸ h.drafted
  constructor
  · cases hrenamed : race.renamed with
    | nil => exact (hunplaced hrenamed).look_final hwf
    | cons i rest =>
      obtain ⟨content, hleft, hdrafted⟩ := hplaced hrenamed
      exact ⟨(h.succeeded_iff i).2 (by simp [hrenamed]), content, hleft, hdrafted.readFile_final⟩
  · exact h.succeeded_iff
  · intro i hopen
    rw [h.drafted.readFile_temp apart]
    simp only [Ended, not_or] at hopen
    cases hphase : race.phase i <;> simp_all [draft]
  · intro i hended
    rw [h.drafted.exists?_temp apart, draft_of_ended hended]
    rfl
  · intro hended
    have hno (i : ι) : race.draft i = none := draft_of_ended (hended i)
    cases hrenamed : race.renamed with
    | nil => exact (hunplaced hrenamed).same hno
    | cons i rest =>
      obtain ⟨content, hleft, hdrafted⟩ := hplaced hrenamed
      exact ⟨content, hleft, hdrafted.replaces hno⟩

end Race

/-! ## Attempts and the code -/

/-- How an attempt with this result has ended. -/
def Phase.ofResult {ε : Type} : Except ε Unit → Phase
  | .ok _ => .succeeded
  | .error _ => .failed

/-- The files of an attempt that has come so far alone, by those that its latest write has left. -/
def Phase.Leaves (temp final : Path) (written files : FileTree) : Phase → Prop
  | .writing | .failing => files = written
  | .succeeded => written.rename temp final = .ok files
  | .failed => files = discard written temp

namespace Race

variable {ι : Type} [DecidableEq ι]

/-- Attempt `i` can come to its end by steps of its own, such that it has ended so, has left this
content, and these are the files. -/
def EndsAlone (nonce : ι → UInt64) (final : Path) (race : Race ι) (i : ι) (phase : Phase)
    (content : Option ByteArray) (files : FileTree) : Prop :=
  ∃ race', Alone nonce final i race race' ∧ race'.Ended i ∧ race'.phase i = phase ∧
    race'.left i = content ∧ race'.files = files

/-- An attempt that is writing enacts the code.  The ways in which it can come to its end by steps of
its own are those in which `writeWith` ends with a writer that keeps to its path; and when it has
written all, `persist` is such a way to its end, whatever the others have done meanwhile. -/
structure Enacts (nonce : ι → UInt64) (final : Path) (race : Race ι) (i : ι) : Prop where
  writeWith_iff : ∀ {τ ε : Type} (ofFileError : FileError → ε) (tool : τ) (phase : Phase)
    (content : Option ByteArray) (files : FileTree),
    race.EndsAlone nonce final i phase content files ↔
      ∃ (write : Path → Action τ ε Unit) (written : Except ε Unit × World τ),
        write (tempPath (nonce i) final) ⟨race.files, tool⟩ = written ∧
        Confined race.files (tempPath (nonce i) final) written.2.files ∧
        (written.2.files.readFile (tempPath (nonce i) final)).toOption = content ∧
        .ofResult (writeWith ofFileError (nonce i) final write ⟨race.files, tool⟩).1 = phase ∧
        (writeWith ofFileError (nonce i) final write ⟨race.files, tool⟩).2.files = files
  persist_ends : race.EndsAlone nonce final i
    (.ofResult (persist race.files (tempPath (nonce i) final) final).1) (race.left i)
    (persist race.files (tempPath (nonce i) final) final).2

section

variable {before files : FileTree} {nonce : ι → UInt64} {final : Path} {race race' : Race ι} {i : ι}
  {phase : Phase} {content : Option ByteArray}

/-- What an attempt has done alone: one write that stands for all of its writes, and the way to its
end, as far as it has gone. -/
theorem alone_cases (apart : Apart (fun i => tempPath (nonce i) final) final)
    (hdrafting : Drafting before nonce final race) (hphase : race.phase i = .writing)
    (h : Alone nonce final i race race') :
    ∃ written, Confined race.files (tempPath (nonce i) final) written ∧
      race'.left i = (written.readFile (tempPath (nonce i) final)).toOption ∧
      (race'.phase i).Leaves (tempPath (nonce i) final) final written race'.files := by
  have hends := apart.endsInName i
  induction h with
  | refl =>
    have hlook := hdrafting.drafted.look_temp apart i
    have hleft := hdrafting.drafted.readFile_temp apart i
    refine ⟨race.files, .refl ?_, ?_, ?_⟩
    · rw [isDir, hlook]
      cases race.draft i <;> rfl
    · rw [hleft, draft, hphase]
    · rw [hphase]
      rfl
  | tail _ hstep ih =>
    obtain ⟨written, hwritten, hleft, hfiles⟩ := ih
    cases hstep with
    | write hwriting hwrite =>
      rw [hwriting] at hfiles
      cases hfiles
      refine ⟨_, hwritten.trans hends hwrite, Function.update_self .., ?_⟩
      simp only [hwriting]
      rfl
    | fail hwriting | refuse hwriting =>
      rw [hwriting] at hfiles
      refine ⟨written, hwritten, hleft, ?_⟩
      simp only [Function.update_self]
      exact hfiles
    | rename hwriting hrename =>
      rw [hwriting] at hfiles
      cases hfiles
      refine ⟨_, hwritten, hleft, ?_⟩
      simp only [Function.update_self]
      exact hrename
    | discard hfailing =>
      rw [hfailing] at hfiles
      cases hfiles
      refine ⟨_, hwritten, hleft, ?_⟩
      simp only [Function.update_self]
      rfl

/-- A call of `persist` brings an attempt to its end by steps of its own. -/
theorem endsAlone_persist (hphase : race.phase i = .writing) :
    race.EndsAlone nonce final i
      (.ofResult (persist race.files (tempPath (nonce i) final) final).1) (race.left i)
      (persist race.files (tempPath (nonce i) final) final).2 := by
  cases hrename : race.files.rename (tempPath (nonce i) final) final with
  | ok result =>
    simp only [persist, hrename]
    refine ⟨_, .single (.rename hphase hrename), .inl ?_, ?_, rfl, rfl⟩
    · exact Function.update_self ..
    · exact Function.update_self ..
  | error refusal =>
    simp only [persist, hrename]
    have hrefused := Relation.ReflTransGen.single (Step.refuse hphase hrename)
    refine ⟨_, hrefused.tail (.discard ?_), .inr ?_, ?_, ?_, ?_⟩
    · exact Function.update_self ..
    · exact Function.update_self ..
    · exact Function.update_self ..
    · dsimp only
    · dsimp only

/-- An attempt that ends behind steps of its own can end so before it takes them. -/
theorem EndsAlone.head (hsteps : Alone nonce final i race race')
    (h : race'.EndsAlone nonce final i phase content files) :
    race.EndsAlone nonce final i phase content files := by
  obtain ⟨ended, halone, hend⟩ := h
  exact ⟨ended, hsteps.trans halone, hend⟩

section

variable {τ ε : Type} (ofFileError : FileError → ε) {tool : τ}

theorem endsAlone_writeWith {write : Path → Action τ ε Unit} {written : Except ε Unit × World τ}
    (hphase : race.phase i = .writing)
    (hleft : write (tempPath (nonce i) final) ⟨race.files, tool⟩ = written)
    (hwrite : Confined race.files (tempPath (nonce i) final) written.2.files) :
    race.EndsAlone nonce final i
      (.ofResult (writeWith ofFileError (nonce i) final write ⟨race.files, tool⟩).1)
      (written.2.files.readFile (tempPath (nonce i) final)).toOption
      (writeWith ofFileError (nonce i) final write ⟨race.files, tool⟩).2.files := by
  have hwritten := Relation.ReflTransGen.single (Step.write hphase hwrite)
  match written with
  | (.error e, left) =>
    rw [writeWith_of_failed hleft]
    refine ⟨_, (hwritten.tail (.fail hphase)).tail (.discard ?_), .inr ?_, ?_, ?_, rfl⟩
    · exact Function.update_self ..
    · exact Function.update_self ..
    · exact Function.update_self ..
    · exact Function.update_self ..
  | (.ok (), left) =>
    have hpersist := EndsAlone.head hwritten (endsAlone_persist hphase)
    simp only [Function.update_self] at hpersist
    cases hrename : left.files.rename (tempPath (nonce i) final) final with
    | ok result =>
      rw [writeWith_of_renamed hleft hrename]
      simp only [persist, hrename] at hpersist
      exact hpersist
    | error refusal =>
      rw [writeWith_of_refused hleft hrename]
      simp only [persist, hrename] at hpersist
      dsimp only
      exact hpersist

/-- The writer that leaves these files. -/
def leaving (written : FileTree) (tool : τ) (result : Except ε Unit) : Path → Action τ ε Unit :=
  fun _ _ => (result, ⟨written, tool⟩)

/-- Each way to the end of an attempt is that of `writeWith` with the writer that leaves the same. -/
theorem exists_writeWith (tool : τ) (apart : Apart (fun i => tempPath (nonce i) final) final)
    (hdrafting : Drafting before nonce final race) (hphase : race.phase i = .writing)
    (h : race.EndsAlone nonce final i phase content files) :
    ∃ (write : Path → Action τ ε Unit) (written : Except ε Unit × World τ),
      write (tempPath (nonce i) final) ⟨race.files, tool⟩ = written ∧
      Confined race.files (tempPath (nonce i) final) written.2.files ∧
      (written.2.files.readFile (tempPath (nonce i) final)).toOption = content ∧
      .ofResult (writeWith ofFileError (nonce i) final write ⟨race.files, tool⟩).1 = phase ∧
      (writeWith ofFileError (nonce i) final write ⟨race.files, tool⟩).2.files = files := by
  obtain ⟨race', halone, hended, rfl, rfl, rfl⟩ := h
  obtain ⟨written, hwritten, hleft, hfiles⟩ := alone_cases apart hdrafting hphase halone
  have hleaving (result : Except ε Unit) : leaving written tool result (tempPath (nonce i) final)
      ⟨race.files, tool⟩ = (result, ⟨written, tool⟩) := rfl
  rcases hended with hended | hended
  · rw [hended] at hfiles ⊢
    refine ⟨_, _, hleaving (.ok ()), hwritten, hleft.symm, ?_⟩
    rw [writeWith_of_renamed (hleaving (.ok ())) hfiles]
    exact ⟨rfl, rfl⟩
  · rw [hended] at hfiles ⊢
    refine ⟨_, _, hleaving (.error (ofFileError .notUtf8)), hwritten, hleft.symm, ?_⟩
    rw [writeWith_of_failed (hleaving (.error (ofFileError .notUtf8)))]
    dsimp only
    exact ⟨rfl, hfiles.symm⟩

end

theorem Drafting.enacts (apart : Apart (fun i => tempPath (nonce i) final) final)
    (h : Drafting before nonce final race) (hphase : race.phase i = .writing) :
    race.Enacts nonce final i where
  writeWith_iff ofFileError tool phase content files := by
    constructor
    · exact exists_writeWith ofFileError tool apart h hphase
    · rintro ⟨write, written, hleft, hwrite, rfl, rfl, rfl⟩
      exact endsAlone_writeWith ofFileError hphase hleft hwrite
  persist_ends := endsAlone_persist hphase

/-- **Every race is fair at every moment**, however many attempts take part, whatever they write and
in whatever order their steps come; and every attempt that is under way enacts the code, so that
these races are those of calls to `writeWith`. -/
theorem race_fair (hwf : before.WellFormed)
    (hnonce : ∀ i j, i ≠ j → tempName (nonce i) final ≠ tempName (nonce j) final)
    (hfresh : ∀ i, before.exists? (tempPath (nonce i) final) = false)
    (hrun : Run nonce final (start before) race) :
    Fair before nonce final race ∧
      ∀ i, race.phase i = .writing → race.Enacts nonce final i := by
  have apart := apart_tempPath hnonce
  have hdrafting := drafting_run apart (drafting_start apart hwf hfresh) hrun
  exact ⟨hdrafting.fair apart hwf, fun i => hdrafting.enacts apart⟩

end

/-! ## Two rivals in a directory with data -/

def rivalNonce : Bool → UInt64
  | true => 7
  | false => 8

/-- One rival has left a part of its output. -/
def oneDraft : FileTree :=
  Session.dataFiles.put ["data", ".tmp.0000000000000007.out.csv"] (.file "par".toUTF8)

/-- The other has left all of its output. -/
def twoDrafts : FileTree :=
  oneDraft.put ["data", ".tmp.0000000000000008.out.csv"] (.file "new\n".toUTF8)

/-- The other has put its output in place. -/
def oneInPlace : FileTree :=
  twoDrafts.move ["data", ".tmp.0000000000000008.out.csv"] ["data", "out.csv"]

def wholeWriter : Path → Action Unit FileError Unit := fun temp world =>
  match world.files.writeFile temp "new\n".toUTF8 with
  | .ok files => (.ok (), ⟨files, ()⟩)
  | .error e => (.error e, world)

/-- While one rival is writing, the other makes a whole call to `writeWith`; then the one fails. -/
theorem race_fair_of_rivals :
    ∃ race, Run rivalNonce ⟨"out.csv"⟩ (start Session.dataFiles) race ∧
      Fair Session.dataFiles rivalNonce ⟨"out.csv"⟩ race ∧ (∀ i, race.Ended i) ∧
      race.files = discard (writeWith id (rivalNonce false) ⟨"out.csv"⟩ wholeWriter
        ⟨oneDraft, ()⟩).2.files (tempPath (rivalNonce true) ⟨"out.csv"⟩) ∧
      race.phase false = .succeeded ∧
      race.files.readFile ⟨"out.csv"⟩ = .ok "new\n".toUTF8 := by
  have hwf : Session.dataFiles.WellFormed := by decide +kernel
  have hnonce : ∀ i j, i ≠ j →
      tempName (rivalNonce i) ⟨"out.csv"⟩ ≠ tempName (rivalNonce j) ⟨"out.csv"⟩ := by
    decide +kernel
  have hfresh : ∀ i, Session.dataFiles.exists? (tempPath (rivalNonce i) ⟨"out.csv"⟩) = false := by
    decide +kernel
  have hbroken : Session.dataFiles.writeFile (tempPath (rivalNonce true) ⟨"out.csv"⟩)
      "par".toUTF8 = .ok oneDraft := by decide +kernel
  have hwhole : oneDraft.writeFile (tempPath (rivalNonce false) ⟨"out.csv"⟩) "new\n".toUTF8 =
      .ok twoDrafts := by decide +kernel
  have hwritten : wholeWriter (tempPath (rivalNonce false) ⟨"out.csv"⟩) ⟨oneDraft, ()⟩ =
      (.ok (), ⟨twoDrafts, ()⟩) := by simp only [wholeWriter, hwhole]
  have hrename : twoDrafts.rename (tempPath (rivalNonce false) ⟨"out.csv"⟩) ⟨"out.csv"⟩ =
      .ok oneInPlace := by decide +kernel
  have hcall : writeWith id (rivalNonce false) ⟨"out.csv"⟩ wholeWriter ⟨oneDraft, ()⟩ =
      (.ok (), ⟨oneInPlace, ()⟩) := writeWith_of_renamed hwritten hrename
  have hstart : Run rivalNonce ⟨"out.csv"⟩ (start Session.dataFiles) (start Session.dataFiles) :=
    .refl
  have hdraft := hstart.tail ⟨true, .write rfl (.of_writeFile hbroken)⟩
  obtain ⟨-, henacts⟩ := race_fair hwf hnonce hfresh hdraft
  obtain ⟨race, halone, -, hphase, hleft, hfiles⟩ :=
    ((henacts false rfl).writeWith_iff id () _ _ _).2
      ⟨wholeWriter, _, hwritten, .of_writeFile hwhole, rfl, rfl, rfl⟩
  have htrue : race.phase true = .writing := halone.phase_eq (by decide)
  have hfalse : race.phase false = .succeeded := by
    rw [hphase]
    simp only [hcall]
    rfl
  have hfailing : Function.update race.phase true .failing true = .failing :=
    Function.update_self ..
  have hrun := ((hdraft.trans halone.run).tail ⟨true, .fail htrue⟩).tail ⟨true, .discard hfailing⟩
  have hfair := (race_fair hwf hnonce hfresh hrun).1
  refine ⟨_, hrun, hfair, ?_, ?_, ?_, ?_⟩
  · rintro (_ | _)
    · exact .inl hfalse
    · exact .inr rfl
  · exact congrArg (discard · _) hfiles
  · exact hfalse
  · have hnew : (twoDrafts.readFile (tempPath (rivalNonce false) ⟨"out.csv"⟩)).toOption =
        some "new\n".toUTF8 := by decide +kernel
    have hlast := hfair.destination
    cases hrenamed : race.renamed with
    | nil =>
      have hmem : false ∈ race.renamed := (hfair.succeeded_iff false).1 hfalse
      rw [hrenamed] at hmem
      cases hmem
    | cons i rest =>
      simp only [hrenamed] at hlast
      obtain ⟨hi, content, hcontent, hread⟩ := hlast
      cases i with
      | true => cases hi
      | false =>
        cases hnew.symm.trans (hleft.symm.trans hcontent)
        exact hread

end Race

end ColumnSieve
