import ColumnSieve.Output
import ColumnSieve.Proofs.FileTree.Names
import ColumnSieve.Proofs.Text.Hex

/-!
# Output, all or nothing

A writer is given a path where nothing is, and leaves a file there or nothing.  Whether it or the
renaming behind it fails, the files are then as before; if neither does, they differ at the
destination alone.

* `Confined`                 — what a writer may do to the files;
* `Replaces`                 — the files with one of them put in place;
* `AllOrNothing`             — how an attempt to produce a file ends;
* `tempPath_endsInName`      — a temporary path ends in a name of its own;
* `Confined.same_or`         — what a writer can have changed;
* `writeWith_of_failed`, `writeWith_of_refused`, `writeWith_of_renamed`, `writeWith_eq_ok_iff` — the
  ways an attempt can go.
-/

namespace ColumnSieve

/-- Nothing has changed but what `temp` leads to, and that is no directory. -/
structure Confined (before : FileTree) (temp : Path) (after : FileTree) : Prop where
  workDir_eq : after.workDir = before.workDir
  locate_of_ne : ∀ loc, after.node? loc ≠ before.node? loc → after.locate temp = .ok loc
  not_isDir : after.isDir temp = false

/-- `final` leads to a file with the given content, and all else is as before. -/
def Replaces (before : FileTree) (final : Path) (content : ByteArray) (after : FileTree) : Prop :=
  ∃ loc, after.locate final = .ok loc ∧ after.node? loc = some (.file content) ∧
    FileTree.SameBut loc before after

/-- How an attempt to produce `final` ends, by the result and the world that the writer of `temp`
has left: the files are as before, and the error is that of the writer or of the renaming; or
`final` is the file that the writer has left. -/
def AllOrNothing {τ ε α : Type} (ofFileError : FileError → ε) (before : FileTree)
    (temp final : Path) (left : Except ε Unit × World τ) (outcome : Except ε α × World τ) : Prop :=
  match outcome with
  | (.error e, after) => before.Same after.files ∧
      (left.1 = .error e ∨ left.1 = .ok () ∧
        ∃ refusal, left.2.files.rename temp final = .error refusal ∧ e = ofFileError refusal)
  | (.ok _, after) => left.1 = .ok () ∧
      ∃ content, left.2.files.readFile temp = .ok content ∧
        Replaces before final content after.files

open FileTree

theorem Replaces.readFile_eq {before after : FileTree} {final : Path} {content : ByteArray}
    (h : Replaces before final content after) : after.readFile final = .ok content := by
  obtain ⟨loc, hloc, hnode, -⟩ := h
  exact readFile_eq_ok_iff.2 ⟨loc, hloc, hnode⟩

/-- A file that is written is put in place, in a tree that stays one. -/
theorem replaces_of_writeFile {before after : FileTree} {final : Path} {content : ByteArray}
    (h : before.writeFile final content = .ok after) :
    Replaces before final content after ∧ (before.WellFormed → after.WellFormed) := by
  obtain ⟨place, hplace, hname, hslash, hshort, hfree, rfl⟩ := writeFile_eq_ok_iff.1 h
  have hbut : SameBut place.location before (before.put place.location (.file content)) :=
    sameBut_put
  have hnode : (before.put place.location (.file content)).node? place.location =
      some (.file content) := node?_put (by simp [Place.location])
  have hfound := locate_of_place (place_mono hbut.workDir_eq (hbut.isDir hfree) hplace) hname hslash
    hshort (by simp [hnode])
  have hdir := (place_eq_ok_iff.1 hplace).2.2.1
  have hisName := (endsIn_of_place hplace hname).1
  exact ⟨⟨place.location, hfound, hnode, hbut⟩,
    fun hwf => hwf.sameBut hbut hdir hisName hshort hfree⟩

theorem Replaces.of_same {before before' after : FileTree} {final : Path} {content : ByteArray}
    (hsame : before.Same before') (h : Replaces before' final content after) :
    Replaces before final content after := by
  obtain ⟨loc, hloc, hnode, hbut⟩ := h
  exact ⟨loc, hloc, hnode, hbut.of_same hsame⟩

namespace AllOrNothing

variable {τ ε α β : Type} {ofFileError : FileError → ε} {before before' : FileTree}
  {temp final : Path} {left : Except ε Unit × World τ} {outcome : Except ε α × World τ}

theorem of_same (hsame : before.Same before')
    (h : AllOrNothing ofFileError before' temp final left outcome) :
    AllOrNothing ofFileError before temp final left outcome := by
  match outcome, h with
  | (.error _, _), ⟨hsame', herror⟩ => exact ⟨hsame.trans hsame', herror⟩
  | (.ok _, _), ⟨hleft, content, hread, hreplaces⟩ =>
    exact ⟨hleft, content, hread, hreplaces.of_same hsame⟩

theorem same_of_error {e : ε} (h : AllOrNothing ofFileError before temp final left outcome)
    (herror : outcome.1 = .error e) : before.Same outcome.2.files := by
  match outcome, h with
  | (.error _, _), ⟨hsame, _⟩ => exact hsame
  | (.ok _, _), _ => cases herror

theorem replaces_of_ok {a : α} {content : ByteArray}
    (h : AllOrNothing ofFileError before temp final left outcome) (hok : outcome.1 = .ok a)
    (hread : left.2.files.readFile temp = .ok content) :
    Replaces before final content outcome.2.files := by
  match outcome, h with
  | (.error _, _), _ => cases hok
  | (.ok _, _), ⟨_, content', hread', hreplaces⟩ =>
    cases hread.symm.trans hread'
    exact hreplaces

/-- What is returned on success does not count. -/
theorem map (f : α → β) (h : AllOrNothing ofFileError before temp final left outcome) :
    AllOrNothing ofFileError before temp final left (outcome.1.map f, outcome.2) := by
  match outcome, h with
  | (.error _, _), h => exact h
  | (.ok _, _), h => exact h

end AllOrNothing

/-! ## Temporary names -/

section

variable (nonce : UInt64) (final : Path)

theorem tempName_eq : tempName nonce final = ".tmp.".toList ++
    Text.hexDigits 16 nonce.toNat ++ '.' :: final.fileName?.getD "output".toList := rfl

theorem exists_tempName_eq_cons : ∃ rest, tempName nonce final = '.' :: 't' :: rest := by
  have hmark : ".tmp.".toList = ['.', 't', 'm', 'p', '.'] := by simp
  rw [tempName_eq, hmark, List.append_assoc]
  exact ⟨_, rfl⟩

theorem tempName_ne_nil : tempName nonce final ≠ [] := by
  obtain ⟨rest, h⟩ := exists_tempName_eq_cons nonce final
  simp [h]

theorem tempName_ne_dot : tempName nonce final ≠ ['.'] := by
  obtain ⟨rest, h⟩ := exists_tempName_eq_cons nonce final
  simp [h]

theorem tempName_ne_dots : tempName nonce final ≠ ['.', '.'] := by
  obtain ⟨rest, h⟩ := exists_tempName_eq_cons nonce final
  simp [h]

/-- A temporary name is longer than the name that it is made of. -/
theorem tempName_ne_fileName : final.fileName? ≠ some (tempName nonce final) := by
  intro h
  have hlen := congrArg List.length (tempName_eq nonce final)
  rw [h] at hlen
  simp only [Option.getD_some, List.length_cons, List.length_append] at hlen
  omega

theorem slash_not_mem_hexDigits (width n : Nat) : '/' ∉ Text.hexDigits width n := by
  have hslash : '/' ∉ Text.hexAlphabet := by decide
  exact fun h => hslash (Text.mem_hexAlphabet_of_mem_hexDigits h)

theorem slash_not_mem_tempName : '/' ∉ tempName nonce final := by
  have hname : '/' ∉ final.fileName?.getD "output".toList := by
    cases h : final.fileName? with
    | none => decide
    | some name => exact Path.slash_not_mem_of_mem_names (Path.mem_names_of_fileName? h)
  rw [tempName_eq, List.mem_append, List.mem_append, List.mem_cons]
  simp only [not_or]
  exact ⟨⟨by decide, slash_not_mem_hexDigits _ _⟩, by decide, hname⟩

theorem tempPath_endsIn : ∃ init, (tempPath nonce final).EndsIn init (tempName nonce final) false :=
  Path.endsIn_withFileName final (tempName_ne_nil nonce final) (slash_not_mem_tempName nonce final)

theorem tempPath_endsInName : (tempPath nonce final).EndsInName := by
  obtain ⟨init, hends⟩ := tempPath_endsIn nonce final
  exact ⟨init, _, hends, tempName_ne_dot nonce final, tempName_ne_dots nonce final⟩

theorem tempPath_fileName? : (tempPath nonce final).fileName? = some (tempName nonce final) := by
  obtain ⟨init, hends⟩ := tempPath_endsIn nonce final
  exact hends.fileName?_eq (tempName_ne_dot nonce final) (tempName_ne_dots nonce final)

end

/-! ## What a confined writer leaves -/

namespace Confined

variable {before middle after : FileTree} {temp : Path}

theorem refl (h : before.isDir temp = false) : Confined before temp before :=
  ⟨rfl, fun _ hne => absurd rfl hne, h⟩

theorem of_unchanged (h : before.exists? temp = false) : Confined before temp before := by
  refine .refl ?_
  rw [exists?, Option.isSome_eq_false_iff, Option.isNone_iff_eq_none] at h
  rw [isDir, h]

/-- Writing a file does no more than a writer may. -/
theorem of_writeFile {content : ByteArray} (h : before.writeFile temp content = .ok after) :
    Confined before temp after := by
  obtain ⟨⟨loc, hfound, hnode, hbut⟩, -⟩ := replaces_of_writeFile h
  refine ⟨hbut.workDir_eq, ?_, by simp [isDir, look, hfound, hnode]⟩
  intro other hne
  have hother : other = loc := by
    by_contra hother
    exact hne (hbut.node?_eq other hother)
  rw [hother, hfound]

/-- What a confined writer has changed is the file that its path names, which is there then. -/
theorem same_or (h : Confined before temp after) (htemp : temp.EndsInName) : before.Same after ∨
    ∃ loc content, before.Names temp loc ∧ SameBut loc before after ∧
      after.node? loc = some (.file content) := by
  by_cases hsame : ∀ loc, after.node? loc = before.node? loc
  · exact .inl ⟨h.workDir_eq, hsame⟩
  · obtain ⟨loc, hne⟩ := not_forall.1 hsame
    have hloc := h.locate_of_ne loc hne
    obtain ⟨hnames, hnode⟩ := (locate_eq_ok_iff_names htemp).1 hloc
    have hbut : SameBut loc before after := by
      refine ⟨h.workDir_eq, fun other hother => ?_⟩
      by_contra hchanged
      cases hloc.symm.trans (h.locate_of_ne other hchanged)
      exact hother rfl
    have hfile : after.node? loc ≠ some .dir := by
      intro hdir
      have := h.not_isDir
      rw [isDir, look_of_names htemp hnames, hdir] at this
      cases this
    refine .inr ⟨loc, ?_⟩
    match hat : after.node? loc with
    | none => exact absurd hat hnode
    | some .dir => exact absurd hat hfile
    | some (.file content) =>
      exact ⟨content, hnames.mono hbut.symm.workDir_eq (hbut.symm.isDir hfile), hbut, rfl⟩

/-- One confined writer behind another is a confined writer. -/
theorem trans (htemp : temp.EndsInName) (h : Confined before temp middle)
    (h' : Confined middle temp after) : Confined before temp after := by
  refine ⟨h'.workDir_eq.trans h.workDir_eq, fun loc hne => ?_, h'.not_isDir⟩
  by_cases hkept : after.node? loc = middle.node? loc
  · have hloc := h.locate_of_ne loc (hkept ▸ hne)
    rcases h'.same_or htemp with hsame | ⟨other, content, hnames, hbut, hfile⟩
    · rw [hsame.locate_eq, hloc]
    · -- a path names one location, so the second has written to where the first has
      obtain rfl := ((locate_eq_ok_iff_names htemp).1 hloc).1.unique hnames
      have hfree : middle.node? loc ≠ some .dir := by
        intro hdir
        have hnot := h.not_isDir
        rw [isDir, look_of_names htemp hnames, hdir] at hnot
        cases hnot
      exact (hnames.mono hbut.workDir_eq (hbut.isDir hfree)).locate_eq (by simp [hfile])
  · exact h'.locate_of_ne loc hkept

end Confined

/-- Removing what a failed write has left removes the file that the path names, if there is one. -/
theorem discard_names (t : FileTree) (p : Path) :
    (discard t p = t ∧ ∀ loc, t.Names p loc → ∀ content, t.node? loc ≠ some (.file content)) ∨
      ∃ loc, t.Names p loc ∧ discard t p = t.erase loc := by
  unfold discard
  cases hremove : t.removeFile p with
  | ok removed =>
    obtain ⟨place, content, hplace, hname, hslash, hshort, -, rfl⟩ := removeFile_eq_ok_iff.1 hremove
    exact .inr ⟨_, ⟨place, hplace, hname, hslash, hshort, rfl⟩, rfl⟩
  | error e =>
    refine .inl ⟨rfl, ?_⟩
    rintro loc ⟨place, hplace, hname, hslash, hshort, rfl⟩ content hfile
    have := removeFile_eq_ok_iff.2 ⟨place, content, hplace, hname, hslash, hshort, hfile, rfl⟩
    rw [hremove] at this
    cases this

/-! ## Attempts to produce a file -/

section

variable {τ ε : Type} {ofFileError : FileError → ε} {nonce : UInt64} {final : Path}
  {write : Path → Action τ ε Unit} {world : World τ}

theorem writeWith_of_failed {e : ε} {left : World τ}
    (h : write (tempPath nonce final) world = (.error e, left)) :
    writeWith ofFileError nonce final write world =
      (.error e, { left with files := discard left.files (tempPath nonce final) }) := by
  simp only [writeWith, h]

theorem writeWith_of_refused {refusal : FileError} {left : World τ}
    (h : write (tempPath nonce final) world = (.ok (), left))
    (hrename : left.files.rename (tempPath nonce final) final = .error refusal) :
    writeWith ofFileError nonce final write world =
      (.error (ofFileError refusal),
        { left with files := discard left.files (tempPath nonce final) }) := by
  simp only [writeWith, h, persist, hrename]

theorem writeWith_of_renamed {left : World τ} {result : FileTree}
    (h : write (tempPath nonce final) world = (.ok (), left))
    (hrename : left.files.rename (tempPath nonce final) final = .ok result) :
    writeWith ofFileError nonce final write world = (.ok (), { left with files := result }) := by
  simp only [writeWith, h, persist, hrename]

/-- An attempt succeeds exactly if both the writer and the renaming do. -/
theorem writeWith_eq_ok_iff {after : World τ} :
    writeWith ofFileError nonce final write world = (.ok (), after) ↔
      ∃ left result, write (tempPath nonce final) world = (.ok (), left) ∧
        left.files.rename (tempPath nonce final) final = .ok result ∧
        after = { left with files := result } := by
  constructor
  · intro h
    match hleft : write (tempPath nonce final) world with
    | (.error e, left) =>
      rw [writeWith_of_failed hleft] at h
      cases h
    | (.ok (), left) =>
      cases hrename : left.files.rename (tempPath nonce final) final with
      | error refusal =>
        rw [writeWith_of_refused hleft hrename] at h
        cases h
      | ok result =>
        rw [writeWith_of_renamed hleft hrename] at h
        cases h
        exact ⟨left, result, rfl, hrename, rfl⟩
  · rintro ⟨left, result, hleft, hrename, rfl⟩
    exact writeWith_of_renamed hleft hrename

end

end ColumnSieve
