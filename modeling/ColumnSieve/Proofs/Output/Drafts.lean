import ColumnSieve.Proofs.Output

/-!
# Drafts beside one destination

Several writers have a temporary path each for one destination.  At any moment each of them may have
a draft there, and one of them may have put its draft in place.

* `Apart`                  — temporary paths that are told apart by their names;
* `Drafted`                — the files as they were, with drafts and a file put in place;
* `Drafted.readFile_temp`, `Drafted.look_final`, `Drafted.readFile_final` — what is then read;
* `Drafted.start`, `Drafted.write`, `Drafted.discard`, `Drafted.rename` — one writer acts, and no
  other draft changes;
* `writeWith_allOrNothing` — a single attempt ends with its file or with nothing.
-/

namespace ColumnSieve

open FileTree

variable {ι : Type} {temp : ι → Path} {final : Path}

/-- The temporary paths end in names that differ from each other and from that of `final`. -/
structure Apart (temp : ι → Path) (final : Path) : Prop where
  endsInName : ∀ i, (temp i).EndsInName
  fileName?_ne : ∀ i j, i ≠ j → (temp i).fileName? ≠ (temp j).fileName?
  fileName?_ne_final : ∀ i, (temp i).fileName? ≠ final.fileName?

/-- Temporary paths with different names are kept apart. -/
theorem apart_tempPath {ι : Type} {nonce : ι → UInt64} {final : Path}
    (hnonce : ∀ i j, i ≠ j → tempName (nonce i) final ≠ tempName (nonce j) final) :
    Apart (fun i => tempPath (nonce i) final) final where
  endsInName i := tempPath_endsInName (nonce i) final
  fileName?_ne i j hne := by
    rw [tempPath_fileName?, tempPath_fileName?]
    exact fun h => hnonce i j hne (Option.some.inj h)
  fileName?_ne_final i := by
    rw [tempPath_fileName?]
    exact (tempName_ne_fileName _ _).symm

/-- Nothing differs from `before` but the draft at each temporary path, and the file at `final` if
one has been put in place there. -/
structure Drafted (before : FileTree) (temp : ι → Path) (final : Path)
    (draft : ι → Option ByteArray) (placed : Option ByteArray) (after : FileTree) : Prop where
  workDir_eq : after.workDir = before.workDir
  isDir_iff : ∀ loc, after.node? loc = some .dir ↔ before.node? loc = some .dir
  wellFormed : after.WellFormed
  fresh : ∀ i loc, before.Names (temp i) loc → before.node? loc = none
  node?_temp : ∀ i loc, before.Names (temp i) loc → after.node? loc = (draft i).map .file
  named : ∀ i content, draft i = some content → ∃ loc, before.Names (temp i) loc
  node?_final : ∀ loc, before.Names final loc →
    after.node? loc = (placed.map .file).or (before.node? loc)
  named_final : ∀ content, placed = some content → ∃ loc, before.Names final loc
  node?_other : ∀ loc, (∀ i, ¬ before.Names (temp i) loc) → ¬ before.Names final loc →
    after.node? loc = before.node? loc

namespace Drafted

variable {before files files' : FileTree} {draft : ι → Option ByteArray} {placed : Option ByteArray}
  {i : ι} {loc : Location}

/-- Before anything is written there are no drafts. -/
theorem start (apart : Apart temp final) (hwf : before.WellFormed)
    (hfresh : ∀ i, before.exists? (temp i) = false) :
    Drafted before temp final (fun _ => none) none before := by
  have hnone (i : ι) (loc : Location) (h : before.Names (temp i) loc) :
      before.node? loc = none := by
    simpa [exists?, look_of_names (apart.endsInName i) h] using hfresh i
  exact {
    workDir_eq := rfl
    isDir_iff := fun _ => .rfl
    wellFormed := hwf
    fresh := hnone
    node?_temp := hnone
    named := fun _ _ h => by cases h
    node?_final := fun _ _ => rfl
    named_final := fun _ h => by cases h
    node?_other := fun _ _ _ => rfl }

/-- The locations that paths name stay the same all the time. -/
theorem names_iff (h : Drafted before temp final draft placed files) (p : Path) :
    files.Names p loc ↔ before.Names p loc :=
  ⟨.mono h.workDir_eq.symm fun loc => (h.isDir_iff loc).1,
    .mono h.workDir_eq fun loc => (h.isDir_iff loc).2⟩

/-- A writer never meets a directory at its temporary path. -/
theorem node?_temp_ne_dir (h : Drafted before temp final draft placed files)
    (hloc : before.Names (temp i) loc) : files.node? loc ≠ some .dir := by
  rw [h.node?_temp i loc hloc]
  cases draft i with
  | none => simp
  | some content => simp

theorem of_same (h : Drafted before temp final draft placed files) (hsame : files.Same files') :
    Drafted before temp final draft placed files' where
  workDir_eq := hsame.workDir_eq.trans h.workDir_eq
  isDir_iff loc := hsame.node?_eq loc ▸ h.isDir_iff loc
  wellFormed := h.wellFormed.same hsame
  fresh := h.fresh
  node?_temp i loc hloc := (hsame.node?_eq loc).trans (h.node?_temp i loc hloc)
  named := h.named
  node?_final loc hloc := (hsame.node?_eq loc).trans (h.node?_final loc hloc)
  named_final := h.named_final
  node?_other loc htemp hfinal := (hsame.node?_eq loc).trans (h.node?_other loc htemp hfinal)

/-! ### What is read -/

theorem look_temp (apart : Apart temp final) (h : Drafted before temp final draft placed files)
    (i : ι) : files.look (temp i) = (draft i).map .file := by
  by_cases hnamed : ∃ loc, before.Names (temp i) loc
  · obtain ⟨loc, hloc⟩ := hnamed
    rw [look_of_names (apart.endsInName i) ((h.names_iff _).2 hloc), h.node?_temp i loc hloc]
  · have hno (loc : Location) : ¬ files.Names (temp i) loc := fun hloc =>
      hnamed ⟨loc, (h.names_iff _).1 hloc⟩
    rw [look_of_unnamed (apart.endsInName i) hno]
    cases hdraft : draft i with
    | none => rfl
    | some content => exact absurd (h.named i content hdraft) hnamed

/-- At its temporary path a writer finds its own draft. -/
theorem readFile_temp (apart : Apart temp final) (h : Drafted before temp final draft placed files)
    (i : ι) : (files.readFile (temp i)).toOption = draft i := by
  refine Option.ext fun content => ?_
  rw [toOption_readFile_eq_some_iff, h.look_temp apart]
  simp

theorem exists?_temp (apart : Apart temp final) (h : Drafted before temp final draft placed files)
    (i : ι) : files.exists? (temp i) = (draft i).isSome := by
  rw [exists?, h.look_temp apart, Option.isSome_map]

/-- Until a file is put in place the destination is as it was. -/
theorem look_final (h : Drafted before temp final draft none files) (hwf : before.WellFormed) :
    files.look final = before.look final :=
  look_congr hwf h.wellFormed h.workDir_eq h.isDir_iff h.node?_final

theorem node?_placed {content : ByteArray}
    (h : Drafted before temp final draft (some content) files) :
    ∃ loc, before.Names final loc ∧ files.locate final = .ok loc ∧
      files.node? loc = some (.file content) := by
  obtain ⟨loc, hloc⟩ := h.named_final content rfl
  have hnode : files.node? loc = some (.file content) := h.node?_final loc hloc
  exact ⟨loc, hloc, ((h.names_iff _).2 hloc).locate_eq (by simp [hnode]), hnode⟩

theorem readFile_final {content : ByteArray}
    (h : Drafted before temp final draft (some content) files) :
    files.readFile final = .ok content := by
  obtain ⟨loc, -, hloc, hnode⟩ := h.node?_placed
  exact readFile_eq_ok_iff.2 ⟨loc, hloc, hnode⟩

/-- Without drafts the temporary paths are free, as they were. -/
theorem node?_of_no_draft (h : Drafted before temp final draft placed files)
    (hno : ∀ i, draft i = none) (hfinal : ¬ before.Names final loc) :
    files.node? loc = before.node? loc := by
  by_cases htemp : ∃ i, before.Names (temp i) loc
  · obtain ⟨i, hloc⟩ := htemp
    rw [h.node?_temp i loc hloc, hno, h.fresh i loc hloc]
    rfl
  · exact h.node?_other loc (not_exists.1 htemp) hfinal

/-- Without drafts and with nothing put in place all is as it was. -/
theorem same (h : Drafted before temp final draft none files) (hno : ∀ i, draft i = none) :
    before.Same files := by
  refine ⟨h.workDir_eq, fun loc => ?_⟩
  by_cases hfinal : before.Names final loc
  · exact h.node?_final loc hfinal
  · exact h.node?_of_no_draft hno hfinal

/-- Without drafts nothing but the file put in place is new. -/
theorem replaces {content : ByteArray} (h : Drafted before temp final draft (some content) files)
    (hno : ∀ i, draft i = none) : Replaces before final content files := by
  obtain ⟨loc, hnames, hloc, hnode⟩ := h.node?_placed
  refine ⟨loc, hloc, hnode, h.workDir_eq, fun other hother => ?_⟩
  exact h.node?_of_no_draft hno fun hfinal => hother (hfinal.unique hnames)

/-! ### What one writer does -/

/-- A file that comes to the destination is the one put in place, and the drafts stay. -/
theorem put_in_place (apart : Apart temp final) (h : Drafted before temp final draft placed files)
    (hloc : before.Names final loc) (hfree : files.node? loc ≠ some .dir)
    (hbut : SameBut loc files files') {content : ByteArray}
    (hnode : files'.node? loc = some (.file content)) :
    Drafted before temp final draft (some content) files' where
  workDir_eq := hbut.workDir_eq.trans h.workDir_eq
  isDir_iff other :=
    ⟨fun hdir => (h.isDir_iff other).1 (hbut.symm.isDir (by simp [hnode]) other hdir),
      fun hdir => hbut.isDir hfree other ((h.isDir_iff other).2 hdir)⟩
  wellFormed := ((h.names_iff _).2 hloc).wellFormed h.wellFormed hbut hfree
  fresh := h.fresh
  node?_temp j other hnames := by
    have hne := hnames.ne_of_fileName?_ne hloc (apart.fileName?_ne_final j)
    exact (hbut.node?_eq other hne).trans (h.node?_temp j other hnames)
  named := h.named
  node?_final other hnames := by
    rw [hnames.unique hloc, hnode]
    rfl
  named_final _ _ := ⟨loc, hloc⟩
  node?_other other htemp hfinal := by
    have hne : other ≠ loc := by
      rintro rfl
      exact hfinal hloc
    exact (hbut.node?_eq other hne).trans (h.node?_other other htemp hfinal)

variable [DecidableEq ι]

/-- A change of what stands at one temporary path is a change of one draft. -/
theorem redraft (apart : Apart temp final) (h : Drafted before temp final draft placed files)
    (hloc : before.Names (temp i) loc) (hbut : SameBut loc files files')
    {content : Option ByteArray} (hnode : files'.node? loc = content.map .file) :
    Drafted before temp final (Function.update draft i content) placed files' := by
  have hold := h.node?_temp_ne_dir hloc
  have hnew : files'.node? loc ≠ some .dir := by
    rw [hnode]
    cases content with
    | none => simp
    | some content => simp
  have hother {j : ι} {other : Location} (hj : j ≠ i) (hnames : before.Names (temp j) other) :
      other ≠ loc := hnames.ne_of_fileName?_ne hloc (apart.fileName?_ne j i hj)
  have hotherFinal {other : Location} (hnames : before.Names final other) : other ≠ loc :=
    (hloc.ne_of_fileName?_ne hnames (apart.fileName?_ne_final i)).symm
  exact {
    workDir_eq := hbut.workDir_eq.trans h.workDir_eq
    isDir_iff := fun other =>
      ⟨fun hdir => (h.isDir_iff other).1 (hbut.symm.isDir hnew other hdir),
        fun hdir => hbut.isDir hold other ((h.isDir_iff other).2 hdir)⟩
    wellFormed := ((h.names_iff _).2 hloc).wellFormed h.wellFormed hbut hold
    fresh := h.fresh
    node?_temp := fun j other hnames => by
      by_cases hj : j = i
      · subst hj
        rw [hnames.unique hloc, hnode, Function.update_self]
      · rw [hbut.node?_eq other (hother hj hnames), Function.update_of_ne hj]
        exact h.node?_temp j other hnames
    named := fun j content hdraft => by
      by_cases hj : j = i
      · subst hj
        exact ⟨loc, hloc⟩
      · rw [Function.update_of_ne hj] at hdraft
        exact h.named j content hdraft
    node?_final := fun other hnames =>
      (hbut.node?_eq other (hotherFinal hnames)).trans (h.node?_final other hnames)
    named_final := h.named_final
    node?_other := fun other htemp hfinal => by
      have hne : other ≠ loc := by
        rintro rfl
        exact htemp i hloc
      exact (hbut.node?_eq other hne).trans (h.node?_other other htemp hfinal) }

/-- What a writer writes to its temporary path is its draft from then on. -/
theorem write (apart : Apart temp final) (h : Drafted before temp final draft placed files)
    (hwrite : Confined files (temp i) files') :
    Drafted before temp final (Function.update draft i (files'.readFile (temp i)).toOption) placed
      files' := by
  rcases hwrite.same_or (apart.endsInName i) with hsame | ⟨loc, content, hloc, hbut, hnode⟩
  · have h' := h.of_same hsame
    rw [h'.readFile_temp apart, Function.update_eq_self]
    exact h'
  · have hdraft : files'.node? loc = (some content).map .file := hnode
    have h' := h.redraft apart ((h.names_iff _).1 hloc) hbut hdraft
    rw [h'.readFile_temp apart, Function.update_self]
    exact h'

/-- A writer that clears up removes its own draft. -/
theorem discard (apart : Apart temp final) (h : Drafted before temp final draft placed files)
    (i : ι) :
    Drafted before temp final (Function.update draft i none) placed
      (ColumnSieve.discard files (temp i)) := by
  rcases discard_names files (temp i) with ⟨hsame, hno⟩ | ⟨loc, hloc, herase⟩
  · have hnone : draft i = none := by
      cases hdraft : draft i with
      | none => rfl
      | some content =>
        obtain ⟨loc, hloc⟩ := h.named i content hdraft
        refine absurd ?_ (hno loc ((h.names_iff _).2 hloc) content)
        rw [h.node?_temp i loc hloc, hdraft]
        rfl
    rw [hsame, ← hnone, Function.update_eq_self]
    exact h
  · rw [herase]
    exact h.redraft apart ((h.names_iff _).1 hloc) sameBut_erase (node?_erase hloc.ne_nil)

/-- A renaming that succeeds puts the draft of its writer in place. -/
theorem rename (apart : Apart temp final) (h : Drafted before temp final draft placed files)
    (hrename : files.rename (temp i) final = .ok files') :
    ∃ content, draft i = some content ∧
      Drafted before temp final (Function.update draft i none) (some content) files' := by
  have hnotDir (loc : Location) (hloc : files.Names (temp i) loc) :
      files.node? loc ≠ some .dir := h.node?_temp_ne_dir ((h.names_iff _).1 hloc)
  obtain ⟨source, target, content, hsource, htarget, hfile, hmove⟩ :=
    rename_names (apart.endsInName i) hnotDir hrename
  have hne : source ≠ target := hsource.ne_of_fileName?_ne htarget (apart.fileName?_ne_final i)
  obtain ⟨hfree, rfl⟩ := hmove.resolve_left hne
  have hkept := h.node?_temp i source ((h.names_iff _).1 hsource)
  obtain ⟨_, hdraft, ⟨⟩⟩ := Option.map_eq_some_iff.1 (hkept.symm.trans hfile)
  -- the draft goes from its own place first, and the file then comes to the destination
  have hgone : SameBut source files (files.erase source) := sameBut_erase
  have hcame := sameBut_move h.wellFormed hgone.symm (node?_erase hsource.ne_nil) hfile hfree hne
  have hnode : (files.move source target).node? target = some (.file content) := by
    rw [node?_move h.wellFormed hfile hfree hne, if_pos rfl]
  have hwithout := h.redraft apart ((h.names_iff _).1 hsource) hgone
    (show (files.erase source).node? source = (none : Option ByteArray).map .file from
      node?_erase hsource.ne_nil)
  have hfree' : (files.erase source).node? target ≠ some .dir := by
    rwa [hgone.node?_eq target hne.symm]
  exact ⟨content, hdraft,
    hwithout.put_in_place apart ((h.names_iff _).1 htarget) hfree' hcame hnode⟩

end Drafted

/-! ## One attempt -/

section

variable {τ ε : Type} {ofFileError : FileError → ε} {nonce : UInt64} {final : Path}
  {write : Path → Action τ ε Unit} {world : World τ}

/-- **Every attempt to produce a file ends with that file or with nothing**, whatever stands at
the destination and around it, and whatever the writer does with the path it is given. -/
theorem writeWith_allOrNothing (hwf : world.files.WellFormed)
    (hfresh : world.files.exists? (tempPath nonce final) = false)
    (hwrite : Confined world.files (tempPath nonce final)
      (write (tempPath nonce final) world).2.files) :
    AllOrNothing ofFileError world.files (tempPath nonce final) final
        (write (tempPath nonce final) world) (writeWith ofFileError nonce final write world) ∧
      (writeWith ofFileError nonce final write world).2.files.WellFormed := by
  have apart : Apart (fun _ : Unit => tempPath nonce final) final :=
    apart_tempPath fun i j hne => absurd rfl hne
  have hdraft := (Drafted.start apart hwf fun _ => hfresh).write (i := ()) apart hwrite
  have hdiscard {left : FileTree} {content : Unit → Option ByteArray}
      (h : Drafted world.files (fun _ => tempPath nonce final) final content none left) :
      world.files.Same (discard left (tempPath nonce final)) ∧
        (discard left (tempPath nonce final)).WellFormed := by
    have hgone := h.discard apart ()
    exact ⟨hgone.same fun _ => Function.update_self .., hgone.wellFormed⟩
  match hleft : write (tempPath nonce final) world with
  | (.error e, left) =>
    rw [hleft] at hdraft
    obtain ⟨hsame, hafter⟩ := hdiscard hdraft
    rw [writeWith_of_failed hleft]
    dsimp only [AllOrNothing] at hsame ⊢
    exact ⟨⟨hsame, .inl rfl⟩, hafter⟩
  | (.ok (), left) =>
    rw [hleft] at hdraft
    cases hrename : left.files.rename (tempPath nonce final) final with
    | error refusal =>
      obtain ⟨hsame, hafter⟩ := hdiscard hdraft
      rw [writeWith_of_refused hleft hrename]
      dsimp only [AllOrNothing] at hsame ⊢
      exact ⟨⟨hsame, .inr ⟨rfl, refusal, hrename, rfl⟩⟩, hafter⟩
    | ok result =>
      obtain ⟨content, hcontent, hplaced⟩ := hdraft.rename (i := ()) apart hrename
      have hread : left.files.readFile (tempPath nonce final) = .ok content := by
        rw [Function.update_self, toOption_readFile_eq_some_iff] at hcontent
        exact readFile_eq_ok_iff_look.2 hcontent
      rw [writeWith_of_renamed hleft hrename]
      dsimp only [AllOrNothing] at hread ⊢
      exact ⟨⟨rfl, content, hread, hplaced.replaces fun _ => Function.update_self ..⟩,
        hplaced.wellFormed⟩

end

end ColumnSieve
