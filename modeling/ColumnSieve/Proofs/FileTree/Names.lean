import ColumnSieve.Proofs.FileTree.Canonical
import ColumnSieve.Proofs.FileTree.Change

/-!
# The one location that a path can have a file at

Whether or not a file is there, a path names at most one location for it, and which one depends on
the directories alone.

* `Path.EndsInName`        — a path whose last part is a name;
* `FileTree.Names`         — the location at which a file would be found under a path;
* `look_of_names`          — what such a path leads to is what stands at that location;
* `look_congr`             — trees with the same directories differ under a path only there;
* `rename_names`           — what a file that is renamed is moved over.
-/

namespace ColumnSieve

/-- The last part of a path is a name, not a dot, and no slash follows it. -/
def Path.EndsInName (p : Path) : Prop :=
  ∃ init name, p.EndsIn init name false ∧ name ≠ ['.'] ∧ name ≠ ['.', '.']

namespace FileTree

/-- A file at `loc` would be found under the path. -/
def Names (t : FileTree) (p : Path) (loc : Location) : Prop :=
  ∃ place, t.place p = .ok place ∧ place.isSpecial = false ∧ place.slash = false ∧
    place.name.utf8ByteSize ≤ maxName ∧ place.location = loc

variable {t t' : FileTree} {p q : Path} {loc loc' : Location} {content : ByteArray}

namespace Names

theorem unique (h : t.Names p loc) (h' : t.Names p loc') : loc = loc' := by
  obtain ⟨place, hplace, -, -, -, rfl⟩ := h
  obtain ⟨place', hplace', -, -, -, rfl⟩ := h'
  cases hplace.symm.trans hplace'
  rfl

theorem mono (hwork : t'.workDir = t.workDir)
    (hdirs : ∀ loc, t.node? loc = some .dir → t'.node? loc = some .dir) (h : t.Names p loc) :
    t'.Names p loc := by
  obtain ⟨place, hplace, hrest⟩ := h
  exact ⟨place, place_mono hwork hdirs hplace, hrest⟩

theorem locate_eq (h : t.Names p loc) (hnode : t.node? loc ≠ none) : t.locate p = .ok loc := by
  obtain ⟨place, hplace, hname, hslash, hshort, rfl⟩ := h
  exact locate_of_place hplace hname hslash hshort hnode

theorem ne_of_fileName?_ne (h : t.Names p loc) (h' : t.Names q loc')
    (hne : p.fileName? ≠ q.fileName?) : loc ≠ loc' := by
  obtain ⟨place, hplace, hname, -, -, rfl⟩ := h
  obtain ⟨place', hplace', hname', -, -, rfl⟩ := h'
  exact location_ne_of_fileName?_ne hplace hname hplace' hname' hne

theorem ne_nil (h : t.Names p loc) : loc ≠ [] := by
  obtain ⟨place, -, -, -, -, rfl⟩ := h
  simp [Place.location]

/-- A tree stays well-formed if a file comes, changes or goes where a path names it. -/
theorem wellFormed (h : t.Names p loc) (hwf : t.WellFormed) (hbut : SameBut loc t t')
    (hold : t.node? loc ≠ some .dir) : t'.WellFormed := by
  obtain ⟨place, hplace, hname, -, hshort, rfl⟩ := h
  exact hwf.sameBut hbut (place_eq_ok_iff.1 hplace).2.2.1 (endsIn_of_place hplace hname).1 hshort
    hold

end Names

/-! ## What a path leads to -/

theorem locate_eq_ok_iff_names (hp : p.EndsInName) :
    t.locate p = .ok loc ↔ t.Names p loc ∧ t.node? loc ≠ none := by
  obtain ⟨init, name, hends, hdot, hdots⟩ := hp
  constructor
  · intro h
    obtain ⟨dir, hplace, rfl, hshort, hnode⟩ := (locate_eq_ok_iff_place hends hdot hdots).1 h
    exact ⟨⟨_, hplace, isSpecial_of_endsIn hends hdot hdots, rfl, hshort, rfl⟩, hnode⟩
  · rintro ⟨hnames, hnode⟩
    exact hnames.locate_eq hnode

theorem look_of_names (hp : p.EndsInName) (h : t.Names p loc) : t.look p = t.node? loc := by
  unfold look
  cases hfound : t.locate p with
  | ok found => rw [h.unique ((locate_eq_ok_iff_names hp).1 hfound).1]
  | error e =>
    by_contra hnode
    have := h.locate_eq (Ne.symm hnode)
    rw [hfound] at this
    cases this

theorem look_of_unnamed (hp : p.EndsInName) (h : ∀ loc, ¬ t.Names p loc) : t.look p = none := by
  unfold look
  cases hfound : t.locate p with
  | ok found => exact absurd ((locate_eq_ok_iff_names hp).1 hfound).1 (h found)
  | error e => rfl

theorem readFile_eq_ok_iff_look : t.readFile p = .ok content ↔ t.look p = some (.file content) := by
  unfold look
  rw [readFile_eq_ok_iff]
  cases t.locate p with
  | error e => simp
  | ok found => simp

theorem toOption_readFile_eq_some_iff :
    (t.readFile p).toOption = some content ↔ t.look p = some (.file content) := by
  rw [← readFile_eq_ok_iff_look]
  cases t.readFile p with
  | error e => simp [Except.toOption]
  | ok found => simp [Except.toOption]

theorem look_eq_some_iff {node : Node} :
    t.look p = some node ↔ ∃ loc, t.locate p = .ok loc ∧ t.node? loc = some node := by
  unfold look
  cases t.locate p with
  | error e => simp
  | ok found => simp

/-- Whatever its last part, a path that leads to a file names its location. -/
theorem names_of_file (hwf : t.WellFormed) (hloc : t.locate p = .ok loc)
    (hfile : t.node? loc = some (.file content)) : t.Names p loc := by
  obtain ⟨front, last, hnames⟩ := (List.eq_nil_or_concat' p.names).resolve_left p.names_ne_nil
  have htexts : nameTexts p = front.map String.ofList ++ [String.ofList last] := by
    simp [nameTexts, hnames]
  obtain ⟨-, hwalk⟩ := locate_eq_ok_iff.1 hloc
  rw [htexts, walk_concat_eq_ok_iff] at hwalk
  obtain ⟨here, -, hstep⟩ := hwalk
  obtain ⟨hdir, ⟨-, rfl⟩ | ⟨-, rfl⟩ | ⟨⟨hempty, hdot, hdots⟩, -⟩⟩ := step_eq_ok_iff.1 hstep
  · cases hfile.symm.trans hdir
  · cases hfile.symm.trans (hwf.isDir_dropLast hdir)
  · have hp : p.EndsInName := by
      refine ⟨front, last, ⟨?_, [], hnames, by simp, rfl⟩, ?_, ?_⟩
      · rintro rfl
        exact hempty rfl
      · rintro rfl
        exact hdot rfl
      · rintro rfl
        exact hdots rfl
    exact ((locate_eq_ok_iff_names hp).1 hloc).1

/-- Where only directories count on the way, a path can tell two trees apart at one location. -/
theorem look_congr (hwf : t.WellFormed) (hwf' : t'.WellFormed) (hwork : t'.workDir = t.workDir)
    (hdirs : ∀ loc, t'.node? loc = some .dir ↔ t.node? loc = some .dir)
    (hnode : ∀ loc, t.Names p loc → t'.node? loc = t.node? loc) : t'.look p = t.look p := by
  have hforth {t t' : FileTree} (hwf : t.WellFormed) (hwork : t'.workDir = t.workDir)
      (hdirs : ∀ loc, t.node? loc = some .dir → t'.node? loc = some .dir)
      (hnode : ∀ loc, t.Names p loc → t'.node? loc = t.node? loc) {node : Node}
      (h : t.look p = some node) : t'.look p = some node := by
    obtain ⟨loc, hloc, hat⟩ := look_eq_some_iff.1 h
    cases node with
    | dir =>
      obtain ⟨hpass, hwalk⟩ := locate_eq_ok_iff.1 hloc
      refine look_eq_some_iff.2 ⟨loc, locate_eq_ok_iff.2 ⟨hpass, ?_⟩, hdirs loc hat⟩
      rw [start_congr hwork]
      exact walk_mono hdirs hwalk hat
    | file content =>
      have hnames := names_of_file hwf hloc hat
      have hat' : t'.node? loc = some (.file content) := (hnode loc hnames).trans hat
      exact look_eq_some_iff.2 ⟨loc, (hnames.mono hwork hdirs).locate_eq (by simp [hat']), hat'⟩
  have hback (loc : Location) (h : t'.Names p loc) : t.node? loc = t'.node? loc :=
    (hnode loc (h.mono hwork.symm fun loc => (hdirs loc).1)).symm
  refine Option.ext fun node => ⟨?_, ?_⟩
  · exact hforth hwf' hwork.symm (fun loc => (hdirs loc).1) hback
  · exact hforth hwf hwork (fun loc => (hdirs loc).2) hnode

/-! ## Changes -/

/-- A file that is renamed is moved, if it is not there already. -/
theorem rename_names (hp : p.EndsInName) (hfile : ∀ loc, t.Names p loc → t.node? loc ≠ some .dir)
    (h : t.rename p q = .ok t') : ∃ source target content, t.Names p source ∧ t.Names q target ∧
      t.node? source = some (.file content) ∧
      (source = target ∨ t.node? target ≠ some .dir ∧ t' = t.move source target) := by
  obtain ⟨init, name, hends, -, -⟩ := hp
  obtain ⟨old, new, node, hold, hnew, holdName, hnewName, hshort, hnewShort, hnode, hslash,
    hmove⟩ := rename_eq_ok_iff.1 h
  have holdSlash : old.slash = false := ((place_eq_ok_iff_of_endsIn hends).1 hold).2.2.2.2
  have hsource : t.Names p old.location := ⟨old, hold, holdName, holdSlash, hshort, rfl⟩
  cases node with
  | dir => exact absurd hnode (hfile _ hsource)
  | file content =>
    have hnewSlash : new.slash = false := (hslash (by simp)).2
    refine ⟨old.location, new.location, content, hsource,
      ⟨new, hnew, hnewName, hnewSlash, hnewShort, rfl⟩, hnode, ?_⟩
    rcases hmove with ⟨hsame, -⟩ | ⟨-, -, hreplace, rfl⟩
    · exact .inl hsame
    · exact .inr ⟨mayReplace_file_eq_ok_iff.1 hreplace, rfl⟩

end FileTree

end ColumnSieve
