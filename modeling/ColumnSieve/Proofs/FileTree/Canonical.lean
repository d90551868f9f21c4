import ColumnSieve.Proofs.FileTree.WellFormed

/-!
# Canonical paths

The absolute path of something that is there leads back to it, and is its own canonical path.

* `names_pathOf`            — the names of an absolute path;
* `walk_of_node?`           — the names of a location lead there;
* `canonicalize_eq_ok_iff`  — the canonical path is that of the location that a path leads to;
* `canonicalize_pathOf`     — a canonical path is not changed again;
* `exists_name_of_walk`     — a path that leads to a file ends in the name of that file.
-/

namespace ColumnSieve.FileTree

variable {t : FileTree} {loc here : Location} {names : List String} {content : ByteArray}
  {p q : Path}

/-! ## Ways through a well-formed tree -/

/-- Everything above something is a directory. -/
theorem WellFormed.isDir_of_below (h : t.WellFormed) {name : String}
    (hnode : t.node? (loc ++ name :: names) ≠ none) : t.node? loc = some .dir := by
  by_contra hloc
  apply hnode
  exact h.node?_eq_none_of_prefix hloc (List.prefix_append _ _) (by simp)

theorem WellFormed.isName_of_mem (h : t.WellFormed) (hnode : t.node? loc ≠ none) {name : String}
    (hname : name ∈ loc) : IsName name := by
  obtain ⟨front, rest, rfl⟩ := List.append_of_mem hname
  rw [List.append_cons] at hnode
  cases rest with
  | nil =>
    rw [List.append_nil] at hnode
    exact h.isName hnode
  | cons next rest =>
    have hdir := h.isDir_of_below hnode
    exact h.isName (by rw [hdir]; simp)

/-- The names of a location lead there. -/
theorem WellFormed.walk_of_node? (h : t.WellFormed) (hnode : t.node? (here ++ names) ≠ none) :
    t.walk here names = .ok (here ++ names) := by
  induction names generalizing here with
  | nil =>
    rw [List.append_nil]
    rfl
  | cons name names ih =>
    have hdir := h.isDir_of_below hnode
    rw [List.append_cons] at hnode
    have hnext : t.node? (here ++ [name]) ≠ none := by
      cases names with
      | nil => rwa [List.append_nil] at hnode
      | cons next names =>
        rw [h.isDir_of_below hnode]
        simp
    have hname := h.isName hnext
    refine walk_cons_eq_ok_iff.2 ⟨here ++ [name], ?_, ?_⟩
    · rw [step_name_eq_ok_iff hname.ne_empty hname.ne_dot hname.ne_dots]
      exact ⟨hdir, h.name_short hnext, hnext, rfl⟩
    · rw [ih hnode, List.append_assoc]
      rfl

theorem WellFormed.isDir_dropLast (h : t.WellFormed) (hloc : t.node? loc = some .dir) :
    t.node? loc.dropLast = some .dir := by
  rcases List.eq_nil_or_concat' loc with rfl | ⟨dir, name, rfl⟩
  · exact hloc
  · rw [List.dropLast_concat]
    exact h.isDir_parent (by rw [hloc]; simp)

/-- Where a way ends something is. -/
theorem WellFormed.node?_of_walk (h : t.WellFormed) (hwalk : t.walk here names = .ok loc)
    (hnames : names ≠ []) : t.node? loc ≠ none := by
  obtain ⟨front, name, rfl⟩ := (List.eq_nil_or_concat' names).resolve_left hnames
  obtain ⟨last, -, hstep⟩ := walk_concat_eq_ok_iff.1 hwalk
  obtain ⟨hdir, ⟨-, rfl⟩ | ⟨-, rfl⟩ | ⟨-, -, hnode, rfl⟩⟩ := step_eq_ok_iff.1 hstep
  · rw [hdir]
    simp
  · rw [h.isDir_dropLast hdir]
    simp
  · exact hnode

/-- A step that leads to a file goes by the name of the file. -/
theorem eq_concat_of_step (h : t.WellFormed) {name : String} (hstep : t.step here name = .ok loc)
    (hfile : t.node? loc = some (.file content)) : loc = here ++ [name] := by
  obtain ⟨hdir, ⟨-, rfl⟩ | ⟨-, rfl⟩ | ⟨-, -, -, hloc⟩⟩ := step_eq_ok_iff.1 hstep
  · cases hdir.symm.trans hfile
  · cases (h.isDir_dropLast hdir).symm.trans hfile
  · exact hloc

/-- A path that leads to a file ends in the name of that file. -/
theorem exists_name_of_walk (h : t.WellFormed) (hwalk : t.walk here (nameTexts p) = .ok loc)
    (hfile : t.node? loc = some (.file content)) :
    ∃ dir front last, loc = dir ++ [String.ofList last] ∧ p.names = front ++ [last] := by
  obtain ⟨front, last, hnames⟩ :=
    (List.eq_nil_or_concat' p.names).resolve_left p.names_ne_nil
  rw [nameTexts, hnames, List.map_append, List.map_singleton, walk_concat_eq_ok_iff] at hwalk
  obtain ⟨dir, -, hstep⟩ := hwalk
  exact ⟨dir, front, last, eq_concat_of_step h hstep hfile, hnames⟩

/-! ## Absolute paths -/

theorem chars_pathOf (loc : Location) :
    (pathOf loc).chars = '/' :: ['/'].intercalate (loc.map String.toList) := by
  simp [pathOf, Path.chars, String.toList_intercalate]

theorem names_pathOf (hloc : loc ≠ []) (hslash : ∀ name ∈ loc, '/' ∉ name.toList) :
    (pathOf loc).names = [] :: loc.map String.toList := by
  have hparts : ∀ part ∈ loc.map String.toList, '/' ∉ part := by
    intro part hpart
    obtain ⟨name, hname, rfl⟩ := List.mem_map.1 hpart
    exact hslash name hname
  rw [Path.names, chars_pathOf, ← List.nil_append ('/' :: _), List.splitOn_append_cons_self,
    List.splitOn_intercalate _ hparts (by simpa using hloc)]
  rfl

theorem isAbsolute_pathOf (loc : Location) : (pathOf loc).isAbsolute = true := by
  rw [Path.isAbsolute, chars_pathOf]
  rfl

theorem start_pathOf (loc : Location) : t.start (pathOf loc) = [] := by
  rw [start, if_pos (isAbsolute_pathOf loc)]

/-- The absolute path of something that is there leads to it. -/
theorem WellFormed.walk_pathOf (h : t.WellFormed) (hnode : t.node? loc ≠ none) :
    t.walk (t.start (pathOf loc)) (nameTexts (pathOf loc)) = .ok loc := by
  have hroot : t.step [] "" = .ok [] := step_empty_eq_ok_iff.2 ⟨rfl, rfl⟩
  rw [start_pathOf]
  by_cases hloc : loc = []
  · have hnames : nameTexts (pathOf loc) = ["", ""] := by
      rw [nameTexts, Path.names, chars_pathOf, hloc]
      decide
    rw [hnames, hloc]
    exact walk_cons_eq_ok_iff.2 ⟨[], hroot, walk_cons_eq_ok_iff.2 ⟨[], hroot, rfl⟩⟩
  · have hnames := names_pathOf hloc fun name hname => (h.isName_of_mem hnode hname).no_slash
    have htexts : nameTexts (pathOf loc) = "" :: loc := by
      simp [nameTexts, hnames]
    rw [htexts]
    exact walk_cons_eq_ok_iff.2 ⟨[], hroot, h.walk_of_node? hnode⟩

theorem nul_not_mem_pathOf (h : t.WellFormed) (hnode : t.node? loc ≠ none) :
    '\x00' ∉ (pathOf loc).chars := by
  rw [chars_pathOf, List.mem_cons, Text.mem_intercalate_iff]
  rintro (hslash | ⟨part, hpart, hnul⟩ | ⟨hslash, -⟩)
  · cases hslash
  · obtain ⟨name, hname, rfl⟩ := List.mem_map.1 hpart
    exact (h.isName_of_mem hnode hname).no_nul hnul
  · cases hslash

theorem canonicalize_eq_ok_iff : t.canonicalize p = .ok q ↔
    '\x00' ∉ p.chars ∧ p.text ≠ "" ∧ ∃ loc, t.walk (t.start p) (nameTexts p) = .ok loc ∧
      (pathOf loc).text.utf8ByteSize < maxPath ∧ q = pathOf loc := by
  unfold canonicalize
  by_cases hnul : '\x00' ∈ p.chars
  · simp [hnul]
  · by_cases hempty : p.text = ""
    · rw [if_neg (by simpa using hnul), if_pos hempty]
      simp [hempty]
    · cases t.walk (t.start p) (nameTexts p) with
      | error e => simp [hnul, hempty]
      | ok loc =>
        by_cases hlong : maxPath ≤ (pathOf loc).text.utf8ByteSize
        · simp [hnul, hempty, hlong, Nat.not_lt.2 hlong]
        · simp [hnul, hempty, hlong, Nat.not_le.1 hlong, eq_comm]

theorem isAbsolute_of_canonicalize (h : t.canonicalize p = .ok q) : q.isAbsolute = true := by
  obtain ⟨-, -, loc, -, -, rfl⟩ := canonicalize_eq_ok_iff.1 h
  exact isAbsolute_pathOf loc

theorem passable_pathOf (h : t.WellFormed) (hnode : t.node? loc ≠ none)
    (hshort : (pathOf loc).text.utf8ByteSize < maxPath) : (pathOf loc).Passable := by
  refine ⟨nul_not_mem_pathOf h hnode, ?_, hshort⟩
  intro hempty
  have hchars := chars_pathOf loc
  rw [Path.chars, hempty] at hchars
  cases hchars

/-- A canonical path is its own. -/
theorem canonicalize_pathOf (h : t.WellFormed) (hnode : t.node? loc ≠ none)
    (hshort : (pathOf loc).text.utf8ByteSize < maxPath) :
    t.canonicalize (pathOf loc) = .ok (pathOf loc) := by
  have hpass := passable_pathOf h hnode hshort
  exact canonicalize_eq_ok_iff.2
    ⟨hpass.no_nul, hpass.ne_empty, loc, h.walk_pathOf hnode, hshort, rfl⟩

theorem isFile_iff : t.isFile p = true ↔
    ∃ loc content, t.locate p = .ok loc ∧ t.node? loc = some (.file content) := by
  unfold isFile look
  cases t.locate p with
  | error e => simp
  | ok loc =>
    simp only [Except.ok.injEq, exists_and_left, exists_eq_left']
    cases t.node? loc with
    | none => simp
    | some node =>
      cases node with
      | dir => simp
      | file content => simp

/-- A canonical path of a file: where the file is, and where it was found. -/
theorem exists_of_canonicalize (h : t.WellFormed) (hcanon : t.canonicalize p = .ok q)
    (hfile : t.isFile q = true) :
    ∃ loc content, t.walk (t.start p) (nameTexts p) = .ok loc ∧
      t.node? loc = some (.file content) ∧
      (pathOf loc).text.utf8ByteSize < maxPath ∧ q = pathOf loc := by
  obtain ⟨-, -, loc, hwalk, hshort, rfl⟩ := canonicalize_eq_ok_iff.1 hcanon
  obtain ⟨loc', content, hlocate, hnode⟩ := isFile_iff.1 hfile
  have hwalk' := (locate_eq_ok_iff.1 hlocate).2
  have hthere : t.node? loc ≠ none := h.node?_of_walk hwalk (by simp [nameTexts, Path.names_ne_nil])
  rw [h.walk_pathOf hthere] at hwalk'
  cases hwalk'
  exact ⟨loc, content, hwalk, hnode, hshort, rfl⟩

end ColumnSieve.FileTree
