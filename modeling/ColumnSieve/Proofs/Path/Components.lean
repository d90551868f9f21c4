import ColumnSieve.Proofs.Path
import Mathlib.Data.List.DropRight

/-!
# The components of a path

A path is a way in steps: it may start at the root or at the place where it is looked up, and
goes up or to something that it names.  However its slashes and dots are spelled, its file name is
its last step if that names something, and its parent leads there with the last step left out.

* `Path.Component`, `Path.components` — the steps of a path;
* `Path.same_iff`                     — two texts name one path if their steps are the same;
* `Path.fileName?_eq_components`, `Path.components_parent` — the last step, and those in front of it;
* `Path.components_join`              — one step more;
* `Path.IsFileIn`                     — a path whose last step names a file.
-/

namespace ColumnSieve.Path

/-- A step of a path. -/
inductive Component where
  | root
  | here
  | up
  | named (name : List Char)
  deriving DecidableEq, Repr

/-- The step that a name between slashes stands for.  Nothing stands in front of the first slash of
an absolute path. -/
def Component.ofName (name : List Char) : Component :=
  if name = [] then .root
  else if name = ['.'] then .here
  else if name = ['.', '.'] then .up
  else .named name

def Component.name? : Component → Option (List Char)
  | .named name => some name
  | _ => none

/-- The steps of a path.  The first name always counts; behind it, empty ones and dots do not. -/
def components (p : Path) : List Component :=
  if p.chars = [] then []
  else (p.names.headD [] :: p.names.tail.filter fun name => !isIdle name).map .ofName

/-- `p` leads to something called `name` where the steps `dir` lead to. -/
structure IsFileIn (p : Path) (dir : List Component) (name : List Char) : Prop where
  components_eq : p.components = dir ++ [.named name]
  components_parent : p.parent.components = dir
  fileName?_eq : p.fileName? = some name

variable {p : Path} {first name : List Char} {rest : List (List Char)}

/-! ## Steps and names -/

namespace Component

theorem ofName_eq_root_iff : ofName name = .root ↔ name = [] := by
  unfold ofName
  split_ifs <;> simp_all

theorem ofName_injective : Function.Injective ofName := by
  intro name other h
  unfold ofName at h
  split_ifs at h <;> simp_all

theorem name?_ofName (name : List Char) : (ofName name).name? =
    if isIdle name || name == ['.', '.'] then none else some name := by
  unfold ofName isIdle
  split_ifs <;> simp_all [name?]

end Component

theorem names_of_chars_eq_nil (h : p.chars = []) : p.names = [[]] := by
  rw [names, h, List.splitOn_nil]

theorem exists_names_eq_cons (p : Path) : ∃ first rest, p.names = first :: rest :=
  List.exists_cons_of_ne_nil p.names_ne_nil

theorem components_of_chars_eq_nil (h : p.chars = []) : p.components = [] := if_pos h

theorem components_of_names (h : p.names = first :: rest) (hne : p.chars ≠ []) :
    p.components = .ofName first :: (rest.filter fun name => !isIdle name).map .ofName := by
  rw [components, if_neg hne, h]
  rfl

theorem components_eq_trail (p : Path) : p.components =
    (if p.isAbsolute then [.root] else []) ++ p.trail.map .ofName := by
  cases hchars : p.chars with
  | nil =>
    simp [components_of_chars_eq_nil hchars, isAbsolute, hchars, trail,
      names_of_chars_eq_nil hchars]
  | cons c cs =>
    have hne : p.chars ≠ [] := by simp [hchars]
    have hnames := List.splitOn_cons_eq_if_modifyHead (a := '/') c cs
    rw [← hchars] at hnames
    change p.names = _ at hnames
    by_cases hc : c = '/'
    · subst hc
      rw [if_pos (beq_self_eq_true _)] at hnames
      simp [components_of_names hnames hne, isAbsolute, hchars, trail, hnames, Component.ofName]
    · rw [if_neg (by simpa using hc)] at hnames
      cases hparts : cs.splitOn '/' with
      | nil => exact absurd hparts (List.splitOn_ne_nil _ _)
      | cons part parts =>
        rw [hparts, List.modifyHead_cons] at hnames
        simp [components_of_names hnames hne, isAbsolute, hchars, trail, hnames, hc]

theorem ne_nil_of_mem_trail (h : name ∈ p.trail) : name ≠ [] := by
  rcases List.mem_append.1 h with h | h
  · simpa using (List.mem_filter.1 h).2
  · rintro rfl
    simp [isIdle] at h

/-- Two texts name one path if and only if they take the same steps. -/
theorem same_iff {p q : Path} : p.same q = true ↔ p.components = q.components := by
  have hroot (p : Path) : p.isAbsolute = true ↔ .root ∈ p.components := by
    rw [components_eq_trail, List.mem_append, List.mem_map]
    constructor
    · intro h
      simp [h]
    · rintro (h | ⟨name, hmem, h⟩)
      · by_contra hno
        simp [hno] at h
      · exact absurd (Component.ofName_eq_root_iff.1 h) (ne_nil_of_mem_trail hmem)
  rw [same, Bool.and_eq_true, beq_iff_eq, beq_iff_eq]
  constructor
  · rintro ⟨habsolute, htrail⟩
    rw [components_eq_trail, components_eq_trail, habsolute, htrail]
  · intro h
    have habsolute : p.isAbsolute = q.isAbsolute := by rw [Bool.eq_iff_iff, hroot, hroot, h]
    refine ⟨habsolute, ?_⟩
    rw [components_eq_trail, components_eq_trail, habsolute] at h
    exact List.map_injective_iff.2 Component.ofName_injective (List.append_cancel_left h)

/-! ## The last step -/

theorem dropIdle_concat (names : List (List Char)) (name : List Char) :
    dropIdle (names ++ [name]) = if isIdle name then dropIdle names else names ++ [name] :=
  List.rdropWhile_concat isIdle names name

/-- The idle names at the end are dropped up to the last that is not idle, if there is one. -/
theorem dropIdle_cases (names : List (List Char)) :
    dropIdle names = [] ∧ names.filter (fun name => !isIdle name) = [] ∨
      ∃ init name, dropIdle names = init ++ [name] ∧ isIdle name = false ∧
        names.filter (fun name => !isIdle name) =
          init.filter (fun name => !isIdle name) ++ [name] := by
  induction names using List.reverseRecOn with
  | nil => exact .inl ⟨rfl, rfl⟩
  | append_singleton names name ih =>
    rw [dropIdle_concat, List.filter_append]
    cases hidle : isIdle name with
    | true => simpa [hidle] using ih
    | false => exact .inr ⟨names, name, by simp, hidle, by simp [hidle]⟩

theorem filter_dropIdle (names : List (List Char)) :
    (dropIdle names).filter (fun name => !isIdle name) =
      names.filter (fun name => !isIdle name) := by
  rcases dropIdle_cases names with ⟨hdrop, hnone⟩ | ⟨init, name, hdrop, hname, hfilter⟩
  · rw [hdrop, hnone, List.filter_nil]
  · rw [hdrop, hfilter, List.filter_append]
    simp [hname]

theorem dropIdle_subset (names : List (List Char)) : dropIdle names ⊆ names :=
  (List.rdropWhile_prefix isIdle names).subset

/-- The name of the file is what the last step names. -/
theorem fileName?_eq_components (p : Path) :
    p.fileName? = p.components.getLast?.bind Component.name? := by
  by_cases hempty : p.chars = []
  · simp [components_of_chars_eq_nil hempty, fileName?, split, names_of_chars_eq_nil hempty,
      dropIdle, isIdle]
  · obtain ⟨first, rest, hnames⟩ := p.exists_names_eq_cons
    rw [components_of_names hnames hempty, fileName?, split, hnames]
    rcases dropIdle_cases rest with ⟨hdrop, hnone⟩ | ⟨init, name, hdrop, hname, hfilter⟩
    · simp [hdrop, hnone, Component.name?_ofName]
    · simp [hdrop, hfilter, hname, List.getLast?_cons, Component.name?_ofName]

theorem components_ofNames (h : ∀ name ∈ first :: rest, '/' ∉ name) :
    (ofNames (first :: rest)).components =
      .ofName first :: (rest.filter fun name => !isIdle name).map .ofName := by
  unfold ofNames
  split
  · rename_i hroot
    cases hroot
    decide
  · rename_i hroot
    have hnames : (⟨String.ofList (['/'].intercalate (first :: rest))⟩ : Path).names =
        first :: rest := by
      rw [names, chars, String.toList_ofList]
      exact List.splitOn_intercalate '/' h (List.cons_ne_nil _ _)
    refine components_of_names hnames ?_
    intro hnil
    rw [names, hnil, List.splitOn_nil] at hnames
    exact hroot hnames.symm

/-- The parent of a path takes its steps but the last. -/
theorem components_parent (p : Path) : p.parent.components = p.components.dropLast := by
  by_cases hempty : p.chars = []
  · rw [components_of_chars_eq_nil hempty, parent, split, names_of_chars_eq_nil hempty]
    rfl
  · obtain ⟨first, rest, hnames⟩ := p.exists_names_eq_cons
    rcases dropIdle_cases rest with ⟨hdrop, hnone⟩ | ⟨init, name, hdrop, -, hfilter⟩
    · have hparent : p.parent = ⟨""⟩ := by
        rw [parent, split, hnames, List.tail_cons, hdrop]
      rw [hparent, components_of_names hnames hempty, hnone]
      rfl
    · have hparent : p.parent = ofNames (first :: dropIdle init) := by
        have hlast : (init ++ [name]).dropLast = init := List.dropLast_concat
        rw [parent, split, hnames, List.tail_cons, hdrop]
        split
        · rename_i hsplit
          simp at hsplit
        · rename_i hsplit
          cases hsplit
          rw [hlast, List.headD_cons]
      have hslash : ∀ part ∈ first :: dropIdle init, '/' ∉ part := by
        have hrest : init ⊆ rest := by
          intro part hpart
          exact dropIdle_subset rest (hdrop ▸ List.mem_append_left _ hpart)
        intro part hpart
        refine slash_not_mem_of_mem_names (p := p) ?_
        rw [hnames]
        exact List.cons_subset_cons first (List.Subset.trans (dropIdle_subset init) hrest) hpart
      rw [hparent, components_ofNames hslash, filter_dropIdle, components_of_names hnames hempty,
        hfilter, List.map_append, ← List.cons_append]
      exact List.dropLast_concat.symm

/-- A path leads to a file of some name if its last step names that. -/
theorem isFileIn_iff {dir : List Component} :
    p.IsFileIn dir name ↔ p.components = dir ++ [.named name] := by
  constructor
  · exact IsFileIn.components_eq
  · intro h
    refine ⟨h, ?_, ?_⟩
    · rw [components_parent, h, List.dropLast_concat]
    · rw [fileName?_eq_components, h, List.getLast?_concat]
      rfl

theorem isFileIn_of_fileName? (h : p.fileName? = some name) :
    p.IsFileIn p.parent.components name := by
  rw [fileName?_eq_components, Option.bind_eq_some_iff] at h
  obtain ⟨last, hlast, hname⟩ := h
  obtain ⟨dir, hdir⟩ := List.getLast?_eq_some_iff.1 hlast
  cases last with
  | named other =>
    cases hname
    rw [isFileIn_iff, components_parent, hdir, List.dropLast_concat]
  | root | here | up => cases hname

/-- A path that has no file name takes no step, stays where it is, or ends at the root or with a
step up. -/
theorem ends_of_fileName?_eq_none (h : p.fileName? = none) :
    p.text = "" ∨ p.components = [.here] ∨ p.components = [.root] ∨
      ∃ dir, p.components = dir ++ [.up] := by
  by_cases hempty : p.chars = []
  · exact .inl (String.toList_eq_nil_iff.1 hempty)
  right
  obtain ⟨first, rest, hnames⟩ := p.exists_names_eq_cons
  have hcomponents := components_of_names hnames hempty
  rw [fileName?_eq_components, hcomponents] at h
  rw [hcomponents]
  rcases dropIdle_cases rest with ⟨-, hnone⟩ | ⟨init, name, -, hname, hfilter⟩
  · rw [hnone] at h ⊢
    cases hfirst : Component.ofName first with
    | root => exact .inr (.inl rfl)
    | here => exact .inl rfl
    | up => exact .inr (.inr ⟨[], rfl⟩)
    | named name => simp [hfirst, Component.name?] at h
  · have hlast : name = ['.', '.'] := by
      simpa [hfilter, hname, List.getLast?_cons, Component.name?_ofName] using h
    rw [hfilter, hlast, List.map_append, ← List.cons_append]
    exact .inr (.inr ⟨_, rfl⟩)

/-! ## One step more -/

/-- The steps of a path that is given a name are its own and the one to that name. -/
theorem components_join {dir : Path} (hne : name ≠ []) (hdot : name ≠ ['.'])
    (hslash : '/' ∉ name) :
    (dir.join ⟨String.ofList name⟩).components = dir.components ++ [.ofName name] := by
  have hname : isIdle name = false := by simp [isIdle, hne, hdot]
  obtain ⟨front, hnames, hfront⟩ := names_join dir hne hslash
  have hsome : (dir.join ⟨String.ofList name⟩).chars ≠ [] := by
    intro hnil
    have hmem : name ∈ (dir.join ⟨String.ofList name⟩).names := by simp [hnames]
    rw [names_of_chars_eq_nil hnil] at hmem
    exact hne (List.mem_singleton.1 hmem)
  rcases hfront with ⟨hempty, rfl⟩ | ⟨hchars, hfront, empty, hdir, hnil⟩
  · rw [components_of_names hnames hsome, components_of_chars_eq_nil hempty]
    rfl
  · obtain ⟨first, rest, rfl⟩ := List.exists_cons_of_ne_nil hfront
    have hidle : empty.filter (fun name => !isIdle name) = [] := by
      rw [List.filter_eq_nil_iff]
      intro part hpart
      simp [isIdle, hnil part hpart]
    rw [components_of_names hnames hsome, components_of_names hdir hchars]
    simp [List.filter_append, hidle, hname]

theorem isFileIn_join {dir : Path} (hne : name ≠ []) (hdot : name ≠ ['.'])
    (hdots : name ≠ ['.', '.']) (hslash : '/' ∉ name) :
    (dir.join ⟨String.ofList name⟩).IsFileIn dir.components name := by
  rw [isFileIn_iff, components_join hne hdot hslash, Component.ofName, if_neg hne, if_neg hdot,
    if_neg hdots]

end ColumnSieve.Path
