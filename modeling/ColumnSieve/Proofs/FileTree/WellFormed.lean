import ColumnSieve.Proofs.FileTree.Walk
import Mathlib.Data.List.Induction

/-!
# Trees of files that are trees

* `FileTree.WellFormed` — every file and directory has a name and stands in a directory;
* `FileTree.Same`       — two trees that hold the same files and directories;
* `FileTree.SameBut`    — two trees that do so but for one location;
* `WellFormed.sameBut`  — a tree stays well-formed if a file comes, changes or goes.
-/

namespace ColumnSieve.FileTree

variable {t t' t'' : FileTree} {loc : Location} {place : Place} {node : Node}

/-! ## Well-formed trees -/

theorem node?_eq_lookup (h : loc ≠ []) : t.node? loc = t.nodes.lookup loc := by
  cases loc with
  | nil => exact absurd rfl h
  | cons _ _ => rfl

theorem exists_mem_of_node? (hloc : loc ≠ []) (h : t.node? loc ≠ none) :
    ∃ node, (loc, node) ∈ t.nodes := by
  rw [node?_eq_lookup hloc, ← Option.isSome_iff_ne_none, List.lookup_isSome_iff] at h
  obtain ⟨⟨key, node⟩, hmem, hkey⟩ := h
  exact ⟨node, eq_of_beq hkey ▸ hmem⟩

theorem node?_ne_none_of_mem (h : (loc, node) ∈ t.nodes) : t.node? loc ≠ none := by
  by_cases hloc : loc = []
  · simp [hloc, node?]
  · rw [node?_eq_lookup hloc, ← Option.isSome_iff_ne_none, List.lookup_isSome_iff]
    exact ⟨_, h, by simp⟩

/-- What stands in the tree has a name and stands in a directory. -/
structure WellFormed (t : FileTree) : Prop where
  isDir_parent : ∀ {loc : Location} {name : String},
    t.node? (loc ++ [name]) ≠ none → t.node? loc = some .dir
  isName : ∀ {loc : Location} {name : String}, t.node? (loc ++ [name]) ≠ none → IsName name
  name_short : ∀ {loc : Location} {name : String},
    t.node? (loc ++ [name]) ≠ none → name.utf8ByteSize ≤ maxName

/-- It is enough to look at the nodes that a tree is given by. -/
theorem wellFormed_iff : t.WellFormed ↔ ∀ n ∈ t.nodes, n.1 ≠ [] →
    t.node? n.1.dropLast = some .dir ∧ IsName (n.1.getLastD "") ∧
      (n.1.getLastD "").utf8ByteSize ≤ maxName := by
  constructor
  · rintro h ⟨loc, node⟩ hmem hne
    have hnode := node?_ne_none_of_mem hmem
    obtain ⟨dir, name, rfl⟩ := (List.eq_nil_or_concat' loc).resolve_left hne
    simpa using ⟨h.isDir_parent hnode, h.isName hnode, h.name_short hnode⟩
  · intro h
    have hall {loc : Location} {name : String} (hnode : t.node? (loc ++ [name]) ≠ none) :
        t.node? loc = some .dir ∧ IsName name ∧ name.utf8ByteSize ≤ maxName := by
      obtain ⟨node, hmem⟩ := exists_mem_of_node? (by simp) hnode
      simpa using h _ hmem (by simp)
    constructor
    · intro loc name hn
      exact (hall hn).1
    · intro loc name hn
      exact (hall hn).2.1
    · intro loc name hn
      exact (hall hn).2.2

instance (t : FileTree) : Decidable t.WellFormed := decidable_of_iff _ wellFormed_iff.symm

/-- Below anything but a directory nothing stands. -/
theorem WellFormed.node?_eq_none_of_prefix (h : t.WellFormed) (hloc : t.node? loc ≠ some .dir)
    {below : Location} (hpre : loc <+: below) (hne : loc ≠ below) : t.node? below = none := by
  obtain ⟨rest, rfl⟩ := hpre
  induction rest using List.reverseRecOn with
  | nil => simp at hne
  | append_singleton front name ih =>
    by_contra hnode
    have hdir := h.isDir_parent (List.append_assoc _ _ _ ▸ hnode)
    by_cases hfront : front = []
    · rw [hfront, List.append_nil] at hdir
      exact hloc hdir
    · rw [ih (by simpa using hfront)] at hdir
      cases hdir

/-! ## Trees that hold the same -/

structure Same (t t' : FileTree) : Prop where
  workDir_eq : t'.workDir = t.workDir
  node?_eq : ∀ loc, t'.node? loc = t.node? loc

/-- Whatever stands at `loc` in either tree, all else is the same. -/
structure SameBut (loc : Location) (t t' : FileTree) : Prop where
  workDir_eq : t'.workDir = t.workDir
  node?_eq : ∀ other, other ≠ loc → t'.node? other = t.node? other

namespace Same

theorem refl (t : FileTree) : t.Same t := ⟨rfl, fun _ => rfl⟩

theorem symm (h : t.Same t') : t'.Same t := ⟨h.workDir_eq.symm, fun loc => (h.node?_eq loc).symm⟩

theorem trans (h : t.Same t') (h' : t'.Same t'') : t.Same t'' :=
  ⟨h'.workDir_eq.trans h.workDir_eq, fun loc => (h'.node?_eq loc).trans (h.node?_eq loc)⟩

theorem walk_eq (h : t.Same t') : t'.walk = t.walk := by
  have hstep : t'.step = t.step := by
    funext here name
    simp only [step, h.node?_eq]
  funext here names
  rw [walk, walk, hstep]

theorem locate_eq (h : t.Same t') (p : Path) : t'.locate p = t.locate p := by
  rw [locate, locate, h.walk_eq, start_congr h.workDir_eq]

theorem exists?_eq (h : t.Same t') (p : Path) : t'.exists? p = t.exists? p := by
  simp only [exists?, look, h.locate_eq, h.node?_eq]

end Same

namespace SameBut

theorem of_same (h : t.Same t') (h' : SameBut loc t' t'') : SameBut loc t t'' :=
  ⟨h'.workDir_eq.trans h.workDir_eq,
    fun other hne => (h'.node?_eq other hne).trans (h.node?_eq other)⟩

theorem symm (h : SameBut loc t t') : SameBut loc t' t :=
  ⟨h.workDir_eq.symm, fun other hne => (h.node?_eq other hne).symm⟩

theorem trans (h : SameBut loc t t') (h' : SameBut loc t' t'') : SameBut loc t t'' :=
  ⟨h'.workDir_eq.trans h.workDir_eq,
    fun other hne => (h'.node?_eq other hne).trans (h.node?_eq other hne)⟩

theorem same (h : SameBut loc t t') (hloc : t'.node? loc = t.node? loc) : t.Same t' := by
  refine ⟨h.workDir_eq, ?_⟩
  intro other
  by_cases hne : other = loc
  · rw [hne, hloc]
  · exact h.node?_eq other hne

/-- Directories stay where the tree changes only at a file. -/
theorem isDir (h : SameBut loc t t') (hloc : t.node? loc ≠ some .dir) (other : Location)
    (hdir : t.node? other = some .dir) : t'.node? other = some .dir := by
  rw [h.node?_eq other fun he => hloc (he ▸ hdir), hdir]

end SameBut

/-- A tree stays well-formed if a file comes to, changes at or goes from a place for one. -/
theorem WellFormed.sameBut (h : t.WellFormed) (hsame : SameBut place.location t t')
    (hdir : t.node? place.dir = some .dir) (hname : IsName place.name)
    (hshort : place.name.utf8ByteSize ≤ maxName) (hold : t.node? place.location ≠ some .dir) :
    t'.WellFormed := by
  have hpart {loc : Location} {other : String} (hnode : t'.node? (loc ++ [other]) ≠ none) :
      t.node? loc = some .dir ∧ IsName other ∧ other.utf8ByteSize ≤ maxName := by
    by_cases hloc : loc ++ [other] = place.location
    · obtain ⟨rfl, hother⟩ := List.append_inj' hloc rfl
      cases hother
      exact ⟨hdir, hname, hshort⟩
    · rw [hsame.node?_eq _ hloc] at hnode
      exact ⟨h.isDir_parent hnode, h.isName hnode, h.name_short hnode⟩
  constructor
  · intro loc other hn
    exact hsame.isDir hold _ (hpart hn).1
  · intro loc other hn
    exact (hpart hn).2.1
  · intro loc other hn
    exact (hpart hn).2.2

theorem WellFormed.same (h : t.WellFormed) (hsame : t.Same t') : t'.WellFormed := by
  constructor
  · intro loc name hn
    rw [hsame.node?_eq] at hn ⊢
    exact h.isDir_parent hn
  · intro loc name hn
    exact h.isName (hsame.node?_eq _ ▸ hn)
  · intro loc name hn
    exact h.name_short (hsame.node?_eq _ ▸ hn)

end ColumnSieve.FileTree
