import ColumnSieve.Path
import ColumnSieve.Proofs.Text.Parts
import Mathlib.Data.List.TakeWhile

/-!
# The names of a path

Behind the last name of a path that is not empty only slashes stand.  That name decides where
the path leads, so paths are looked at by it.

* `IsName`                      — a name that a file may have;
* `Path.EndsIn`                 — the names of a path up to the last that is not empty;
* `Path.EndsIn.fileName?_eq`    — the name of its file;
* `Path.names_join`              — the names of a path taken from a directory;
* `Path.endsIn_withFileName`    — a path with another file name ends in that name.
-/

namespace ColumnSieve

/-- A name that a file or directory may have. -/
structure IsName (name : String) : Prop where
  ne_empty : name ≠ ""
  ne_dot : name ≠ "."
  ne_dots : name ≠ ".."
  no_slash : '/' ∉ name.toList
  no_nul : '\x00' ∉ name.toList

theorem IsName.toList_ne_dot {name : String} (h : IsName name) : name.toList ≠ ['.'] :=
  fun he => h.ne_dot (String.toList_inj.1 he)

theorem IsName.toList_ne_dots {name : String} (h : IsName name) : name.toList ≠ ['.', '.'] :=
  fun he => h.ne_dots (String.toList_inj.1 he)

instance (name : String) : Decidable (IsName name) :=
  decidable_of_iff (name ≠ "" ∧ name ≠ "." ∧ name ≠ ".." ∧ '/' ∉ name.toList ∧
      '\x00' ∉ name.toList)
    ⟨fun ⟨h₁, h₂, h₃, h₄, h₅⟩ => ⟨h₁, h₂, h₃, h₄, h₅⟩,
      fun ⟨h₁, h₂, h₃, h₄, h₅⟩ => ⟨h₁, h₂, h₃, h₄, h₅⟩⟩

namespace Path

/-- The names of a path are those of `init`, then `name`, and then only empty ones; they are
none if `slash` does not hold. -/
structure EndsIn (p : Path) (init : List (List Char)) (name : List Char) (slash : Bool) :
    Prop where
  name_ne_nil : name ≠ []
  names_eq : ∃ empty, p.names = init ++ name :: empty ∧ (∀ n ∈ empty, n = []) ∧
    slash = !empty.isEmpty

variable {p : Path} {init : List (List Char)} {name : List Char} {slash : Bool}

theorem names_ne_nil (p : Path) : p.names ≠ [] := List.splitOn_ne_nil _ _

theorem slash_not_mem_of_mem_names (h : name ∈ p.names) : '/' ∉ name :=
  Text.not_mem_of_mem_splitOn h

theorem mem_chars_of_mem_names (h : name ∈ p.names) {c : Char} (hc : c ∈ name) : c ∈ p.chars :=
  (Text.infix_of_mem_splitOn h).subset hc

namespace EndsIn

theorem name_mem (h : p.EndsIn init name slash) : name ∈ p.names := by
  obtain ⟨empty, hnames, -⟩ := h.names_eq
  simp [hnames]

theorem names_eq_of_no_slash (h : p.EndsIn init name false) : p.names = init ++ [name] := by
  obtain ⟨empty, hnames, -, hslash⟩ := h.names_eq
  simp_all

/-- Empty names behind the last name come from a slash at the end. -/
theorem getLast?_eq_slash (h : p.EndsIn init name slash) :
    (p.chars.getLast? == some '/') = slash := by
  obtain ⟨empty, hnames, hempty, rfl⟩ := h.names_eq
  cases hlast : empty.getLast? with
  | none =>
    rw [List.getLast?_eq_none_iff.1 hlast] at hnames
    have hno : '/' ∉ name := slash_not_mem_of_mem_names h.name_mem
    have hne : name.getLast? ≠ some '/' := by
      intro he
      exact hno (List.mem_of_getLast? he)
    rw [Text.getLast?_of_splitOn hnames, if_pos h.name_ne_nil, List.getLast?_eq_none_iff.1 hlast]
    simpa using hne
  | some last =>
    obtain ⟨front, rfl⟩ := List.getLast?_eq_some_iff.1 hlast
    have hnil : last = [] := hempty last (by simp)
    have hsplit : p.chars.splitOn '/' = (init ++ name :: front) ++ [last] := by
      simpa [names] using hnames
    rw [Text.getLast?_of_splitOn hsplit, hnil]
    simp

/-- The name of the file that a path leads to is its last, unless that is a dot or two. -/
theorem fileName?_eq (h : p.EndsIn init name slash) (hdot : name ≠ ['.'])
    (hdots : name ≠ ['.', '.']) : p.fileName? = some name := by
  obtain ⟨empty, hnames, hempty, -⟩ := h.names_eq
  have hname : isIdle name = false := by simp [isIdle, h.name_ne_nil, hdot]
  have hidle : ∀ n ∈ empty.reverse, isIdle n = true := by
    intro n hn
    simp [isIdle, hempty n (List.mem_reverse.1 hn)]
  cases init with
  | nil =>
    have htail : dropIdle empty = [] := by
      simpa [dropIdle] using List.dropWhile_eq_nil_iff.2 hidle
    simp [fileName?, split, hnames, htail, hname, hdots]
  | cons first init =>
    have htail : dropIdle (init ++ name :: empty) = init ++ [name] := by
      simp [dropIdle, List.dropWhile_append_of_pos hidle, hname]
    simp [fileName?, split, hnames, htail, hdots]

end EndsIn

theorem mem_names_of_fileName? (h : p.fileName? = some name) : name ∈ p.names := by
  have hsub : dropIdle p.names.tail ⊆ p.names := by
    intro n hn
    have hdrop := List.mem_reverse.1 hn
    exact List.mem_of_mem_tail (List.mem_reverse.1 (List.dropWhile_subset _ hdrop))
  have hhead : p.names.headD [] ∈ p.names := by
    cases hnames : p.names with
    | nil => exact absurd hnames p.names_ne_nil
    | cons first rest => simp
  unfold fileName? split at h
  split at h
  · rename_i last hlast
    split at h
    · cases h
    · cases h
      exact hsub (List.mem_of_getLast? hlast)
  · split at h
    · cases h
    · cases h
      exact hhead

/-- A path ends in a name unless there is none between its slashes. -/
theorem endsIn_or_empty (p : Path) :
    (∀ n ∈ p.names, n = []) ∨ ∃ init name slash, p.EndsIn init name slash := by
  have hsplit : ∀ names : List (List Char), (∀ n ∈ names, n = []) ∨
      ∃ init name empty, names = init ++ name :: empty ∧ name ≠ [] ∧ ∀ n ∈ empty, n = [] := by
    intro names
    induction names with
    | nil => simp
    | cons first names ih =>
      rcases ih with hall | ⟨init, name, empty, rfl, hne, hempty⟩
      · by_cases hfirst : first = []
        · exact .inl (List.forall_mem_cons.2 ⟨hfirst, hall⟩)
        · exact .inr ⟨[], first, names, rfl, hfirst, hall⟩
      · exact .inr ⟨first :: init, name, empty, rfl, hne, hempty⟩
  rcases hsplit p.names with hall | ⟨init, name, empty, hnames, hne, hempty⟩
  · exact .inl hall
  · exact .inr ⟨init, name, _, hne, empty, hnames, hempty, rfl⟩

/-! ## Paths with a name added or replaced -/

/-- A name that a path is given comes behind its names, in the place of an empty one at the end. -/
theorem names_join (dir : Path) (hne : name ≠ []) (hslash : '/' ∉ name) :
    ∃ front, (dir.join ⟨String.ofList name⟩).names = front ++ [name] ∧
      (dir.chars = [] ∧ front = [] ∨ dir.chars ≠ [] ∧ front ≠ [] ∧
        ∃ empty, dir.names = front ++ empty ∧ ∀ n ∈ empty, n = []) := by
  have hrel : (⟨String.ofList name⟩ : Path).isAbsolute = false := by
    cases name with
    | nil => exact absurd rfl hne
    | cons c name =>
      have hc : c ≠ '/' := by
        rintro rfl
        exact hslash List.mem_cons_self
      simp [isAbsolute, chars, hc]
  have hnames {p : Path} (front : List Char) (hp : p.chars = front ++ '/' :: name) :
      p.names = front.splitOn '/' ++ [name] := by
    rw [names, hp, List.splitOn_append_cons_self, List.splitOn_eq_singleton hslash]
  unfold join
  rw [if_neg (by simp [hrel])]
  split
  · rename_i hopen
    rcases Bool.or_eq_true _ _ ▸ hopen with hempty | hlast
    · have htext : dir.text = "" := by simpa using hempty
      refine ⟨[], ?_, .inl ⟨by simp [chars, htext], rfl⟩⟩
      simp [names, chars, htext, List.splitOn_eq_singleton hslash]
    · rw [beq_iff_eq, List.getLast?_eq_some_iff] at hlast
      obtain ⟨front, hfront⟩ := hlast
      refine ⟨front.splitOn '/', hnames front ?_, .inr ⟨by simp [hfront], List.splitOn_ne_nil _ _,
        [[]], ?_, by simp⟩⟩
      · change dir.text.toList = _ at hfront
        simp [chars, hfront]
      · rw [names, hfront, List.splitOn_append_cons_self, List.splitOn_nil]
  · rename_i hopen
    refine ⟨dir.names, hnames dir.chars (by simp [chars]), .inr ⟨?_, dir.names_ne_nil, [],
      (List.append_nil _).symm, by simp⟩⟩
    intro hnil
    have htext : dir.text = "" := String.toList_eq_nil_iff.1 hnil
    exact hopen (by simp [htext])

theorem endsIn_join {dir : Path} (hne : name ≠ []) (hslash : '/' ∉ name) :
    ∃ init, (dir.join ⟨String.ofList name⟩).EndsIn init name false := by
  obtain ⟨front, hnames, -⟩ := names_join dir hne hslash
  exact ⟨front, hne, [], hnames, by simp, rfl⟩

/-- No character but a slash comes to stand at the end when a path is taken from a directory. -/
theorem getLast?_join {dir p : Path} {c : Char} (hslash : c ≠ '/')
    (hlast : p.chars.getLast? ≠ some c) : (dir.join p).chars.getLast? ≠ some c := by
  unfold join
  split
  · exact hlast
  · have hjoin (front : String) (hfront : front.toList.getLast? ≠ some c) :
        (⟨front ++ p.text⟩ : Path).chars.getLast? ≠ some c := by
      rw [chars, String.toList_append, List.getLast?_append]
      cases hp : p.text.toList.getLast? with
      | none => exact hfront
      | some d =>
        rw [chars, hp] at hlast
        exact hlast
    split
    · rename_i hopen
      apply hjoin
      rcases Bool.or_eq_true _ _ ▸ hopen with hempty | hdir
      · have htext : dir.text = "" := by simpa using hempty
        simp [htext]
      · rw [beq_iff_eq, chars] at hdir
        rw [hdir]
        intro h
        exact hslash (Option.some.inj h).symm
    · apply hjoin
      simpa using hslash.symm

/-- A path that is given another file name ends in that name. -/
theorem endsIn_withFileName (p : Path) (hne : name ≠ []) (hslash : '/' ∉ name) :
    ∃ init, (p.withFileName name).EndsIn init name false := by
  unfold withFileName
  split
  · exact endsIn_join hne hslash
  · exact endsIn_join hne hslash

end Path

end ColumnSieve
