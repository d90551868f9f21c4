import ColumnSieve.FileTree.Change
import ColumnSieve.Proofs.Outcome
import ColumnSieve.Proofs.Path

/-!
# Where paths lead

* `step_eq_ok_iff`, `walk_concat_eq_ok_iff` — one name and several names along a path;
* `locate_eq_ok_iff`, `place_eq_ok_iff`     — what a path leads to, and the place that it names;
* `locate_eq_ok_iff_place`                  — the place of something that is there;
* `walk_mono`, `place_mono`                 — only directories count on the way.
-/

namespace ColumnSieve

/-- A path that is looked up at all. -/
structure Path.Passable (p : Path) : Prop where
  no_nul : '\x00' ∉ p.chars
  ne_empty : p.text ≠ ""
  short : p.text.utf8ByteSize < FileTree.maxPath

namespace FileTree

variable {t t' : FileTree} {here loc : Location} {name : String} {names : List String}

/-! ## Names along a path -/

theorem step_eq_ok_iff : t.step here name = .ok loc ↔
    t.node? here = some .dir ∧
      ((name = "" ∨ name = ".") ∧ loc = here ∨
        name = ".." ∧ loc = here.dropLast ∨
        (name ≠ "" ∧ name ≠ "." ∧ name ≠ "..") ∧ name.utf8ByteSize ≤ maxName ∧
          t.node? (here ++ [name]) ≠ none ∧ loc = here ++ [name]) := by
  unfold step
  split
  · simp_all
  · simp_all
  · rename_i hdir
    by_cases hidle : name = "" ∨ name = "."
    · rw [if_pos hidle]
      have hdots : name ≠ ".." := by rintro rfl; simp at hidle
      grind
    · rw [if_neg hidle]
      rw [not_or] at hidle
      by_cases hdots : name = ".."
      · rw [if_pos hdots, Except.ok.injEq, eq_comm]
        simp [hdots, hdir]
      · rw [if_neg hdots]
        by_cases hlong : maxName < name.utf8ByteSize
        · simp [hlong, hidle, hdots, Nat.not_le.2 hlong]
        · rw [if_neg hlong]
          cases t.node? (here ++ [name]) with
          | none => simp [hidle, hdots]
          | some node => simp [hidle, hdots, hdir, Nat.not_lt.1 hlong, eq_comm]

theorem step_empty_eq_ok_iff :
    t.step here "" = .ok loc ↔ t.node? here = some .dir ∧ loc = here := by
  simp [step_eq_ok_iff]

theorem step_name_eq_ok_iff (hne : name ≠ "") (hdot : name ≠ ".") (hdots : name ≠ "..") :
    t.step here name = .ok loc ↔
      t.node? here = some .dir ∧ name.utf8ByteSize ≤ maxName ∧
        t.node? (here ++ [name]) ≠ none ∧ loc = here ++ [name] := by
  simp [step_eq_ok_iff, hne, hdot, hdots]

theorem walk_cons_eq_ok_iff : t.walk here (name :: names) = .ok loc ↔
    ∃ next, t.step here name = .ok next ∧ t.walk next names = .ok loc := by
  rw [walk, List.foldlM_cons, Outcome.bind_eq_ok_iff]
  rfl

theorem walk_concat_eq_ok_iff : t.walk here (names ++ [name]) = .ok loc ↔
    ∃ last, t.walk here names = .ok last ∧ t.step last name = .ok loc := by
  rw [walk, List.foldlM_append, Outcome.bind_eq_ok_iff]
  simp [walk]

/-- Only a directory leads to a directory. -/
theorem isDir_of_walk (h : t.walk here names = .ok loc) (hloc : t.node? loc = some .dir) :
    t.node? here = some .dir := by
  cases names with
  | nil =>
    cases h
    exact hloc
  | cons name names =>
    obtain ⟨next, hstep, -⟩ := walk_cons_eq_ok_iff.1 h
    exact (step_eq_ok_iff.1 hstep).1

/-- The way to a directory stays if all directories stay. -/
theorem walk_mono (hdirs : ∀ loc, t.node? loc = some .dir → t'.node? loc = some .dir)
    (h : t.walk here names = .ok loc) (hloc : t.node? loc = some .dir) :
    t'.walk here names = .ok loc := by
  induction names generalizing here with
  | nil => exact h
  | cons name names ih =>
    obtain ⟨next, hstep, hrest⟩ := walk_cons_eq_ok_iff.1 h
    refine walk_cons_eq_ok_iff.2 ⟨next, ?_, ih hrest⟩
    have hnext := hdirs next (isDir_of_walk hrest hloc)
    rw [step_eq_ok_iff] at hstep ⊢
    obtain ⟨hdir, hidle | hdots | ⟨hname, hshort, -, rfl⟩⟩ := hstep
    · exact ⟨hdirs _ hdir, .inl hidle⟩
    · exact ⟨hdirs _ hdir, .inr (.inl hdots)⟩
    · exact ⟨hdirs _ hdir, .inr (.inr ⟨hname, hshort, by simp [hnext], rfl⟩)⟩

/-! ## Paths -/

variable {p : Path} {place : Place}

/-- Whatever is done with a path, some paths are refused first. -/
theorem guarded_eq_ok_iff {α : Type} {result : Except FileError α} {a : α} :
    (if p.chars.contains '\x00' then .error .nulInName
      else if p.text = "" then .error (.os .noEntry)
      else if maxPath ≤ p.text.utf8ByteSize then .error (.os .nameTooLong)
      else result) = .ok a ↔ p.Passable ∧ result = .ok a := by
  split
  · rename_i hnul
    exact iff_of_false (by simp) fun h => h.1.no_nul (by simpa using hnul)
  · rename_i hnul
    split
    · rename_i hempty
      exact iff_of_false (by simp) fun h => h.1.ne_empty hempty
    · rename_i hempty
      split
      · rename_i hlong
        exact iff_of_false (by simp) fun h => Nat.not_le.2 h.1.short hlong
      · rename_i hlong
        have hpass : p.Passable := ⟨by simpa using hnul, hempty, Nat.not_le.1 hlong⟩
        simp [hpass]

theorem locate_eq_ok_iff : t.locate p = .ok loc ↔
    p.Passable ∧ t.walk (t.start p) (nameTexts p) = .ok loc := by
  rw [locate, guarded_eq_ok_iff]
  cases t.walk (t.start p) (nameTexts p) with
  | error e => simp [Except.mapError]
  | ok found => simp [Except.mapError]

/-- The names of a path without the empty ones at its end. -/
def body (p : Path) : List String := ((nameTexts p).reverse.dropWhile (· == "")).reverse

theorem place_eq_ok_iff : t.place p = .ok place ↔
    p.Passable ∧ t.walk (t.start p) (body p).dropLast = .ok place.dir ∧
      t.node? place.dir = some .dir ∧ place.name = (body p).getLastD "" ∧
      place.slash = (p.chars.getLast? == some '/') := by
  obtain ⟨dir, name, slash⟩ := place
  have hwalk : t.walk (t.start p) ((body p).dropLast ++ [""]) = .ok dir ↔
      t.walk (t.start p) (body p).dropLast = .ok dir ∧ t.node? dir = some .dir := by
    rw [walk_concat_eq_ok_iff]
    constructor
    · rintro ⟨last, hlast, hstep⟩
      obtain ⟨hdir, rfl⟩ := step_empty_eq_ok_iff.1 hstep
      exact ⟨hlast, hdir⟩
    · rintro ⟨hlast, hdir⟩
      exact ⟨dir, hlast, step_empty_eq_ok_iff.2 ⟨hdir, rfl⟩⟩
  rw [FileTree.place, guarded_eq_ok_iff, ← and_assoc (b := _ = some Node.dir), ← hwalk]
  dsimp only
  rw [← body]
  cases t.walk (t.start p) ((body p).dropLast ++ [""]) with
  | error e => simp
  | ok found => simp only [Except.ok.injEq, Place.mk.injEq, @eq_comm _ name, @eq_comm _ slash]

theorem start_congr (h : t'.workDir = t.workDir) (p : Path) : t'.start p = t.start p := by
  unfold start
  rw [h]

/-- A place stays if all directories stay. -/
theorem place_mono (hwork : t'.workDir = t.workDir)
    (hdirs : ∀ loc, t.node? loc = some .dir → t'.node? loc = some .dir)
    (h : t.place p = .ok place) : t'.place p = .ok place := by
  rw [place_eq_ok_iff] at h ⊢
  obtain ⟨hpass, hwalk, hdir, hrest⟩ := h
  rw [start_congr hwork]
  exact ⟨hpass, walk_mono hdirs hwalk hdir, hdirs _ hdir, hrest⟩

/-! ## Paths that end in a name -/

section

variable {init : List (List Char)} {last : List Char} {slash : Bool} {dir : Location}

theorem ofList_ne {text : List Char} {other : String} (h : text ≠ other.toList) :
    String.ofList text ≠ other := by
  rintro rfl
  exact h String.toList_ofList.symm

theorem isName_of_endsIn (h : p.EndsIn init last slash) (hpass : p.Passable) (hdot : last ≠ ['.'])
    (hdots : last ≠ ['.', '.']) : IsName (String.ofList last) := by
  refine ⟨ofList_ne h.name_ne_nil, ofList_ne hdot, ofList_ne hdots, ?_, ?_⟩
  · simpa using Path.slash_not_mem_of_mem_names h.name_mem
  · intro hnul
    rw [String.toList_ofList] at hnul
    exact hpass.no_nul (Path.mem_chars_of_mem_names h.name_mem hnul)

theorem isSpecial_of_endsIn (h : p.EndsIn init last slash) (hdot : last ≠ ['.'])
    (hdots : last ≠ ['.', '.']) : (⟨dir, String.ofList last, slash⟩ : Place).isSpecial = false := by
  have hdot' : String.ofList last ≠ "." := ofList_ne hdot
  have hdots' : String.ofList last ≠ ".." := ofList_ne hdots
  simp [Place.isSpecial, h.name_ne_nil, hdot', hdots']

theorem body_of_endsIn (h : p.EndsIn init last slash) :
    body p = init.map String.ofList ++ [String.ofList last] := by
  obtain ⟨empty, hnames, hempty, -⟩ := h.names_eq
  have hdrop : ∀ name ∈ (empty.map String.ofList).reverse, (name == "") = true := by
    intro name hname
    obtain ⟨n, hn, rfl⟩ := List.mem_map.1 (List.mem_reverse.1 hname)
    simp [hempty n hn]
  have hlast : String.ofList last ≠ "" := by
    rw [ne_eq, String.ofList_eq_empty_iff]
    exact h.name_ne_nil
  rw [body, nameTexts, hnames, List.map_append, List.map_cons, List.append_cons,
    List.reverse_append, List.dropWhile_append_of_pos hdrop]
  simp [hlast]

theorem place_eq_ok_iff_of_endsIn (h : p.EndsIn init last slash) : t.place p = .ok place ↔
    p.Passable ∧ t.walk (t.start p) (init.map String.ofList) = .ok place.dir ∧
      t.node? place.dir = some .dir ∧ place.name = String.ofList last ∧ place.slash = slash := by
  rw [place_eq_ok_iff, body_of_endsIn h, h.getLast?_eq_slash, List.dropLast_concat]
  simp

/-- A place that is neither the root nor a dot has a name, which the path ends in. -/
theorem endsIn_of_place (h : t.place p = .ok place) (hname : place.isSpecial = false) :
    IsName place.name ∧ ∃ init, p.EndsIn init place.name.toList place.slash := by
  rcases p.endsIn_or_empty with hempty | ⟨init, last, slash, hends⟩
  · have hbody : body p = [] := by
      rw [body, List.reverse_eq_nil_iff, List.dropWhile_eq_nil_iff]
      intro name hmem
      obtain ⟨n, hn, rfl⟩ := List.mem_map.1 (List.mem_reverse.1 hmem)
      simp [hempty n hn]
    have hlast := (place_eq_ok_iff.1 h).2.2.2.1
    rw [hbody] at hlast
    simp [Place.isSpecial, hlast] at hname
  · obtain ⟨hpass, -, -, hlast, hslash⟩ := (place_eq_ok_iff_of_endsIn hends).1 h
    simp only [Place.isSpecial, Bool.or_eq_false_iff, beq_eq_false_iff_ne, hlast] at hname
    have hdot : last ≠ ['.'] := by
      rintro rfl
      exact hname.1.2 rfl
    have hdots : last ≠ ['.', '.'] := by
      rintro rfl
      exact hname.2 rfl
    refine ⟨hlast ▸ isName_of_endsIn hends hpass hdot hdots, init, ?_⟩
    rwa [hlast, String.toList_ofList, hslash]

/-- What a path leads to stands at the place that the path names. -/
theorem locate_eq_ok_iff_place (h : p.EndsIn init last false) (hdot : last ≠ ['.'])
    (hdots : last ≠ ['.', '.']) : t.locate p = .ok loc ↔
      ∃ dir, t.place p = .ok ⟨dir, String.ofList last, false⟩ ∧ loc = dir ++ [String.ofList last] ∧
        (String.ofList last).utf8ByteSize ≤ maxName ∧ t.node? loc ≠ none := by
  have hnames : nameTexts p = init.map String.ofList ++ [String.ofList last] := by
    simp [nameTexts, h.names_eq_of_no_slash]
  have hstep (here : Location) : t.step here (String.ofList last) = .ok loc ↔ _ :=
    step_name_eq_ok_iff (ofList_ne h.name_ne_nil) (ofList_ne hdot) (ofList_ne hdots)
  simp only [locate_eq_ok_iff, hnames, walk_concat_eq_ok_iff, hstep, place_eq_ok_iff_of_endsIn h]
  constructor
  · rintro ⟨hpass, dir, hwalk, hdir, hshort, hnode, rfl⟩
    exact ⟨dir, ⟨hpass, hwalk, hdir, trivial, trivial⟩, rfl, hshort, hnode⟩
  · rintro ⟨dir, ⟨hpass, hwalk, hdir, -⟩, rfl, hshort, hnode⟩
    exact ⟨hpass, dir, hwalk, hdir, hshort, hnode, rfl⟩

/-- With a slash at its end a path leads to nothing but a directory. -/
theorem isDir_of_slash (h : p.EndsIn init last true) (hloc : t.locate p = .ok loc) :
    t.node? loc = some .dir := by
  obtain ⟨empty, hnames, hempty, hslash⟩ := h.names_eq
  have hne : empty ≠ [] := by
    rintro rfl
    cases hslash
  obtain ⟨front, name, rfl⟩ := (List.eq_nil_or_concat' empty).resolve_left hne
  obtain rfl : name = [] := hempty name (by simp)
  have htexts : nameTexts p = (init ++ last :: front).map String.ofList ++ [""] := by
    simp [nameTexts, hnames]
  obtain ⟨-, hwalk⟩ := locate_eq_ok_iff.1 hloc
  rw [htexts, walk_concat_eq_ok_iff] at hwalk
  obtain ⟨here, -, hstep⟩ := hwalk
  obtain ⟨hdir, rfl⟩ := step_empty_eq_ok_iff.1 hstep
  exact hdir

end

/-- A place with a name in it is what the path leads to if anything stands there. -/
theorem locate_of_place (h : t.place p = .ok place) (hname : place.isSpecial = false)
    (hslash : place.slash = false) (hshort : place.name.utf8ByteSize ≤ maxName)
    (hnode : t.node? place.location ≠ none) : t.locate p = .ok place.location := by
  obtain ⟨hisName, init, hends⟩ := endsIn_of_place h hname
  obtain ⟨dir, name, slash⟩ := place
  cases hslash
  refine (locate_eq_ok_iff_place hends hisName.toList_ne_dot hisName.toList_ne_dots).2
    ⟨dir, ?_, ?_, ?_, hnode⟩
  · rw [h, String.ofList_toList]
  · rw [String.ofList_toList, Place.location]
  · rwa [String.ofList_toList]

/-- The name in a place is the file name of the path. -/
theorem fileName?_of_place (h : t.place p = .ok place) (hname : place.isSpecial = false) :
    p.fileName? = some place.name.toList := by
  obtain ⟨hisName, init, hends⟩ := endsIn_of_place h hname
  exact hends.fileName?_eq hisName.toList_ne_dot hisName.toList_ne_dots

/-- Paths to one place have one file name. -/
theorem location_ne_of_fileName?_ne {q : Path} {place' : Place} (h : t.place p = .ok place)
    (hname : place.isSpecial = false) (h' : t.place q = .ok place')
    (hname' : place'.isSpecial = false) (hne : p.fileName? ≠ q.fileName?) :
    place.location ≠ place'.location := by
  intro he
  have hnames : place.name = place'.name := by
    simpa [Place.location] using congrArg List.getLast? he
  apply hne
  rw [fileName?_of_place h hname, fileName?_of_place h' hname', hnames]

end FileTree

end ColumnSieve
