import ColumnSieve.Proofs.FileTree.WellFormed

/-!
# What changes in a tree of files

* `node?_put`, `node?_erase`, `node?_move` — what stands where after a change to the nodes;
* `writeFile_eq_ok_iff`, `removeFile_eq_ok_iff`, `rename_eq_ok_iff` — when an operation
  succeeds, and the change that it then makes;
* `readFile_of_rename` — a renamed file has the content it had.
-/

namespace ColumnSieve.FileTree

variable {t t' : FileTree} {loc source target : Location} {node : Node} {content : ByteArray}

/-! ## Nodes -/

theorem lookup_filter_ne (nodes : List (Location × Node)) (loc key : Location) :
    (nodes.filter (·.1 ≠ loc)).lookup key = if key = loc then none else nodes.lookup key := by
  induction nodes with
  | nil => simp
  | cons n nodes ih => grind

theorem node?_put (h : loc ≠ []) : (t.put loc node).node? loc = some node := by
  rw [node?_eq_lookup h]
  simp [put]

theorem sameBut_put : SameBut loc t (t.put loc node) := by
  refine ⟨rfl, ?_⟩
  intro other hne
  by_cases hother : other = []
  · subst hother
    rfl
  · have hkey : (other == loc) = false := beq_eq_false_iff_ne.2 hne
    rw [node?_eq_lookup hother, node?_eq_lookup hother, put, List.lookup_cons, hkey]
    exact (lookup_filter_ne t.nodes loc other).trans (if_neg hne)

theorem node?_erase (h : loc ≠ []) : (t.erase loc).node? loc = none := by
  rw [node?_eq_lookup h, erase, lookup_filter_ne, if_pos rfl]

theorem sameBut_erase : SameBut loc t (t.erase loc) := by
  refine ⟨rfl, ?_⟩
  intro other hne
  by_cases hother : other = []
  · subst hother
    rfl
  · rw [node?_eq_lookup hother, node?_eq_lookup hother, erase, lookup_filter_ne, if_neg hne]

/-- Of some nodes the one at `source` is given the free location `target`. -/
theorem lookup_rekey {nodes : List (Location × Node)} {rekey : Location → Location}
    (hfree : ∀ n ∈ nodes, n.1 ≠ target)
    (hrekey : ∀ n ∈ nodes, rekey n.1 = if n.1 = source then target else n.1) (key : Location) :
    (nodes.map fun n => (rekey n.1, n.2)).lookup key =
      if key = target then nodes.lookup source
      else if key = source then none else nodes.lookup key := by
  induction nodes with
  | nil => simp
  | cons n nodes ih =>
    rw [List.forall_mem_cons] at hfree hrekey
    rw [List.map_cons, List.lookup_cons, List.lookup_cons, List.lookup_cons,
      ih hfree.2 hrekey.2, hrekey.1]
    grind

/-- A file that is moved over a file, or to where nothing stands, is gone from its old place. -/
theorem node?_move (h : t.WellFormed) (hfile : t.node? source = some (.file content))
    (htarget : t.node? target ≠ some .dir) (hne : source ≠ target) (other : Location) :
    (t.move source target).node? other =
      if other = target then some (.file content)
      else if other = source then none else t.node? other := by
  have hroot {loc : Location} (hloc : t.node? loc ≠ some .dir) : loc ≠ [] := by
    rintro rfl
    exact hloc rfl
  have hsource : source ≠ [] := hroot (by simp [hfile])
  by_cases hother : other = []
  · subst hother
    simp [node?, (hroot htarget).symm, hsource.symm]
  · have hcarry : ∀ n ∈ t.nodes.filter (·.1 ≠ target),
        carry source target n.1 = if n.1 = source then target else n.1 := by
      intro n hn
      unfold carry
      by_cases hkey : n.1 = source
      · simp [hkey]
      · have hbelow : ¬ source <+: n.1 := by
          intro hpre
          apply node?_ne_none_of_mem (List.mem_filter.1 hn).1
          exact h.node?_eq_none_of_prefix (by simp [hfile]) hpre (Ne.symm hkey)
        rw [← List.isPrefixOf_iff_prefix] at hbelow
        simp [hkey, hbelow]
    have hfree : ∀ n ∈ t.nodes.filter (·.1 ≠ target), n.1 ≠ target := by
      intro n hn
      simpa using (List.mem_filter.1 hn).2
    rw [node?_eq_lookup hother, move, lookup_rekey hfree hcarry, lookup_filter_ne,
      lookup_filter_ne, if_neg hne, ← node?_eq_lookup hsource, ← node?_eq_lookup hother, hfile]
    grind

/-- A file that is new in a tree and is moved away leaves the tree as it was elsewhere. -/
theorem sameBut_move {t₀ : FileTree} (h : t.WellFormed) (hbut : SameBut source t₀ t)
    (hnone : t₀.node? source = none) (hfile : t.node? source = some (.file content))
    (htarget : t.node? target ≠ some .dir) (hne : source ≠ target) :
    SameBut target t₀ (t.move source target) := by
  refine ⟨hbut.workDir_eq, ?_⟩
  intro other hother
  rw [node?_move h hfile htarget hne, if_neg hother]
  by_cases hsource : other = source
  · rw [if_pos hsource, hsource, hnone]
  · rw [if_neg hsource]
    exact hbut.node?_eq other hsource

/-! ## Operations -/

variable {p q : Path} {place : Place}

/-- A place stays where a file is moved. -/
theorem place_move (h : t.WellFormed) (hfile : t.node? source = some (.file content))
    (htarget : t.node? target ≠ some .dir) (hne : source ≠ target) (hplace : t.place p = .ok place) :
    (t.move source target).place p = .ok place := by
  refine place_mono (t := t) rfl ?_ hplace
  intro loc hdir
  have hneTarget : loc ≠ target := by
    rintro rfl
    exact htarget hdir
  have hneSource : loc ≠ source := by
    rintro rfl
    cases hfile.symm.trans hdir
  rw [node?_move h hfile htarget hne, if_neg hneTarget, if_neg hneSource, hdir]

/-- Where a file is moved to, its path leads. -/
theorem locate_move (h : t.WellFormed) (hfile : t.node? source = some (.file content))
    (hplace : t.place p = .ok place) (hname : place.isSpecial = false)
    (hslash : place.slash = false) (hshort : place.name.utf8ByteSize ≤ maxName)
    (htarget : t.node? place.location ≠ some .dir)
    (hne : source ≠ place.location) :
    (t.move source place.location).locate p = .ok place.location ∧
      (t.move source place.location).node? place.location = some (.file content) := by
  have hnode : (t.move source place.location).node? place.location = some (.file content) := by
    rw [node?_move h hfile htarget hne, if_pos rfl]
  have hthere := place_move h hfile htarget hne hplace
  exact ⟨locate_of_place hthere hname hslash hshort (by simp [hnode]), hnode⟩

theorem lookUp_of_long (h : maxName < place.name.utf8ByteSize) :
    t.lookUp place = .error (.os .nameTooLong) := if_pos h

theorem lookUp_of_short (h : place.name.utf8ByteSize ≤ maxName) :
    t.lookUp place = .ok (t.node? place.location) := if_neg (Nat.not_lt.2 h)

theorem writeFile_eq_ok_iff : t.writeFile p content = .ok t' ↔
    ∃ place, t.place p = .ok place ∧ place.isSpecial = false ∧ place.slash = false ∧
      place.name.utf8ByteSize ≤ maxName ∧ t.node? place.location ≠ some .dir ∧
      t' = t.put place.location (.file content) := by
  unfold writeFile
  cases t.place p with
  | error e => simp
  | ok place =>
    simp only [Except.ok.injEq, exists_eq_left']
    cases place.isSpecial with
    | true => simp
    | false =>
      cases place.slash with
      | true => simp
      | false =>
        rcases Nat.lt_or_ge maxName place.name.utf8ByteSize with hlong | hshort
        · simp [lookUp_of_long hlong, Nat.not_le.2 hlong]
        · rw [lookUp_of_short hshort]
          match t.node? place.location with
          | none => simp [hshort, eq_comm]
          | some (.file _) => simp [hshort, eq_comm]
          | some .dir => simp

theorem removeFile_eq_ok_iff : t.removeFile p = .ok t' ↔
    ∃ place content, t.place p = .ok place ∧ place.isSpecial = false ∧ place.slash = false ∧
      place.name.utf8ByteSize ≤ maxName ∧ t.node? place.location = some (.file content) ∧
      t' = t.erase place.location := by
  unfold removeFile
  cases t.place p with
  | error e => simp
  | ok place =>
    simp only [Except.ok.injEq, exists_and_left, exists_eq_left']
    cases place.isSpecial with
    | true => simp
    | false =>
      rcases Nat.lt_or_ge maxName place.name.utf8ByteSize with hlong | hshort
      · simp [lookUp_of_long hlong, Nat.not_le.2 hlong]
      · rw [lookUp_of_short hshort]
        match t.node? place.location with
        | none => simp
        | some .dir => simp
        | some (.file _) =>
          cases place.slash with
          | true => simp
          | false => simp [hshort, eq_comm]

theorem mayReplace_file_eq_ok_iff :
    t.mayReplace (.file content) loc = .ok () ↔ t.node? loc ≠ some .dir := by
  unfold mayReplace
  match t.node? loc with
  | none => simp
  | some (.file _) => simp
  | some .dir => simp

/-- What renaming does with a node, once both places are known. -/
theorem moveNode_eq_ok_iff {old new : Place} :
    (if node ≠ .dir ∧ (old.slash || new.slash) = true then .error (.os .notDirectory)
      else if old.location = new.location then .ok t
      else if old.location.isPrefixOf new.location = true then .error (.os .invalidArgument)
      else if new.location.isPrefixOf old.location = true then .error (.os .notEmpty)
      else
        match t.mayReplace node new.location with
        | .error e => .error (.os e)
        | .ok () => .ok (t.move old.location new.location) : Except FileError FileTree) = .ok t' ↔
    (node ≠ .dir → old.slash = false ∧ new.slash = false) ∧
      (old.location = new.location ∧ t' = t ∨
        ¬ old.location <+: new.location ∧ ¬ new.location <+: old.location ∧
          t.mayReplace node new.location = .ok () ∧ t' = t.move old.location new.location) := by
  by_cases hslash : node ≠ .dir ∧ (old.slash || new.slash) = true
  · rw [if_pos hslash]
    refine iff_of_false (by simp) fun ⟨hno, _⟩ => ?_
    simp [hno hslash.1] at hslash
  · have hfile : node ≠ .dir → old.slash = false ∧ new.slash = false := by
      simpa using hslash
    rw [if_neg hslash, ← List.isPrefixOf_iff_prefix, ← List.isPrefixOf_iff_prefix]
    by_cases heq : old.location = new.location
    · have hself : new.location.isPrefixOf new.location = true :=
        List.isPrefixOf_iff_prefix.2 List.prefix_rfl
      rw [if_pos heq, heq, Except.ok.injEq, eq_comm]
      simp only [hself, not_true_eq_false, false_and, or_false, true_and]
      exact ⟨fun h => ⟨hfile, h⟩, fun h => h.2⟩
    · by_cases hinto : old.location.isPrefixOf new.location = true
      · simp [hinto, heq]
      · by_cases hover : new.location.isPrefixOf old.location = true
        · simp [hinto, hover, heq]
        · cases t.mayReplace node new.location with
          | error e => simp [heq, hinto, hover]
          | ok _ =>
            simp only [heq, hinto, hover, if_false, @eq_comm _ t']
            simpa using fun _ => hfile

/-- A renamed file stays where it is or is moved; a directory has more conditions. -/
theorem rename_eq_ok_iff : t.rename p q = .ok t' ↔
    ∃ old new node, t.place p = .ok old ∧ t.place q = .ok new ∧
      old.isSpecial = false ∧ new.isSpecial = false ∧
      old.name.utf8ByteSize ≤ maxName ∧ new.name.utf8ByteSize ≤ maxName ∧
      t.node? old.location = some node ∧
      (node ≠ .dir → old.slash = false ∧ new.slash = false) ∧
      (old.location = new.location ∧ t' = t ∨
        ¬ old.location <+: new.location ∧ ¬ new.location <+: old.location ∧
          t.mayReplace node new.location = .ok () ∧ t' = t.move old.location new.location) := by
  unfold rename
  split
  · rename_i hnul
    refine iff_of_false (by simp) ?_
    rintro ⟨old, new, node, hold, hnew, -⟩
    have hp := (place_eq_ok_iff.1 hold).1.no_nul
    have hq := (place_eq_ok_iff.1 hnew).1.no_nul
    simp [hp, hq] at hnul
  · cases t.place p with
    | error e => simp
    | ok old =>
      cases t.place q with
      | error e => simp
      | ok new =>
        simp only [Except.ok.injEq, exists_and_left, exists_eq_left']
        cases old.isSpecial with
        | true => simp
        | false =>
          cases new.isSpecial with
          | true => simp
          | false =>
            rcases Nat.lt_or_ge maxName old.name.utf8ByteSize with hlong | hold
            · simp [lookUp_of_long hlong, Nat.not_le.2 hlong]
            · rw [lookUp_of_short hold]
              cases t.node? old.location with
              | none => simp
              | some node =>
                rcases Nat.lt_or_ge maxName new.name.utf8ByteSize with hlong | hnew
                · simp [lookUp_of_long hlong, Nat.not_le.2 hlong]
                · rw [lookUp_of_short hnew]
                  simp only [Bool.false_eq_true, Bool.or_self, if_false, hold, hnew, true_and,
                    Option.some.injEq, exists_eq_left']
                  exact moveNode_eq_ok_iff

/-! ## Reading what has changed -/

theorem readFile_eq_ok_iff : t.readFile p = .ok content ↔
    ∃ loc, t.locate p = .ok loc ∧ t.node? loc = some (.file content) := by
  unfold readFile
  cases t.locate p with
  | error e => simp
  | ok loc =>
    simp only [Except.ok.injEq, exists_eq_left']
    match t.node? loc with
    | none => simp
    | some .dir => simp
    | some (.file _) => simp

/-- What could be read before a renaming can be read under the new name. -/
theorem readFile_of_rename (h : t.WellFormed) (hread : t.readFile p = .ok content)
    (hrename : t.rename p q = .ok t') : t'.readFile q = .ok content := by
  obtain ⟨old, new, node, hold, hnew, holdName, hnewName, hshort, hnewShort, hnode, hslash, hmove⟩ :=
    rename_eq_ok_iff.1 hrename
  obtain ⟨loc, hloc, hfile⟩ := readFile_eq_ok_iff.1 hread
  -- with a slash at its end the old path would lead to a directory, which cannot be read
  have holdSlash : old.slash = false := by
    by_contra hdir
    obtain ⟨-, init, hends⟩ := endsIn_of_place hold holdName
    rw [Bool.not_eq_false] at hdir
    cases hfile.symm.trans (isDir_of_slash (hdir ▸ hends) hloc)
  have hfound := locate_of_place hold holdName holdSlash hshort (by simp [hnode])
  cases hloc.symm.trans hfound
  cases hnode.symm.trans hfile
  have hnewSlash := (hslash (by simp)).2
  rw [readFile_eq_ok_iff]
  rcases hmove with ⟨hsame, rfl⟩ | ⟨hpre, -, hreplace, rfl⟩
  · rw [hsame] at hfile
    exact ⟨_, locate_of_place hnew hnewName hnewSlash hnewShort (by simp [hfile]), hfile⟩
  · have hne : old.location ≠ new.location := by
      intro he
      exact hpre (he ▸ List.prefix_rfl)
    have hfree := mayReplace_file_eq_ok_iff.1 hreplace
    exact ⟨_, locate_move h hfile hnew hnewName hnewSlash hnewShort hfree hne⟩

end ColumnSieve.FileTree
