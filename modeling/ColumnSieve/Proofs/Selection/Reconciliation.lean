import ColumnSieve.Proofs.Selection.Columns
import ColumnSieve.Proofs.Selection.Combination

/-!
# Identifiers, matched with the headers of the target

* `Selection.Reconciles`      — what is kept of them, what is added, and the column of each;
* `reconciles_of_selectColumns` — so every selection is made;
* `selectColumns_eq_missing_iff`, `selectColumns_eq_empty_iff` — when there is none, and why;
* `selectColumns_reconciles`  — all outcomes together.
-/

namespace ColumnSieve

/-- A selection holds the combined identifiers that are headers, in their order, and behind them the
others that are always included, in the order in which they are named first.  Side by side with
them stand their columns; by its name stands there what is always included and heads no column,
also if it was combined. -/
structure Selection.Reconciles (selection : Selection)
    (combined alwaysInclude headers : List String) : Prop where
  agrees : selection.Agrees headers alwaysInclude
  identifiers_eq : ∃ added, selection.identifiers = combined.filter headers.contains ++ added ∧
    Distinct.FirstOccurrences
      (alwaysInclude.filter fun id => !(combined.filter headers.contains).contains id) added
  mem_name_iff : ∀ id, .name id ∈ selection.columns ↔ id ∈ alwaysInclude ∧ id ∉ headers

section

variable {mode : Mode} {alwaysInclude headers : List String} {ignoreMissing : Bool}
  {sets : List (List String)} {selection : Selection}

theorem columnOf_eq_name_iff {id text : String} :
    columnOf headers id = .name text ↔ id = text ∧ id ∉ headers := by
  rw [eq_comm, ← standsFor_iff]
  exact and_congr_left fun _ => eq_comm

theorem reconciles_of_selectColumns
    (h : selectColumns mode alwaysInclude headers ignoreMissing sets = .ok selection) :
    selection.Reconciles (combine mode sets) alwaysInclude headers := by
  obtain ⟨-, hids, hcolumns⟩ := selectColumns_eq_ok_iff.1 h
  refine ⟨agrees_of_selectColumns h, ?_, ?_⟩
  · have hkept : ((combine mode sets).filter headers.contains).Nodup := (nodup_combine _ _).filter _
    rw [hids, Distinct.eraseDups_append_of_nodup hkept]
    exact ⟨_, rfl, Distinct.firstOccurrences_eraseDups _⟩
  · intro name
    rw [hcolumns, List.mem_map]
    simp only [columnOf_eq_name_iff]
    constructor
    · rintro ⟨id, hid, rfl, hno⟩
      exact ⟨((mem_of_selectColumns h _).1 hid).resolve_left fun hin => hno hin.2, hno⟩
    · rintro ⟨halways, hno⟩
      exact ⟨name, (mem_of_selectColumns h _).2 (.inr halways), rfl, hno⟩

/-! ## Failures -/

theorem selectColumns_eq_missing_iff {ids : List String} :
    selectColumns mode alwaysInclude headers ignoreMissing sets = .error (.missingHeaders ids) ↔
      ignoreMissing = false ∧ (∃ id ∈ combine mode sets, id ∉ headers) ∧
        ids = (combine mode sets).filter fun id => !headers.contains id := by
  obtain ⟨hnone, hend⟩ | ⟨hstrict, hmissing, hend⟩ | ⟨-, hignore, -, hend⟩ |
      ⟨hmay, -, found, hend, -⟩ :=
    selectColumns_cases mode alwaysInclude headers ignoreMissing sets
  · rw [hend]
    refine iff_of_false nofun ?_
    rintro ⟨-, ⟨id, hid, -⟩, -⟩
    rw [hnone] at hid
    cases hid
  · rw [hend, Except.error.injEq, Error.missingHeaders.injEq, eq_comm]
    exact ⟨fun h => ⟨hstrict, hmissing, h⟩, fun h => h.2.2⟩
  · rw [hend]
    exact iff_of_false nofun fun h => by simp [hignore] at h
  · rw [hend]
    refine iff_of_false nofun ?_
    rintro ⟨hstrict, ⟨id, hid, hno⟩, -⟩
    cases hmay with
    | inl hignore => simp [hstrict] at hignore
    | inr hall => exact hno (hall id hid)

theorem selectColumns_eq_empty_iff {cause : EmptySelection} :
    selectColumns mode alwaysInclude headers ignoreMissing sets = .error (.emptySelection cause) ↔
      (combine mode sets = [] ∧ cause = .nothingSelected mode) ∨
      (combine mode sets ≠ [] ∧ ignoreMissing = true ∧
        (∀ id ∈ combine mode sets, id ∉ headers) ∧ cause = .nothingSurvived) := by
  obtain ⟨hnone, hend⟩ | ⟨hstrict, ⟨id, hid, -⟩, hend⟩ | ⟨hsome, hignore, hgone, hend⟩ |
      ⟨-, ⟨id, hid, hin⟩, found, hend, -⟩ :=
    selectColumns_cases mode alwaysInclude headers ignoreMissing sets
  · rw [hend, Except.error.injEq, Error.emptySelection.injEq, eq_comm]
    constructor
    · intro hcause
      exact .inl ⟨hnone, hcause⟩
    · rintro (⟨-, hcause⟩ | ⟨hsome, -⟩)
      · exact hcause
      · exact absurd hnone hsome
  · rw [hend]
    refine iff_of_false nofun ?_
    rintro (⟨hnone, -⟩ | ⟨-, hignore, -⟩)
    · rw [hnone] at hid
      cases hid
    · simp [hstrict] at hignore
  · rw [hend, Except.error.injEq, Error.emptySelection.injEq, eq_comm]
    constructor
    · intro hcause
      exact .inr ⟨hsome, hignore, hgone, hcause⟩
    · rintro (⟨hnone, -⟩ | ⟨-, -, -, hcause⟩)
      · exact absurd hnone hsome
      · exact hcause
  · rw [hend]
    refine iff_of_false nofun ?_
    rintro (⟨hnone, -⟩ | ⟨-, -, hgone, -⟩)
    · rw [hnone] at hid
      cases hid
    · exact hgone id hid hin

/-- **How combined identifiers are matched with the headers of the target.**  Unless missing ones
may be ignored, it is refused if some are no headers, and these are listed in their order, each
once.  It is also refused if nothing is combined, or if all of it is missing and ignored; what is
always included does not help.  There is no other refusal. -/
theorem selectColumns_reconciles (mode : Mode) (alwaysInclude headers : List String)
    (ignoreMissing : Bool) (sets : List (List String)) :
    (∀ ids, selectColumns mode alwaysInclude headers ignoreMissing sets =
        .error (.missingHeaders ids) ↔
      ignoreMissing = false ∧ (∃ id ∈ combine mode sets, id ∉ headers) ∧
        ids = ((combine mode sets).filter fun id => !headers.contains id) ∧ ids.Nodup) ∧
    (∀ cause, selectColumns mode alwaysInclude headers ignoreMissing sets =
        .error (.emptySelection cause) ↔
      (combine mode sets = [] ∧ cause = .nothingSelected mode) ∨
      (combine mode sets ≠ [] ∧ ignoreMissing = true ∧
        (∀ id ∈ combine mode sets, id ∉ headers) ∧ cause = .nothingSurvived)) ∧
    (∀ e, selectColumns mode alwaysInclude headers ignoreMissing sets = .error e →
      (∃ ids, e = .missingHeaders ids) ∨ ∃ cause, e = .emptySelection cause) ∧
    ∀ selection, selectColumns mode alwaysInclude headers ignoreMissing sets = .ok selection →
      selection.Reconciles (combine mode sets) alwaysInclude headers := by
  refine ⟨?_, fun cause => selectColumns_eq_empty_iff, ?_, fun selection =>
    reconciles_of_selectColumns⟩
  · intro ids
    rw [selectColumns_eq_missing_iff]
    refine and_congr_right fun _ => and_congr_right fun _ => (and_iff_left_of_imp ?_).symm
    rintro rfl
    exact (nodup_combine mode sets).filter _
  · intro e h
    obtain ⟨-, hend⟩ | ⟨-, -, hend⟩ | ⟨-, -, -, hend⟩ | ⟨-, -, found, hend, -⟩ :=
      selectColumns_cases mode alwaysInclude headers ignoreMissing sets
    · cases hend.symm.trans h
      exact .inr ⟨_, rfl⟩
    · cases hend.symm.trans h
      exact .inl ⟨_, rfl⟩
    · cases hend.symm.trans h
      exact .inr ⟨_, rfl⟩
    · cases hend.symm.trans h

end

/-- Two queries that agree on a sample which is no header of the target. -/
def droppedSets : List (List String) := [["s2", "s9", "s2"], ["s1", "s9"]]

/-- That sample is also always included, and so are two headers and a name. -/
def droppedInclude : List String := ["s9", "gene", "s1", "note", "gene"]

theorem selectColumns_reconciles_of_dropped :
    selectColumns .union droppedInclude ["gene", "s2", "s1", "s2"] false droppedSets =
        .error (.missingHeaders ["s9"]) ∧
      selectColumns .intersect droppedInclude ["gene", "s2", "s1", "s2"] true droppedSets =
        .error (.emptySelection .nothingSurvived) ∧
      ∃ selection, selectColumns .union droppedInclude ["gene", "s2", "s1", "s2"] true
          droppedSets = .ok selection ∧
        selection.identifiers = ["s2", "s1", "s9", "gene", "note"] ∧
        .name "s9" ∈ selection.columns := by
  obtain ⟨hmissing, -⟩ := selectColumns_reconciles .union droppedInclude
    ["gene", "s2", "s1", "s2"] false droppedSets
  obtain ⟨-, hempty, -⟩ := selectColumns_reconciles .intersect droppedInclude
    ["gene", "s2", "s1", "s2"] true droppedSets
  obtain ⟨-, -, -, hok⟩ := selectColumns_reconciles .union droppedInclude
    ["gene", "s2", "s1", "s2"] true droppedSets
  refine ⟨(hmissing _).2 (by decide +kernel), (hempty _).2 (.inr (by decide +kernel)), ?_⟩
  have hselection : selectColumns .union droppedInclude ["gene", "s2", "s1", "s2"] true
      droppedSets = .ok ⟨["s2", "s1", "s9", "gene", "note"],
        [.position 2, .position 3, .name "s9", .position 1, .name "note"]⟩ := by
    decide +kernel
  exact ⟨_, hselection, rfl, ((hok _ hselection).mem_name_iff "s9").2 (by decide)⟩

end ColumnSieve
