import ColumnSieve.Selection.Target

/-!
# When identifiers find their columns

* `selectColumns_cases`    — the ways in which matching ends;
* `selectColumns_isOk_iff` — the combined identifiers are headers, or those that are not may be
  ignored and some are;
* `mem_of_selectColumns`   — the identifiers that are kept.
-/

namespace ColumnSieve

variable {mode : Mode} {alwaysInclude headers : List String} {ignoreMissing : Bool}
  {sets : List (List String)}

/-- The four ways in which the matching ends. -/
theorem selectColumns_cases (mode : Mode) (alwaysInclude headers : List String)
    (ignoreMissing : Bool) (sets : List (List String)) :
    (combine mode sets = [] ∧
      selectColumns mode alwaysInclude headers ignoreMissing sets =
        .error (.emptySelection (.nothingSelected mode))) ∨
    (ignoreMissing = false ∧ (∃ id ∈ combine mode sets, id ∉ headers) ∧
      selectColumns mode alwaysInclude headers ignoreMissing sets =
        .error (.missingHeaders ((combine mode sets).filter fun id => !headers.contains id))) ∨
    (combine mode sets ≠ [] ∧ ignoreMissing = true ∧ (∀ id ∈ combine mode sets, id ∉ headers) ∧
      selectColumns mode alwaysInclude headers ignoreMissing sets =
        .error (.emptySelection .nothingSurvived)) ∨
    ((ignoreMissing = true ∨ ∀ id ∈ combine mode sets, id ∈ headers) ∧
      (∃ id ∈ combine mode sets, id ∈ headers) ∧
      ∃ selection, selectColumns mode alwaysInclude headers ignoreMissing sets = .ok selection ∧
        selection.identifiers =
          ((combine mode sets).filter headers.contains ++ alwaysInclude).eraseDups ∧
        selection.columns = selection.identifiers.map (columnOf headers)) := by
  have hmissing : (combine mode sets).filter (fun id => !headers.contains id) ≠ [] ↔
      ∃ id ∈ combine mode sets, id ∉ headers := by
    simp [List.filter_eq_nil_iff]
  have hpresent : (combine mode sets).filter headers.contains = [] ↔
      ∀ id ∈ combine mode sets, id ∉ headers := by
    simp [List.filter_eq_nil_iff]
  unfold selectColumns
  simp only [hmissing, hpresent]
  by_cases hnone : combine mode sets = []
  · rw [if_pos hnone]
    exact .inl ⟨hnone, rfl⟩
  rw [if_neg hnone]
  by_cases hrefused : (∃ id ∈ combine mode sets, id ∉ headers) ∧ ignoreMissing = false
  · rw [if_pos hrefused]
    exact .inr (.inl ⟨hrefused.2, hrefused.1, rfl⟩)
  rw [if_neg hrefused]
  have hmay : ignoreMissing = true ∨ ∀ id ∈ combine mode sets, id ∈ headers := by
    cases ignoreMissing with
    | true => exact .inl rfl
    | false =>
      right
      intro id hid
      exact Classical.byContradiction fun hno => hrefused ⟨⟨id, hid, hno⟩, rfl⟩
  by_cases hgone : ∀ id ∈ combine mode sets, id ∉ headers
  · rw [if_pos hgone]
    obtain ⟨id, hid⟩ := List.exists_mem_of_ne_nil _ hnone
    exact .inr (.inr (.inl ⟨hnone, hmay.resolve_right fun hall => hgone id hid (hall id hid),
      hgone, rfl⟩))
  · rw [if_neg hgone]
    have hleft : ∃ id ∈ combine mode sets, id ∈ headers :=
      Classical.byContradiction fun hno => hgone fun id hid hin => hno ⟨id, hid, hin⟩
    exact .inr (.inr (.inr ⟨hmay, hleft, _, rfl, rfl, rfl⟩))

theorem selectColumns_eq_ok_iff {selection : Selection} :
    selectColumns mode alwaysInclude headers ignoreMissing sets = .ok selection ↔
      (combine mode sets ≠ [] ∧
        ((∀ id ∈ combine mode sets, id ∈ headers) ∨ ignoreMissing = true) ∧
        (combine mode sets).filter headers.contains ≠ []) ∧
      selection.identifiers =
          ((combine mode sets).filter headers.contains ++ alwaysInclude).eraseDups ∧
        selection.columns = selection.identifiers.map (columnOf headers) := by
  have hpresent : (combine mode sets).filter headers.contains ≠ [] ↔
      ∃ id ∈ combine mode sets, id ∈ headers := by
    simp [List.filter_eq_nil_iff]
  rw [hpresent]
  obtain ⟨hnone, hend⟩ | ⟨hstrict, ⟨id, hid, hno⟩, hend⟩ | ⟨-, -, hgone, hend⟩ |
      ⟨hmay, ⟨id, hid, hin⟩, found, hend, hids, hcolumns⟩ :=
    selectColumns_cases mode alwaysInclude headers ignoreMissing sets
  · rw [hend]
    exact iff_of_false nofun fun h => h.1.1 hnone
  · rw [hend]
    refine iff_of_false nofun ?_
    rintro ⟨⟨-, hall | hignore, -⟩, -⟩
    · exact hno (hall id hid)
    · rw [hstrict] at hignore
      cases hignore
  · rw [hend]
    refine iff_of_false nofun ?_
    rintro ⟨⟨-, -, id, hid, hin⟩, -⟩
    exact hgone id hid hin
  · rw [hend, Except.ok.injEq]
    constructor
    · rintro rfl
      exact ⟨⟨List.ne_nil_of_mem hid, hmay.symm, id, hid, hin⟩, hids, hcolumns⟩
    · rintro ⟨-, hids', hcolumns'⟩
      obtain ⟨identifiers, columns⟩ := selection
      obtain ⟨identifiers', columns'⟩ := found
      dsimp only at hids hids' hcolumns hcolumns'
      rw [hcolumns, hcolumns', hids, hids']

/-- **Matching succeeds exactly if something was selected, and all of it is among the headers,
or some of it is and the rest may be ignored.** -/
theorem selectColumns_isOk_iff :
    (∃ selection, selectColumns mode alwaysInclude headers ignoreMissing sets = .ok selection) ↔
      (∃ id, id ∈ combine mode sets) ∧
        ((∀ id ∈ combine mode sets, id ∈ headers) ∨
          ignoreMissing = true ∧ ∃ id ∈ combine mode sets, id ∈ headers) := by
  obtain ⟨hnone, hend⟩ | ⟨hstrict, ⟨id, hid, hno⟩, hend⟩ | ⟨-, -, hgone, hend⟩ |
      ⟨hmay, ⟨id, hid, hin⟩, selection, hend, -⟩ :=
    selectColumns_cases mode alwaysInclude headers ignoreMissing sets
  · refine iff_of_false (by simp [hend]) ?_
    rintro ⟨⟨id, hid⟩, -⟩
    rw [hnone] at hid
    cases hid
  · refine iff_of_false (by simp [hend]) ?_
    rintro ⟨-, hall | ⟨hignore, -⟩⟩
    · exact hno (hall id hid)
    · rw [hstrict] at hignore
      cases hignore
  · refine iff_of_false (by simp [hend]) ?_
    rintro ⟨⟨id, hid⟩, hall | ⟨-, other, hother, hin⟩⟩
    · exact hgone id hid (hall id hid)
    · exact hgone other hother hin
  · exact iff_of_true ⟨selection, hend⟩
      ⟨⟨id, hid⟩, hmay.symm.imp_right fun hignore => ⟨hignore, id, hid, hin⟩⟩

theorem mem_of_selectColumns {selection : Selection}
    (h : selectColumns mode alwaysInclude headers ignoreMissing sets = .ok selection)
    (id : String) :
    id ∈ selection.identifiers ↔
      (id ∈ combine mode sets ∧ id ∈ headers) ∨ id ∈ alwaysInclude := by
  rw [(selectColumns_eq_ok_iff.1 h).2.1]
  simp [List.mem_eraseDups]

end ColumnSieve
