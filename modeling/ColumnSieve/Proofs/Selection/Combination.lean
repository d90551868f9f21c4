import ColumnSieve.Proofs.Distinct
import ColumnSieve.Selection.Combine

/-!
# Identifiers of several queries, combined

* `IsCombined`           — which identifiers are combined, each once, and in which order;
* `isCombined_combine`, `IsCombined.unique` — `combine` gives the one list of that kind;
* `combine_union_append`, `combine_intersect_append` — lists that are combined in two groups;
* `combine_groups`       — all of it, in either mode.
-/

namespace ColumnSieve

/-- The combined identifiers are those of any list, or those of every list, none if there is no
list.  Each stands there once, in the order of the first occurrences in all lists, read one behind
the other, or in the first list. -/
structure IsCombined (mode : Mode) (sets : List (List String)) (combined : List String) :
    Prop where
  nodup : combined.Nodup
  mem_iff : ∀ id, id ∈ combined ↔
    match mode with
    | .union => ∃ set ∈ sets, id ∈ set
    | .intersect => sets ≠ [] ∧ ∀ set ∈ sets, id ∈ set
  ordered : combined.Pairwise fun id other =>
    match mode with
    | .union => sets.flatten.idxOf id < sets.flatten.idxOf other
    | .intersect => (sets.headD []).idxOf id < (sets.headD []).idxOf other

section

variable {mode : Mode} {sets : List (List String)} {combined combined' : List String}

theorem nodup_combine (mode : Mode) (sets : List (List String)) : (combine mode sets).Nodup := by
  unfold combine
  split
  · exact Distinct.nodup_eraseDups _
  · exact List.nodup_nil
  · exact Distinct.nodup_eraseDups _

theorem isCombined_combine (mode : Mode) (sets : List (List String)) :
    IsCombined mode sets (combine mode sets) where
  nodup := nodup_combine mode sets
  mem_iff id := by
    cases mode with
    | union => exact mem_combine_union
    | intersect => exact mem_combine_intersect
  ordered := by
    cases mode with
    | union => exact (Distinct.firstOccurrences_eraseDups sets.flatten).ordered
    | intersect =>
      cases sets with
      | nil => exact .nil
      | cons first rest =>
        -- dropping identifiers leaves the others in the order of their first occurrences
        have hordered := (Distinct.firstOccurrences_eraseDups first).ordered
        rw [combine, ← Distinct.filter_eraseDups]
        exact hordered.filter _

/-- There is one such list. -/
theorem IsCombined.unique (h : IsCombined mode sets combined)
    (h' : IsCombined mode sets combined') : combined = combined' := by
  have hmem (id : String) : id ∈ combined ↔ id ∈ combined' := by rw [h.mem_iff, h'.mem_iff]
  cases mode with
  | union => exact Distinct.eq_of_ordered h.ordered h'.ordered hmem
  | intersect => exact Distinct.eq_of_ordered h.ordered h'.ordered hmem

end

/-! ## Groups -/

section

variable {sets sets' : List (List String)}

theorem combine_union_append :
    combine .union (sets ++ sets') = combine .union [combine .union sets, combine .union sets'] := by
  simp only [combine, List.flatten_append, List.flatten_cons, List.flatten_nil, List.append_nil,
    Distinct.eraseDups_append_eraseDups]

/-- What is common to both groups is what the first list has of the identifiers of all others. -/
theorem combine_intersect_append (h : sets ≠ []) (h' : sets' ≠ []) :
    combine .intersect (sets ++ sets') =
      combine .intersect [combine .intersect sets, combine .intersect sets'] := by
  obtain ⟨first, rest, rfl⟩ := List.exists_cons_of_ne_nil h
  have hcommon (id : String) :
      (combine .intersect sets').contains id = sets'.all (·.contains id) := by
    rw [Bool.eq_iff_iff, List.contains_iff_mem, mem_combine_intersect]
    simp [h']
  calc combine .intersect (first :: rest ++ sets')
    _ = (first.filter fun id => (rest ++ sets').all (·.contains id)).eraseDups := rfl
    _ = ((first.filter fun id => rest.all (·.contains id)).filter fun id =>
          sets'.all (·.contains id)).eraseDups := by
        simp only [List.all_append, List.filter_filter, Bool.and_comm]
    _ = (combine .intersect (first :: rest)).filter fun id => sets'.all (·.contains id) := by
        rw [combine, Distinct.filter_eraseDups]
    _ = combine .intersect [combine .intersect (first :: rest), combine .intersect sets'] := by
        have hnodup := (nodup_combine .intersect (first :: rest)).filter fun id =>
          sets'.all (·.contains id)
        rw [combine.eq_def .intersect [_, _]]
        simp only [List.all_cons, List.all_nil, Bool.and_true, hcommon]
        exact (Distinct.eraseDups_eq_self hnodup).symm

/-- **Combining identifiers.**  `combine` gives the one list that holds each identifier of any list,
or of every list, once and in the order of first occurrences.  Whether lists are combined at once or
in two groups does not matter. -/
theorem combine_groups (mode : Mode) :
    (∀ sets combined, IsCombined mode sets combined ↔ combined = combine mode sets) ∧
    ∀ sets sets', sets ≠ [] → sets' ≠ [] →
      combine mode (sets ++ sets') = combine mode [combine mode sets, combine mode sets'] := by
  constructor
  · intro sets combined
    constructor
    · intro h
      exact h.unique (isCombined_combine mode sets)
    · rintro rfl
      exact isCombined_combine mode sets
  · intro sets sets' h h'
    cases mode with
    | union => exact combine_union_append
    | intersect => exact combine_intersect_append h h'

end

/-- Two groups of queries whose samples are repeated, within a list and across lists. -/
theorem combine_groups_of_repeated :
    combine .intersect ([["s4", "s2", "s4", "s3"], ["s2", "s4"]] ++ [["s3", "s4", "s2", "s2"]]) =
        combine .intersect [["s4", "s2"], ["s3", "s4", "s2"]] ∧
      IsCombined .intersect [["s4", "s2"], ["s3", "s4", "s2"]] ["s4", "s2"] := by
  obtain ⟨hone, hgroups⟩ := combine_groups .intersect
  refine ⟨?_, (hone _ _).2 (by decide +kernel)⟩
  rw [hgroups _ _ (by simp) (by simp)]
  decide +kernel

end ColumnSieve
