import Mathlib.Data.List.Induction
import Mathlib.Data.List.Nodup

/-!
# First occurrences

Values that are named twice are kept where they are named first.

* `Distinct.nodup_eraseDups`    — then no value is left twice;
* `Distinct.eraseDups_eq_self`  — and nothing is dropped if no value was named twice;
* `Distinct.filter_eraseDups`   — what is kept of other values does not matter to a value;
* `Distinct.find?_eraseDups`    — nor do repetitions matter to a search;
* `Distinct.eraseDups_append_eraseDups` — two lists can be freed of repetitions before they are
  joined;
* `Distinct.eq_of_ordered`      — values in a given order are determined by what they are;
* `Distinct.FirstOccurrences`   — the same said of the order alone (`firstOccurrences_eraseDups`).
-/

namespace ColumnSieve.Distinct

variable {α : Type} [BEq α] [LawfulBEq α]

theorem nodup_eraseDups (values : List α) : values.eraseDups.Nodup := by
  match values with
  | [] => simp
  | value :: values =>
    rw [List.eraseDups_cons, List.nodup_cons]
    refine ⟨?_, nodup_eraseDups _⟩
    rw [List.mem_eraseDups]
    simp
termination_by values.length
decreasing_by exact Nat.lt_succ_of_le (List.length_filter_le _ _)

theorem eraseDups_eq_self {values : List α} (h : values.Nodup) : values.eraseDups = values := by
  induction values with
  | nil => rfl
  | cons value values ih =>
    obtain ⟨hnew, hrest⟩ := List.nodup_cons.1 h
    have hkeep : values.filter (fun v => !v == value) = values := by
      apply List.filter_eq_self.2
      intro v hv
      have hne : v ≠ value := by
        rintro rfl
        exact hnew hv
      simp [hne]
    rw [List.eraseDups_cons, hkeep, ih hrest]

/-- Values can be dropped before or after. -/
theorem filter_eraseDups (keep : α → Bool) (values : List α) :
    values.eraseDups.filter keep = (values.filter keep).eraseDups := by
  match values with
  | [] => simp
  | value :: values =>
    have hcomm : (values.filter fun v => !v == value).filter keep =
        (values.filter keep).filter fun v => !v == value := by
      simp only [List.filter_filter, Bool.and_comm]
    rw [List.eraseDups_cons, List.filter_cons, List.filter_cons,
      filter_eraseDups keep (values.filter fun v => !v == value), hcomm]
    split
    · rw [List.eraseDups_cons]
    · rename_i hdrop
      have hgone : (values.filter keep).filter (fun v => !v == value) = values.filter keep := by
        apply List.filter_eq_self.2
        intro v hv
        have hne : v ≠ value := by
          rintro rfl
          exact hdrop (List.mem_filter.1 hv).2
        simp [hne]
      rw [hgone]
termination_by values.length
decreasing_by exact Nat.lt_succ_of_le (List.length_filter_le _ _)

/-- A search that stops at the first hit does not come to repetitions of it. -/
theorem find?_eraseDups (p : α → Bool) (values : List α) :
    values.eraseDups.find? p = values.find? p := by
  rw [← List.head?_filter, ← List.head?_filter, filter_eraseDups]
  cases values.filter p with
  | nil => rfl
  | cons value rest => rw [List.eraseDups_cons, List.head?_cons, List.head?_cons]

theorem eraseDups_ne_nil {values : List α} (h : values ≠ []) : values.eraseDups ≠ [] := by
  obtain ⟨value, hv⟩ := List.exists_mem_of_ne_nil _ h
  exact List.ne_nil_of_mem (List.mem_eraseDups.2 hv)

theorem eraseDups_append_of_nodup {kept added : List α} (h : kept.Nodup) :
    (kept ++ added).eraseDups =
      kept ++ (added.filter fun value => !kept.contains value).eraseDups := by
  rw [List.eraseDups_append, eraseDups_eq_self h]
  rfl

/-- Values that are repeated within one of two lists are repeated in both together. -/
theorem eraseDups_append_eraseDups (first second : List α) :
    (first.eraseDups ++ second.eraseDups).eraseDups = (first ++ second).eraseDups := by
  have hnew : second.eraseDups.removeAll first.eraseDups = (second.removeAll first).eraseDups := by
    have hthere (value : α) : first.eraseDups.elem value = first.elem value := by
      rw [Bool.eq_iff_iff, List.elem_iff, List.elem_iff, List.mem_eraseDups]
    simp only [List.removeAll, hthere, filter_eraseDups]
  rw [List.eraseDups_append, hnew, eraseDups_eq_self (nodup_eraseDups _),
    eraseDups_eq_self (nodup_eraseDups _), List.eraseDups_append]

/-! ## Order -/

/-- Values whose keys ascend stand in one order only. -/
theorem eq_of_ordered {α : Type} {key : α → Nat} {values values' : List α}
    (h : values.Pairwise fun value other => key value < key other)
    (h' : values'.Pairwise fun value other => key value < key other)
    (hmem : ∀ value, value ∈ values ↔ value ∈ values') : values = values' := by
  have hnodup {values : List α} (h : values.Pairwise fun value other => key value < key other) :
      values.Nodup := by
    refine h.imp ?_
    rintro value _ hlt rfl
    exact Nat.lt_irrefl _ hlt
  refine List.Perm.eq_of_pairwise ?_ h h' ((List.perm_ext_iff_of_nodup (hnodup h) (hnodup h')).2 hmem)
  intro value other _ _ hlt hgt
  exact absurd hgt (Nat.lt_asymm hlt)

/-- The values that occur, each once, in the order in which they occur first. -/
structure FirstOccurrences (values kept : List α) : Prop where
  mem_iff : ∀ value, value ∈ kept ↔ value ∈ values
  ordered : kept.Pairwise fun value other => values.idxOf value < values.idxOf other

theorem firstOccurrences_eraseDups (values : List α) :
    FirstOccurrences values values.eraseDups := by
  refine ⟨fun value => List.mem_eraseDups, ?_⟩
  -- a value is added behind those that occur before it, and does not move them
  induction values using List.reverseRecOn with
  | nil => simp
  | append_singleton values last ih =>
    have hfront : ∀ value ∈ values.eraseDups,
        (values ++ [last]).idxOf value = values.idxOf value := by
      intro value hvalue
      rw [List.idxOf_append, if_pos (List.mem_eraseDups.1 hvalue)]
    have hkept : values.eraseDups.Pairwise fun value other =>
        (values ++ [last]).idxOf value < (values ++ [last]).idxOf other := by
      refine ih.imp_of_mem ?_
      intro value other hvalue hother hlt
      rw [hfront value hvalue, hfront other hother]
      exact hlt
    rw [List.eraseDups_append]
    by_cases hlast : last ∈ values
    · simpa [List.removeAll, hlast] using hkept
    · have hnew : ([last].removeAll values).eraseDups = [last] := by
        simp [List.removeAll, hlast, List.eraseDups_cons]
      rw [hnew, List.pairwise_append]
      refine ⟨hkept, List.pairwise_singleton _ _, ?_⟩
      intro value hvalue other hother
      rw [List.mem_singleton.1 hother, hfront value hvalue, List.idxOf_append, if_neg hlast]
      exact Nat.lt_of_lt_of_le (List.idxOf_lt_length_of_mem (List.mem_eraseDups.1 hvalue))
        (Nat.le_add_left _ _)

end ColumnSieve.Distinct
