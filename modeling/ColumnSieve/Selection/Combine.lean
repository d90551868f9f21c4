import ColumnSieve.Mode

/-!
# Combining the identifiers of several queries

Both modes keep the order of first occurrence: in the concatenation of the lists, or in the
first list.
-/

namespace ColumnSieve

/-- The identifiers of any list, or those of every list, each once. -/
def combine (mode : Mode) (sets : List (List String)) : List String :=
  match mode, sets with
  | .union, sets => sets.flatten.eraseDups
  | .intersect, [] => []
  | .intersect, first :: rest =>
    (first.filter fun id => rest.all (·.contains id)).eraseDups

theorem mem_combine_union {id : String} {sets : List (List String)} :
    id ∈ combine .union sets ↔ ∃ set ∈ sets, id ∈ set := by
  simp [combine, List.mem_eraseDups]

theorem mem_combine_intersect {id : String} {sets : List (List String)} :
    id ∈ combine .intersect sets ↔ sets ≠ [] ∧ ∀ set ∈ sets, id ∈ set := by
  cases sets with
  | nil => simp [combine]
  | cons first rest => simp [combine, List.mem_eraseDups]

end ColumnSieve
