import ColumnSieve.Column.Runs
import Mathlib.Data.List.Nodup
import Mathlib.Data.List.Perm.Basic

/-!
# What runs of positions stand for

Folding ascending positions into runs loses none and adds none, and keeps their order.

* `Token.Proper`           — a single position, or a range from a smaller to a greater one;
* `Token.before_spec`      — one position in front of the tokens of greater ones;
* `Token.runs_spec`        — all positions, in order;
* `Spec.columns_ofColumns` — a specification: positions ascending, then the names in their order;
* `Spec.columns_perm`      — so columns that are all different are the same columns as before.
-/

namespace ColumnSieve

namespace Column

variable {column : Column}

theorem position?_eq_some_iff {n : Nat} : column.position? = some n ↔ column = .position n := by
  cases column <;> simp [position?]

theorem name?_eq_some_iff {text : String} : column.name? = some text ↔ column = .name text := by
  cases column <;> simp [name?]

end Column

namespace Token

/-- The token covers positions; a range covers two at least. -/
def Proper : Token → Prop
  | .single _ => True
  | .range first last => first < last
  | .name _ => False

section

variable {p first last : Nat} {tokens : List Token} {positions : List Nat}

/-- Below a greater position the next one is the number behind: it has not wrapped. -/
theorem nextPosition_eq_of_lt (h : p < nextPosition p) : nextPosition p = p + 1 := by
  have hle : nextPosition p ≤ p + 1 := Nat.mod_le _ _
  omega

theorem columns_range_cons (h : first ≤ last) : (range first last).columns =
    .position first :: (List.range' (first + 1) (last - first)).map .position := by
  have hlen : last + 1 - first = (last - first) + 1 := by omega
  rw [columns, hlen, List.range'_succ, List.map_cons]

/-- The step of the fold: a position is put in front of greater ones, and nothing else changes. -/
theorem before_spec (hproper : ∀ token ∈ tokens, token.Proper)
    (hlt : ∀ q, .position q ∈ tokens.flatMap columns → p < q) :
    (before p tokens).flatMap columns = .position p :: tokens.flatMap columns ∧
      ∀ token ∈ before p tokens, token.Proper := by
  fun_cases before p tokens with
  | case1 tokens =>
    -- two single positions become a range
    have hlt : p < nextPosition p := hlt _ (by simp [columns])
    refine ⟨?_, List.forall_mem_cons.2 ⟨hlt, (List.forall_mem_cons.1 hproper).2⟩⟩
    rw [List.flatMap_cons, columns_range_cons (Nat.le_of_lt hlt), nextPosition_eq_of_lt hlt]
    simp [columns]
  | case2 q tokens hnext =>
    exact ⟨rfl, List.forall_mem_cons.2 ⟨trivial, hproper⟩⟩
  | case3 last tokens =>
    -- a range begins one position earlier
    obtain ⟨hrange, hrest⟩ := List.forall_mem_cons.1 hproper
    have hrange : nextPosition p < last := hrange
    have hlt : p < nextPosition p := hlt _ (by simp [columns_range_cons (Nat.le_of_lt hrange)])
    have hnext := nextPosition_eq_of_lt hlt
    have hlast : p < last := by omega
    have hlen : last - p = last + 1 - nextPosition p := by omega
    refine ⟨?_, List.forall_mem_cons.2 ⟨hlast, hrest⟩⟩
    rw [List.flatMap_cons, List.flatMap_cons, columns_range_cons (Nat.le_of_lt hlast), ← hnext,
      hlen]
    rfl
  | case4 q r tokens hnext =>
    exact ⟨rfl, List.forall_mem_cons.2 ⟨trivial, hproper⟩⟩
  | case5 tokens _ _ =>
    exact ⟨rfl, List.forall_mem_cons.2 ⟨trivial, hproper⟩⟩

/-- **Runs stand for the positions they are made of**, in ascending order. -/
theorem runs_spec (h : positions.Pairwise (· < ·)) :
    (runs positions).flatMap columns = positions.map .position ∧
      ∀ token ∈ runs positions, token.Proper := by
  induction positions with
  | nil => exact ⟨rfl, fun token h => absurd h List.not_mem_nil⟩
  | cons p positions ih =>
    obtain ⟨hcolumns, hproper⟩ := ih h.tail
    have hlt : ∀ q, .position q ∈ (runs positions).flatMap columns → p < q := by
      intro q hq
      rw [hcolumns] at hq
      obtain ⟨_, hq, ⟨⟩⟩ := List.mem_map.1 hq
      exact List.rel_of_pairwise_cons h hq
    rw [List.map_cons, ← hcolumns]
    exact before_spec hproper hlt

end

end Token

namespace Spec

theorem columns_names (names : List String) :
    (names.map Token.name).flatMap Token.columns = names.map .name := by
  induction names with
  | nil => rfl
  | cons name names ih =>
    rw [List.map_cons, List.map_cons, List.flatMap_cons, ih]
    rfl

/-- **A specification stands for the columns it is made of**: their positions, each once and in
ascending order, and behind them their names in the order they had. -/
theorem columns_ofColumns (columns : List Column) :
    (ofColumns columns).columns =
      (NatSet.ofList (columns.filterMap Column.position?)).toList.map .position ++
        (columns.filterMap Column.name?).map .name := by
  have hruns :=
    (Token.runs_spec (NatSet.ofList (columns.filterMap Column.position?)).ascending).1
  rw [← hruns, ← columns_names]
  exact List.flatMap_append

variable {columns : List Column} {column : Column}

/-- A specification is known by its positions in ascending order. -/
theorem ofColumns_eq (positions : List Nat) (hascending : positions.Pairwise (· < ·))
    (hmem : ∀ n, n ∈ columns.filterMap Column.position? ↔ n ∈ positions) :
    ofColumns columns =
      ⟨Token.runs positions ++ (columns.filterMap Column.name?).map .name⟩ := by
  have hpositions : (NatSet.ofList (columns.filterMap Column.position?)).toList = positions := by
    apply NatSet.eq_of_mem_iff (NatSet.ascending _) hascending
    intro n
    rw [← NatSet.mem_def, NatSet.mem_ofList, hmem]
  rw [ofColumns, Token.ofPositions, hpositions]

theorem mem_columns_ofColumns : column ∈ (ofColumns columns).columns ↔ column ∈ columns := by
  rw [columns_ofColumns, List.mem_append, List.mem_map, List.mem_map]
  simp only [← NatSet.mem_def, NatSet.mem_ofList, List.mem_filterMap,
    Column.position?_eq_some_iff, Column.name?_eq_some_iff, exists_eq_right]
  cases column <;> simp

/-- **No column is lost or named twice** in the specification of columns that are all different. -/
theorem columns_perm (h : columns.Nodup) : (ofColumns columns).columns.Perm columns := by
  refine (List.perm_ext_iff_of_nodup ?_ h).2 fun column => mem_columns_ofColumns
  rw [columns_ofColumns, List.nodup_append]
  refine ⟨?_, ?_, ?_⟩
  · have hascending := (NatSet.ofList (columns.filterMap Column.position?)).ascending
    exact (hascending.imp Nat.ne_of_lt).map _ fun a b hab he => hab (Column.position.inj he)
  · refine (h.filterMap ?_).map fun _ _ => Column.name.inj
    intro a b text ha hb
    exact (Column.name?_eq_some_iff.1 ha).trans (Column.name?_eq_some_iff.1 hb).symm
  · intro a ha b hb
    obtain ⟨n, -, rfl⟩ := List.mem_map.1 ha
    obtain ⟨text, -, rfl⟩ := List.mem_map.1 hb
    exact nofun

end Spec

end ColumnSieve
