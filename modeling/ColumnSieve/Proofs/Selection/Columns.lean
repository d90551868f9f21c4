import ColumnSieve.Proofs.Column.Runs
import ColumnSieve.Proofs.Distinct
import ColumnSieve.Proofs.Selection.Target
import Mathlib.Data.List.Forall2

/-!
# Which column an identifier names

* `Column.StandsFor`       — a column is the first with a header, or has no header but a name;
* `standsFor_iff`          — each identifier has one such column, and each column one identifier;
* `Selection.Agrees`       — the identifiers of a selection and its columns, side by side;
* `agrees_of_selectColumns` — every selection that is made agrees.
-/

namespace ColumnSieve

/-- By its position, counted from one, the column is the first whose header is the identifier; a
name is the identifier itself, which heads no column. -/
def Column.StandsFor (headers : List String) (identifier : String) : Column → Prop
  | .position n => ∃ i, n = i + 1 ∧ headers[i]? = some identifier ∧
      ∀ j < i, headers[j]? ≠ some identifier
  | .name text => text = identifier ∧ identifier ∉ headers

/-- Side by side stand identifiers and their columns, all of them different.  Only identifiers that
are always included may lack a header. -/
structure Selection.Agrees (selection : Selection) (headers alwaysInclude : List String) :
    Prop where
  ne_nil : selection.identifiers ≠ []
  identifiers_nodup : selection.identifiers.Nodup
  columns_nodup : selection.columns.Nodup
  standFor : List.Forall₂ (fun identifier column => column.StandsFor headers identifier)
    selection.identifiers selection.columns
  mem_of_name : ∀ name, .name name ∈ selection.columns → name ∈ alwaysInclude

section

variable {headers : List String} {identifier other : String} {column : Column}

theorem headerPosition?_eq_some_iff {n : Nat} : headerPosition? headers identifier = some n ↔
    (Column.position n).StandsFor headers identifier := by
  simp only [headerPosition?, Option.map_eq_some_iff, List.idxOf?_eq_some_iff]
  constructor
  · rintro ⟨i, ⟨hi, hhere, hbefore⟩, rfl⟩
    refine ⟨i, rfl, List.getElem?_eq_some_iff.2 ⟨hi, hhere⟩, ?_⟩
    intro j hj hother
    obtain ⟨_, hother⟩ := List.getElem?_eq_some_iff.1 hother
    exact hbefore j hj hother
  · rintro ⟨i, rfl, hhere, hbefore⟩
    obtain ⟨hi, hhere⟩ := List.getElem?_eq_some_iff.1 hhere
    refine ⟨i, ⟨hi, hhere, ?_⟩, rfl⟩
    intro j hj hother
    exact hbefore j hj (List.getElem?_eq_some_iff.2 ⟨Nat.lt_trans hj hi, hother⟩)

theorem headerPosition?_eq_none_iff :
    headerPosition? headers identifier = none ↔ identifier ∉ headers := by
  rw [headerPosition?, Option.map_eq_none_iff, List.idxOf?_eq_none_iff]

/-- Every identifier has one column. -/
theorem standsFor_iff :
    column.StandsFor headers identifier ↔ column = columnOf headers identifier := by
  unfold columnOf
  cases hposition : headerPosition? headers identifier with
  | some n =>
    have hmem : identifier ∈ headers := by
      by_contra hno
      rw [headerPosition?_eq_none_iff.2 hno] at hposition
      cases hposition
    cases column with
    | position m => simp [← headerPosition?_eq_some_iff, hposition, eq_comm]
    | name text => simp [Column.StandsFor, hmem]
  | none =>
    have hmem := headerPosition?_eq_none_iff.1 hposition
    cases column with
    | position m => simp [← headerPosition?_eq_some_iff, hposition]
    | name text => simp [Column.StandsFor, hmem]

/-- Different identifiers have different columns. -/
theorem columnOf_injective (headers : List String) : Function.Injective (columnOf headers) := by
  intro identifier other h
  have hfirst : (columnOf headers identifier).StandsFor headers identifier := standsFor_iff.2 rfl
  have hsecond : (columnOf headers identifier).StandsFor headers other := standsFor_iff.2 h
  cases hcolumn : columnOf headers identifier with
  | position n =>
    rw [hcolumn] at hfirst hsecond
    obtain ⟨i, rfl, hi, -⟩ := hfirst
    obtain ⟨j, hj, hother, -⟩ := hsecond
    obtain rfl := Nat.succ.inj hj
    exact Option.some.inj (hi.symm.trans hother)
  | name text =>
    rw [hcolumn] at hfirst hsecond
    exact hfirst.1.symm.trans hsecond.1

/-- The column of an identifier is a name if the identifier heads none. -/
theorem name?_columnOf : (columnOf headers identifier).name? =
    if identifier ∈ headers then none else some identifier := by
  ext text
  rw [Column.name?_eq_some_iff, eq_comm, ← standsFor_iff]
  by_cases hmem : identifier ∈ headers
  · simp [Column.StandsFor, hmem]
  · simp [Column.StandsFor, hmem, eq_comm]

/-- The columns of a selection that agrees are determined by its identifiers. -/
theorem Selection.Agrees.columns_eq {selection : Selection} {alwaysInclude : List String}
    (h : selection.Agrees headers alwaysInclude) :
    selection.columns = selection.identifiers.map (columnOf headers) := by
  have hall : List.Forall₂ (· = ·) (selection.identifiers.map (columnOf headers))
      selection.columns := by
    rw [List.forall₂_map_left_iff]
    exact h.standFor.imp fun identifier column hstands => (standsFor_iff.1 hstands).symm
  rw [List.forall₂_eq_eq_eq] at hall
  exact hall.symm

end

variable {mode : Mode} {alwaysInclude headers : List String} {ignoreMissing : Bool}
  {sets : List (List String)} {selection : Selection}

/-- **Identifiers and columns never drift apart**, whatever the headers and whatever was
selected. -/
theorem agrees_of_selectColumns
    (h : selectColumns mode alwaysInclude headers ignoreMissing sets = .ok selection) :
    selection.Agrees headers alwaysInclude := by
  obtain ⟨⟨-, -, hpresent⟩, hids, hcolumns⟩ := selectColumns_eq_ok_iff.1 h
  have hmem := mem_of_selectColumns h
  have hnodup : selection.identifiers.Nodup := hids ▸ Distinct.nodup_eraseDups _
  refine ⟨?_, hnodup, ?_, ?_, ?_⟩
  · obtain ⟨id, hid⟩ := List.exists_mem_of_ne_nil _ hpresent
    have hin : id ∈ selection.identifiers := by
      rw [hids, List.mem_eraseDups]
      exact List.mem_append_left _ hid
    exact List.ne_nil_of_mem hin
  · exact hcolumns ▸ hnodup.map (columnOf_injective headers)
  · rw [hcolumns, List.forall₂_map_right_iff, List.forall₂_same]
    exact fun id _ => standsFor_iff.2 rfl
  · intro name hname
    rw [hcolumns] at hname
    obtain ⟨id, hid, hcolumn⟩ := List.mem_map.1 hname
    obtain ⟨rfl, hno⟩ := standsFor_iff.2 hcolumn.symm
    exact ((hmem _).1 hid).resolve_left fun hin => hno hin.2

end ColumnSieve
