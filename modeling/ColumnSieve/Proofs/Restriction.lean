import ColumnSieve.Proofs.Plan.Columns
import ColumnSieve.Tool.Plain

/-!
# Tables restricted to some columns

* `Table.restrict`  — the columns with the given headers, each header once, in the order of the
  table;
* `Table.extract?`  — the cells that a specification names, in the order of its tokens;
* `Table.restrict_perm` — every given header then heads one column, if the table has them all;
* `Table.eq_restrict_of_extract?` — the specification of a plan names the columns that are
  restricted to, or cannot be extracted at all.
-/

namespace ColumnSieve.Table

/-- All rows, with the header in front. -/
def lines (table : Table) : List (List String) := table.header :: table.rows

/-- The indices of the columns that are the first with one of the given headers. -/
def kept (table : Table) (names : List String) : List Nat :=
  (List.range table.header.length).filter fun i =>
    names.any fun name => table.header.idxOf? name == some i

/-- The first columns with the given headers, in the order of the table. -/
def restrict (table : Table) (names : List String) : Table where
  header := extractRow (table.kept names) table.header
  rows := table.rows.map (extractRow (table.kept names))
  rectangular := by simp [extractRow]

/-- For every row, with the header in front, the cells that a specification names; there are none
if a name heads no column. -/
def extract? (table : Table) (spec : Spec) : Option (List (List String)) :=
  (spec.columns.mapM (columnIndex? table.header)).map fun indices =>
    table.lines.map (extractRow indices)

variable {table : Table} {names : List String} {name : String} {i : Nat}

theorem lines_restrict :
    (table.restrict names).lines = table.lines.map (extractRow (table.kept names)) := rfl

theorem getElem?_of_idxOf? (h : table.header.idxOf? name = some i) :
    table.header[i]? = some name := by
  obtain ⟨hi, hname, -⟩ := List.idxOf?_eq_some_iff.1 h
  exact List.getElem?_eq_some_iff.2 ⟨hi, hname⟩

theorem mem_kept : i ∈ table.kept names ↔ ∃ name ∈ names, table.header.idxOf? name = some i := by
  simp only [kept, List.mem_filter, List.mem_range, List.any_eq_true, beq_iff_eq]
  constructor
  · exact And.right
  · rintro ⟨name, hname, hi⟩
    exact ⟨(List.getElem?_eq_some_iff.1 (getElem?_of_idxOf? hi)).1, name, hname, hi⟩

theorem kept_ascending : (table.kept names).Pairwise (· < ·) :=
  List.pairwise_lt_range.filter _

/-! ## Headers of a restricted table -/

theorem mem_restrict_header :
    name ∈ (table.restrict names).header ↔ name ∈ names ∧ name ∈ table.header := by
  simp only [restrict, extractRow, List.mem_map, mem_kept]
  constructor
  · rintro ⟨i, ⟨name, hname, hi⟩, rfl⟩
    have hcell := getElem?_of_idxOf? hi
    rw [hcell, Option.getD_some]
    exact ⟨hname, List.mem_of_getElem? hcell⟩
  · rintro ⟨hname, hin⟩
    obtain ⟨i, hi⟩ := Option.isSome_iff_exists.1 (List.isSome_idxOf?.2 hin)
    exact ⟨i, ⟨name, hname, hi⟩, by rw [getElem?_of_idxOf? hi, Option.getD_some]⟩

theorem nodup_restrict_header : (table.restrict names).header.Nodup := by
  have hdistinct : (table.kept names).Nodup := kept_ascending.imp Nat.ne_of_lt
  refine List.Nodup.map_on ?_ hdistinct
  intro i hi j hj he
  obtain ⟨name, -, hi⟩ := mem_kept.1 hi
  obtain ⟨other, -, hj⟩ := mem_kept.1 hj
  rw [getElem?_of_idxOf? hi, getElem?_of_idxOf? hj, Option.getD_some, Option.getD_some] at he
  exact Option.some.inj (hi.symm.trans (he ▸ hj))

/-- Of a table that has them all, each of the given headers heads one column. -/
theorem restrict_perm (hnodup : names.Nodup) (hin : ∀ name ∈ names, name ∈ table.header) :
    (table.restrict names).header.Perm names := by
  refine (List.perm_ext_iff_of_nodup nodup_restrict_header hnodup).2 fun name => ?_
  rw [mem_restrict_header]
  exact and_iff_left_of_imp (hin name)

/-! ## What the specification of a plan names -/

/-- The column of an identifier is found where its header stands first, or not at all. -/
theorem columnIndex?_columnOf (headers : List String) (identifier : String) :
    columnIndex? headers (columnOf headers identifier) = headers.idxOf? identifier := by
  cases h : headers.idxOf? identifier with
  | some i => simp [columnOf, headerPosition?, columnIndex?, h]
  | none => simp [columnOf, headerPosition?, columnIndex?, h]

section

variable {made : Plan} {alwaysInclude : List String} {indices : List Nat}
  {rows : List (List String)}

/-- A plan whose columns are all found has found the headers of its identifiers. -/
theorem mem_indices_iff (hmade : made.Agrees table.header alwaysInclude)
    (hindices : made.spec.columns.map (columnIndex? table.header) = indices.map some) :
    i ∈ indices ↔ i ∈ table.kept made.identifiers := by
  have hsome : i ∈ indices ↔ some i ∈ made.spec.columns.map (columnIndex? table.header) := by
    simp [hindices]
  rw [hsome, (hmade.spec_perm.map _).mem_iff, hmade.columns_eq, mem_kept]
  simp [columnIndex?_columnOf]

/-- Every identifier of such a plan is a header. -/
theorem mem_header_of_indices (hmade : made.Agrees table.header alwaysInclude)
    (hindices : made.spec.columns.map (columnIndex? table.header) = indices.map some)
    (hname : name ∈ made.identifiers) : name ∈ table.header := by
  have hcolumn : columnOf table.header name ∈ made.columns :=
    hmade.columns_eq ▸ List.mem_map_of_mem hname
  have hfound : table.header.idxOf? name ∈ indices.map some := by
    rw [← hindices, ← columnIndex?_columnOf]
    exact List.mem_map_of_mem (hmade.spec_perm.mem_iff.2 hcolumn)
  obtain ⟨i, -, hi⟩ := List.mem_map.1 hfound
  exact List.mem_of_getElem? (getElem?_of_idxOf? hi.symm)

/-- Positions ascend, and there are no names to stand behind them. -/
theorem indices_ascending (hmade : made.Agrees table.header alwaysInclude)
    (hindices : made.spec.columns.map (columnIndex? table.header) = indices.map some) :
    indices.Pairwise (· < ·) := by
  obtain ⟨positions, hascending, hcolumns⟩ := hmade.spec_ordered
  -- only an identifier that heads no column would stand there by its name
  have hnone : made.columns.filterMap Column.name? = [] := by
    rw [hmade.columns_eq, List.filterMap_eq_nil_iff, List.forall_mem_map]
    intro name hname
    rw [name?_columnOf, if_pos (mem_header_of_indices hmade hindices hname)]
  rw [hnone, List.map_nil, List.append_nil] at hcolumns
  have hbefore : indices = positions.map (· - 1) := by
    apply List.map_injective_iff.2 fun _ _ => Option.some.inj
    rw [← hindices, hcolumns, List.map_map, List.map_map]
    rfl
  have hpos : ∀ n ∈ positions, 1 ≤ n := by
    intro n hn
    have hin : .position n ∈ made.spec.columns := hcolumns ▸ List.mem_map_of_mem hn
    exact (hmade.position_within n (hmade.spec_perm.mem_iff.1 hin)).1
  rw [hbefore, List.pairwise_map]
  refine hascending.imp_of_mem ?_
  intro a b ha _ hlt
  have := hpos a ha
  omega

/-- **What can be extracted of a plan is the table restricted to its identifiers**, which then are
all headers: an identifier that is not stands in the specification by its name. -/
theorem eq_restrict_of_extract? (hmade : made.Agrees table.header alwaysInclude)
    (h : table.extract? made.spec = some rows) :
    rows = (table.restrict made.identifiers).lines ∧
      ∀ name ∈ made.identifiers, name ∈ table.header := by
  obtain ⟨indices, hfound, rfl⟩ := Option.map_eq_some_iff.1 h
  have hindices := Outcome.mapM_eq_some_iff.1 hfound
  have hkept : indices = table.kept made.identifiers :=
    NatSet.eq_of_mem_iff (indices_ascending hmade hindices) kept_ascending fun i =>
      mem_indices_iff hmade hindices
  rw [lines_restrict, hkept]
  exact ⟨rfl, fun name => mem_header_of_indices hmade hindices⟩

end

end ColumnSieve.Table
