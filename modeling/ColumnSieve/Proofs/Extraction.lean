import ColumnSieve.Proofs.Restriction
import ColumnSieve.Proofs.Session

/-!
# What a run extracts

* `Tool.Serves`       — a tool that has a table behind a path, and writes what it extracts of it;
* `Tool.plain_serves` — the tool for plain tables serves the table in a file;
* `run_extracts`      — a run that succeeds has extracted the columns of its identifiers, each once
  and in the order of the table.
-/

namespace ColumnSieve

/-- In the worlds that a tool keeps to, it answers for the target with the header of a table.  An
extraction that succeeds leaves at its destination, for every row of the table, the cells that the
specification names, written in some format.  The tool may fail at any call, and what it answers
for other tables does not matter. -/
structure Tool.Serves {τ : Type} (tool : Tool τ) (Holds : World τ → Prop) (target : Path)
    (delimiter : Char) (table : Table) (format : List (List String) → ByteArray) : Prop
    extends tool.Preserves Holds where
  header_eq : ∀ {world after headers}, Holds world →
    tool.headers target delimiter world = (.ok headers, after) → headers = table.header
  extracts : ∀ {spec destination world after}, Holds world →
    tool.extract target spec delimiter destination world = (.ok (), after) →
      after.files.WellFormed ∧ ∃ rows, table.extract? spec = some rows ∧
        after.files.readFile destination = .ok (format rows)

/-- A plain table stands in a file. -/
def Table.InFile (table : Table) (source : Path) (delimiter : Char) (files : FileTree) : Prop :=
  ∃ text, files.readText source = .ok text ∧ plainRows delimiter text.toList = table.lines

section

variable {τ : Type} {tool : Tool τ} {Holds : World τ → Prop} {table : Table}
  {format : List (List String) → ByteArray} {nonce : UInt64} {queries : List Query}
  {target destination : Path} {options : Options} {world planned after : World τ} {made : Plan}

/-! ## Plain tables -/

theorem Tool.plainTable_of_inFile {source : Path} {delimiter : Char}
    (h : table.InFile source delimiter world.files) :
    plainTable source delimiter world = (.ok table.lines, world) := by
  obtain ⟨text, htext, hrows⟩ := h
  simp only [plainTable, htext, hrows]

theorem Tool.plain_serves (name : String) (target : Path) (delimiter : Char) (table : Table) :
    (plain name : Tool τ).Serves
      (fun world => world.files.WellFormed ∧ table.InFile target delimiter world.files)
      target delimiter table (fun rows => (writeRows rows).toUTF8) where
  toPreserves := plain_preserves name _
  header_eq := by
    rintro world after headers ⟨-, hfile⟩ h
    obtain ⟨rows, between, hrows, h⟩ := Action.bind_eq_ok_iff.1 h
    cases (plainTable_of_inFile hfile).symm.trans hrows
    cases h
    rfl
  extracts := by
    rintro spec destination world after ⟨hwf, hfile⟩ h
    obtain ⟨rows, between, hrows, h⟩ := Action.bind_eq_ok_iff.1 h
    cases (plainTable_of_inFile hfile).symm.trans hrows
    -- what is left is to look up the columns and to write
    have hhead : table.lines.headD [] = table.header := rfl
    rw [hhead] at h
    cases hindices : spec.columns.mapM (columnIndex? table.header) with
    | none =>
      rw [hindices] at h
      cases h
    | some indices =>
      rw [hindices] at h
      dsimp only at h
      split at h
      · rename_i files hwrite
        cases h
        obtain ⟨hreplaces, hafter⟩ := replaces_of_writeFile hwrite
        exact ⟨hafter hwf, _, Option.map_eq_some_iff.2 ⟨indices, hindices, rfl⟩,
          hreplaces.readFile_eq⟩
      · cases h

/-! ## Runs -/

/-- A plan made with such a tool agrees with the header of the table, and the tool keeps to its
worlds. -/
theorem Tool.Serves.plan_spec (serves : tool.Serves Holds target options.delimiter table format)
    (hworld : Holds world) (h : plan tool queries target options world = (.ok made, planned)) :
    Holds planned ∧ made.Agrees table.header options.alwaysInclude ∧
      ∀ name ∈ options.alwaysInclude, name ∈ made.identifiers := by
  have hplanned : Holds planned := (plan_preserves serves.toPreserves _ _ _).after hworld h
  obtain ⟨-, sets, before, headers, selection, hsets, hheaders, hselection, rfl⟩ :=
    plan_eq_ok_iff_stages.1 h
  have hbefore : Holds before :=
    (mapM_selectIdentifiers_preserves serves.toPreserves _ _).after hworld hsets
  obtain rfl := serves.header_eq hbefore hheaders
  refine ⟨hplanned, agrees_of_selection (agrees_of_selectColumns hselection), ?_⟩
  intro name hname
  exact (mem_of_selectColumns hselection name).2 (.inr hname)

/-- **A run that succeeds has extracted the columns of its identifiers.**  At the destination are
all rows of the table, restricted to the first column of each identifier, in the order of the
table.  Every identifier heads one of these columns, and so does every name that is always
included. -/
theorem run_extracts (serves : tool.Serves Holds target options.delimiter table format)
    (hworld : Holds world)
    (h : run tool nonce queries target destination options world = (.ok made, after)) :
    after.files.readFile destination =
        .ok (format (table.restrict made.identifiers).lines) ∧
      (table.restrict made.identifiers).header.Perm made.identifiers ∧
      (∀ name ∈ made.identifiers, (table.restrict made.identifiers).header.count name = 1) ∧
      (table.restrict made.identifiers).header.length = made.identifiers.length ∧
      ∀ name ∈ options.alwaysInclude, name ∈ (table.restrict made.identifiers).header := by
  obtain ⟨planned, left, result, hplan, hextract, hrename, rfl⟩ := run_eq_ok_iff.1 h
  obtain ⟨hplanned, hagrees, halways⟩ := serves.plan_spec hworld hplan
  obtain ⟨hwf, rows, hrows, hread⟩ := serves.extracts hplanned hextract
  obtain ⟨rfl, hin⟩ := Table.eq_restrict_of_extract? hagrees hrows
  have hperm := Table.restrict_perm hagrees.selection_agrees.identifiers_nodup hin
  refine ⟨FileTree.readFile_of_rename hwf hread hrename, hperm, ?_, hperm.length_eq, ?_⟩
  · intro name hname
    exact List.count_eq_one_of_mem Table.nodup_restrict_header (hperm.mem_iff.2 hname)
  · intro name hname
    exact hperm.mem_iff.2 (halways name hname)

end

/-! ## A table that repeats a header -/

def countsTable : Table where
  header := ["gene", "s2", "s1", "s2"]
  rows := [["g1", "7", "4", "9"], ["g2", "5", "0", "1"]]
  rectangular := by decide

/-- The table and its samples in one directory. -/
def countsFiles : FileTree :=
  ⟨["data"], [(["data"], .dir),
    (["data", "samples.csv"], .file "id,tissue\ns1,liver\ns2,lung\n".toUTF8),
    (["data", "counts.csv"], .file "gene,s2,s1,s2\ng1,7,4,9\ng2,5,0,1\n".toUTF8)]⟩

theorem countsTable_inFile : countsTable.InFile ⟨"counts.csv"⟩ ',' countsFiles :=
  ⟨"gene,s2,s1,s2\ng1,7,4,9\ng2,5,0,1\n", by decide +kernel, by decide +kernel⟩

/-- The sample that is selected is also always included. -/
def countsOptions : Options := ⟨false, ',', ',', ["gene", "s2"], .union⟩

def countsPlan : Plan := ⟨["s2", "gene"], [.position 2, .position 1], ⟨[.range 1 2]⟩, 4⟩

theorem plan_of_counts : plan (Tool.plain "csvtk") [Session.lungQuery] ⟨"counts.csv"⟩ countsOptions
    (⟨countsFiles, ()⟩ : World Unit) = (.ok countsPlan, ⟨countsFiles, ()⟩) := by
  have hpositions (n : Nat) :
      n ∈ countsPlan.columns.filterMap Column.position? ↔ n ∈ [1, 2] := by
    show n ∈ [2, 1] ↔ n ∈ [1, 2]
    grind
  have hspec : Spec.ofColumns countsPlan.columns = countsPlan.spec := by
    rw [Spec.ofColumns_eq [1, 2] (by decide) hpositions]
    decide
  have hmade : countsPlan = ⟨countsPlan.identifiers, countsPlan.columns,
      Spec.ofColumns countsPlan.columns, 4⟩ := by
    rw [hspec]
    rfl
  have hselection : selectColumns .union ["gene", "s2"] countsTable.header false [["s2"]] =
      .ok ⟨countsPlan.identifiers, countsPlan.columns⟩ := by
    decide +kernel
  have houtcome : (plan (Tool.plain "csvtk") [Session.lungQuery] ⟨"counts.csv"⟩ countsOptions
      (⟨countsFiles, ()⟩ : World Unit)).1 = .ok countsPlan :=
    congrArg Prod.fst (plan_eq_ok_iff_stages.2 ⟨by decide +kernel, [["s2"]], _, _, _,
      Prod.ext (by decide +kernel) rfl, Prod.ext (by decide +kernel) rfl, hselection, hmade⟩)
  exact Prod.ext houtcome
    (plan_preserves (Tool.plain_preserves "csvtk" (· = ⟨countsFiles, ()⟩)) _ _ _ _ rfl)

/-- The columns are selected in one order and extracted in the other. -/
theorem run_extracts_of_counts :
    ∃ after, run (Tool.plain "csvtk") 7 [Session.lungQuery] ⟨"counts.csv"⟩ ⟨"out.csv"⟩
        countsOptions (⟨countsFiles, ()⟩ : World Unit) = (.ok countsPlan, after) ∧
      after.files.readFile ⟨"out.csv"⟩ = .ok "gene,s2\ng1,7\ng2,5\n".toUTF8 := by
  have hrun : (run (Tool.plain "csvtk") 7 [Session.lungQuery] ⟨"counts.csv"⟩ ⟨"out.csv"⟩
      countsOptions (⟨countsFiles, ()⟩ : World Unit)).1 = .ok countsPlan := by
    rw [run_of_planned plan_of_counts]
    decide +kernel
  have hwritten : (writeRows (countsTable.restrict countsPlan.identifiers).lines).toUTF8 =
      "gene,s2\ng1,7\ng2,5\n".toUTF8 := by
    decide +kernel
  obtain ⟨hread, -⟩ := run_extracts
    (Tool.plain_serves "csvtk" ⟨"counts.csv"⟩ ',' countsTable)
    ⟨by decide +kernel, countsTable_inFile⟩ (Prod.ext hrun rfl)
  exact ⟨_, Prod.ext hrun rfl, hwritten ▸ hread⟩

end ColumnSieve
