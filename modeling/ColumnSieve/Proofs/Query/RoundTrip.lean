import ColumnSieve.Proofs.Clause.RoundTrip
import ColumnSieve.Proofs.FileTree.Canonical
import ColumnSieve.Proofs.Query.Split
import ColumnSieve.Query.Reader

/-!
# Queries, written and read

A path that ends in a backslash cannot be written.  No query that is read has such a source: a
file is found under its own name, and the path that was read does not end in a backslash.

* `getLast?_of_resolveSource` — a source ends as the path does that leads to it;
* `read_render`               — a query is read back from its text.
-/

namespace ColumnSieve.Query

/-! ## The source -/

section

variable {env : Environment} {files : FileTree} {path : List Char} {source : Path}

/-- A path that does not end in a backslash does not when its `~/` is expanded either. -/
theorem getLast?_expandHome (hlast : path.getLast? ≠ some '\\') :
    (expandHome env path).chars.getLast? ≠ some '\\' := by
  unfold expandHome
  split
  · rename_i rest home hhome
    apply Path.getLast?_join (by decide)
    rw [Path.chars, String.toList_ofList]
    intro hrest
    apply hlast
    rw [List.getLast?_cons, List.getLast?_cons, hrest]
    rfl
  · rwa [Path.chars, String.toList_ofList]

/-- An absolute path does not start in the user's own directory. -/
theorem expandHome_of_absolute {p : Path} (habs : p.isAbsolute = true) :
    expandHome env p.chars = p := by
  unfold expandHome
  split
  · rename_i rest home hpath hhome
    rw [Path.isAbsolute, hpath] at habs
    cases habs
  · rw [Path.chars, String.ofList_toList]

theorem resolveSource_eq_ok_iff : resolveSource env files path = .ok source ↔
    files.canonicalize (expandHome env path) = .ok source ∧ files.isFile source = true := by
  unfold resolveSource
  dsimp only
  cases files.canonicalize (expandHome env path) with
  | error e => simp
  | ok resolved =>
    dsimp only
    rw [Except.ok.injEq]
    constructor
    · intro h
      split at h
      · rename_i hfile
        cases h
        exact ⟨rfl, hfile⟩
      · cases h
    · rintro ⟨rfl, hfile⟩
      rw [if_pos hfile]

/-- The last character of a file's absolute path is that of any path that leads to the file. -/
theorem getLast?_of_resolveSource (h : files.WellFormed)
    (hsource : resolveSource env files path = .ok source) :
    source.chars.getLast? = (expandHome env path).chars.getLast? := by
  obtain ⟨hcanon, hfile⟩ := resolveSource_eq_ok_iff.1 hsource
  obtain ⟨loc, content, hwalk, hnode, -, rfl⟩ := FileTree.exists_of_canonicalize h hcanon hfile
  obtain ⟨dir, front, last, rfl, hnames⟩ := FileTree.exists_name_of_walk h hwalk hnode
  have hthere : files.node? (dir ++ [String.ofList last]) ≠ none := by
    rw [hnode]
    simp
  have hlast : last ≠ [] := by
    rintro rfl
    exact (h.isName hthere).ne_empty rfl
  have hsame : (FileTree.pathOf (dir ++ [String.ofList last])).names =
      ([] :: dir.map String.toList) ++ [last] := by
    rw [FileTree.names_pathOf (by simp) fun name hname => (h.isName_of_mem hthere hname).no_slash]
    simp
  rw [Text.getLast?_of_splitOn hsame, Text.getLast?_of_splitOn hnames, if_pos hlast, if_pos hlast]

/-- A source that has been found is found again under its own path. -/
theorem resolveSource_source (h : files.WellFormed)
    (hsource : resolveSource env files path = .ok source) :
    resolveSource env files source.chars = .ok source := by
  obtain ⟨hcanon, hfile⟩ := resolveSource_eq_ok_iff.1 hsource
  obtain ⟨loc, content, -, hnode, hshort, rfl⟩ := FileTree.exists_of_canonicalize h hcanon hfile
  rw [resolveSource_eq_ok_iff, expandHome_of_absolute (FileTree.isAbsolute_pathOf loc)]
  exact ⟨FileTree.canonicalize_pathOf h (by rw [hnode]; simp) hshort, hfile⟩

end

/-! ## Whole queries -/

section

variable {env : Environment} {files : FileTree} {raw : String} {query : Query}

/-- What a query that is read is made of. -/
theorem read_eq_ok_iff : read env files raw = .ok query ↔
    query.raw = raw ∧ ∃ path chain,
      split? raw.toList = some (path, query.idColumn.toList, chain) ∧
      Clause.parseChars chain = .ok query.clauses ∧
      resolveSource env files path = .ok query.source := by
  unfold read
  constructor
  · intro h
    split at h
    · cases h
    · rename_i path column chain hsplit
      split at h
      · cases h
      · rename_i clauses hclauses
        split at h
        · cases h
        · rename_i source hsource
          cases h
          exact ⟨rfl, path, chain, by rw [hsplit, String.toList_ofList], hclauses, hsource⟩
  · rintro ⟨rfl, path, chain, hsplit, hclauses, hsource⟩
    rw [hsplit]
    dsimp only
    rw [hclauses]
    dsimp only
    rw [hsource, String.ofList_toList]

/-- The text of a query is cut into the parts that it was put together from. -/
theorem split?_chars (hsource : query.source.chars.getLast? ≠ some '\\')
    (hpath : query.source.chars ≠ []) (hcolumn : query.idColumn ≠ "")
    (hfree : SignFree query.idColumn.toList) (hclauses : query.clauses ≠ []) :
    split? query.chars =
      some (query.source.chars, query.idColumn.toList, query.clauses.flatMap Clause.chars) := by
  refine split?_eq_some_iff.2 ⟨splitPath?_escapePath hsource, hpath, ?_, hfree, ?_⟩
  · rwa [ne_eq, String.toList_eq_nil_iff]
  · obtain ⟨clause, clauses, hcons⟩ := List.exists_cons_of_ne_nil hclauses
    rw [hcons, List.flatMap_cons]
    exact ⟨_, _, rfl, isSign_sign clause.combinator⟩

/-- A query that has been read is read again from its text, and only the text differs. -/
theorem read_render_eq (h : files.WellFormed) (hread : read env files raw = .ok query) :
    read env files query.render = .ok { query with raw := query.render } := by
  obtain ⟨-, path, chain, hsplit, hclauses, hsource⟩ := read_eq_ok_iff.1 hread
  obtain ⟨hraw, -, hcolumn, hfree, -⟩ := split?_eq_some_iff.1 hsplit
  obtain ⟨hne, hcanonical⟩ := Clause.canonical_of_parseChars hclauses
  have hlast : query.source.chars.getLast? ≠ some '\\' := by
    rw [getLast?_of_resolveSource h hsource]
    exact getLast?_expandHome (getLast?_of_splitPath? hraw)
  have hpath : query.source.chars ≠ [] := by
    intro hnil
    have habs := FileTree.isAbsolute_of_canonicalize (resolveSource_eq_ok_iff.1 hsource).1
    rw [Path.isAbsolute, hnil] at habs
    cases habs
  have hcut : split? query.chars = some (query.source.chars, query.idColumn.toList,
      query.clauses.flatMap Clause.chars) :=
    split?_chars hlast hpath (mt String.toList_eq_nil_iff.2 hcolumn) hfree hne
  have hreread := Clause.parseChars_flatMap_chars hne hcanonical
  have hfound := resolveSource_source h hsource
  refine read_eq_ok_iff.2 ⟨rfl, _, _, ?_, hreread, hfound⟩
  rw [render, String.toList_ofList]
  exact hcut

/-- **Round trip of queries.**  Whatever text a query is read from, its own text is read as a
query with the same source, identifier column and clauses, and so with the same text. -/
theorem read_render (env : Environment) (files : FileTree) (raw : String) (query : Query)
    (h : files.WellFormed) (hread : read env files raw = .ok query) :
    ∃ query', read env files query.render = .ok query' ∧ query'.source = query.source ∧
      query'.idColumn = query.idColumn ∧ query'.clauses = query.clauses ∧
      query'.render = query.render :=
  ⟨_, read_render_eq h hread, rfl, rfl, rfl, rfl⟩

end

/-- A table whose name holds an at sign with a backslash before it. -/
def markedFiles : FileTree :=
  ⟨["tmp"], [(["tmp"], .dir), (["home"], .dir), (["home", "a\\@b.csv"], .file "id@1,n\n".toUTF8)]⟩

def markedEnvironment : Environment := ⟨[("HOME", "/home")], fun _ => ""⟩

/-- The backslash of the name is followed by the one that escapes the at sign. -/
def markedRaw : String := "~/a\\\\@b.csv@id@1|kind=[x,x,y]&n!=[2]"

def markedQuery : Query :=
  ⟨markedRaw, ⟨"/home/a\\@b.csv"⟩, "id@1",
    [⟨.union, "kind", .equal, ["x", "y"]⟩, ⟨.intersect, "n", .notEqual, ["2"]⟩]⟩

theorem read_render_of_marked :
    markedFiles.WellFormed ∧ read markedEnvironment markedFiles markedRaw = .ok markedQuery ∧
      ∃ query', read markedEnvironment markedFiles "/home/a\\\\@b.csv@id@1?kind=[x,y]&n!=2" =
          .ok query' ∧ query'.source = markedQuery.source ∧
        query'.idColumn = markedQuery.idColumn ∧ query'.clauses = markedQuery.clauses ∧
        query'.render = markedQuery.render := by
  have hwf : markedFiles.WellFormed := by decide +kernel
  have hread : read markedEnvironment markedFiles markedRaw = .ok markedQuery := by decide +kernel
  have hrender : markedQuery.render = "/home/a\\\\@b.csv@id@1?kind=[x,y]&n!=2" := by
    decide +kernel
  refine ⟨hwf, hread, ?_⟩
  rw [← hrender]
  exact read_render markedEnvironment markedFiles markedRaw markedQuery hwf hread

end ColumnSieve.Query
