import ColumnSieve.Proofs.Action
import ColumnSieve.Proofs.Csv.Written
import ColumnSieve.Proofs.Text.Lines
import ColumnSieve.Tool.Script

/-!
# What is read of the answers of a program

A program prints headers one to a line, and the cells of a column as comma-separated values.

* `Programs.Prints`            — a call that succeeds and prints a text;
* `HeadersFound`               — which headers are read where, and which are broken;
* `external_headers_of_lines`  — so it is with every list of headers;
* `external_values_of_written` — cells are read as they are, whatever they hold.
-/

namespace ColumnSieve

theorem Text.ofBytes_toUTF8 (text : String) : ofBytes text.toUTF8 = text := by
  have hvalid : String.fromUTF8? text.toUTF8 = some text := by
    simp only [String.fromUTF8?, String.toUTF8_eq_toByteArray, dif_pos text.isValidUTF8]
    rfl
  rw [ofBytes, hvalid]

/-- Called with these arguments a program comes to a good end and has printed the text. -/
def Programs.Prints {τ : Type} (programs : Programs τ) (program : String)
    (arguments : List String) (world : World τ) (text : List Char) (after : World τ) : Prop :=
  ∃ stderr, programs program arguments world =
    (.ok ⟨.code 0, (String.ofList text).toUTF8, stderr⟩, after)

namespace Tool

/-! ## Headers -/

/-- The line on which a header starts that is printed behind others, counted from zero. -/
def headerLine (headers : List String) (i : Nat) : Nat :=
  i + Text.lineFeeds ((headers.take i).map String.toList)

/-- What is read of headers that are printed one to a line. -/
structure HeadersFound (headers found : List String) : Prop where
  /-- They are read as they are exactly if none breaks its line. -/
  eq_iff : found = headers ↔
    ∀ header ∈ headers, '\n' ∉ header.toList ∧ header.toList.getLast? ≠ some '\r'
  /-- From its line on stand the lines of a header, each without a carriage return at its end. -/
  on_line : ∀ i n header line, headers[i]? = some header →
    (header.toList.splitOn '\n')[n]? = some line →
    found[headerLine headers i + n]? = some (String.ofList (Text.dropReturn line))
  /-- An empty header is a header like any other. -/
  empty_on_line : ∀ i, headers[i]? = some "" → found[headerLine headers i]? = some ""
  /-- There are more of them exactly if some header holds a line feed. -/
  longer_iff : headers.length < found.length ↔ ∃ header ∈ headers, '\n' ∈ header.toList
  /-- A header has left its position exactly if one in front of it holds a line feed. -/
  moved_iff : ∀ i, i < headerLine headers i ↔ ∃ header ∈ headers.take i, '\n' ∈ header.toList

theorem map_ofList_eq_iff {texts : List (List Char)} {headers : List String} :
    texts.map String.ofList = headers ↔ texts = headers.map String.toList := by
  constructor
  · rintro rfl
    simp
  · rintro rfl
    simp

theorem lineFeeds_headers_pos_iff {headers : List String} :
    0 < Text.lineFeeds (headers.map String.toList) ↔ ∃ header ∈ headers, '\n' ∈ header.toList := by
  rw [Text.lineFeeds_pos_iff]
  simp

theorem headersFound_lines (headers : List String) :
    HeadersFound headers
      ((Text.lines (Text.unlines (headers.map String.toList))).map String.ofList) := by
  have hline : ∀ i n header line, headers[i]? = some header →
      (header.toList.splitOn '\n')[n]? = some line →
      ((Text.lines (Text.unlines (headers.map String.toList))).map String.ofList)[headerLine
        headers i + n]? = some (String.ofList (Text.dropReturn line)) := by
    intro i n header line hheader hn
    have htext : (headers.map String.toList)[i]? = some header.toList := by simp [hheader]
    rw [headerLine, List.map_take, List.getElem?_map, Text.getElem?_lines_unlines htext hn]
    rfl
  constructor
  case eq_iff =>
    rw [map_ofList_eq_iff, Text.lines_unlines_eq_iff]
    simp
  case on_line => exact hline
  case empty_on_line =>
    intro i hheader
    exact hline i 0 "" [] hheader rfl
  case longer_iff =>
    rw [← lineFeeds_headers_pos_iff, List.length_map, Text.length_lines_unlines, List.length_map]
    omega
  case moved_iff =>
    intro i
    rw [← lineFeeds_headers_pos_iff, headerLine]
    omega

section

variable {τ : Type} {programs : Programs τ} {program : String} {arguments : List String}
  {source : Path} {delimiter : Char} {column : String} {world after : World τ} {text : List Char}

theorem execute_of_prints (h : programs.Prints program arguments world text after) :
    execute programs program arguments world = (.ok (String.ofList text), after) := by
  obtain ⟨stderr, hcall⟩ := h
  simp only [execute, hcall, Text.ofBytes_toUTF8, if_true]

theorem headers_of_prints
    (h : programs.Prints program (headerArguments source delimiter) world text after) :
    (external programs program).headers source delimiter world =
      (.ok ((Text.lines text).map String.ofList), after) := by
  dsimp only [external]
  rw [Action.bind_apply, execute_of_prints h]
  dsimp only
  rw [String.toList_ofList]
  rfl

theorem values_of_prints {cells : List (List Char)}
    (h : programs.Prints program (selectArguments source (columnSelector column) delimiter) world
      text after) (hcells : Csv.firstFields text = .ok cells) :
    (external programs program).values source column delimiter world =
      (.ok (cells.map String.ofList), after) := by
  dsimp only [external]
  rw [Action.bind_apply, execute_of_prints h]
  dsimp only
  rw [String.toList_ofList, hcells]
  rfl

/-- **Headers are read as they are printed exactly if none holds a line feed or ends in a carriage
return.**  Empty ones are not lost.  A line feed makes the answer longer than the header row, and
whatever stands behind it is found further down than it belongs. -/
theorem external_headers_of_lines (headers : List String)
    (h : programs.Prints program (headerArguments source delimiter) world
      (Text.unlines (headers.map String.toList)) after) :
    ∃ found, (external programs program).headers source delimiter world = (.ok found, after) ∧
      HeadersFound headers found :=
  ⟨_, headers_of_prints h, headersFound_lines headers⟩

/-- **Cells are read as they are**, in their order and none lost, whatever they hold, however they
are written and whatever the delimiter of the table.  Only the header must not be a byte order mark
and nothing else. -/
theorem external_values_of_written {header : String} {headerForm : List Char}
    {cells : List String} {forms : List (List Char)}
    (hheader : Csv.Written header.toList headerForm) (hmark : headerForm ≠ [Csv.mark])
    (hcells : List.Forall₂ (fun cell form => Csv.Written cell.toList form) cells forms)
    (h : programs.Prints program (selectArguments source (columnSelector column) delimiter) world
      (Text.unlines (headerForm :: forms)) after) :
    (external programs program).values source column delimiter world = (.ok cells, after) := by
  have hwritten : List.Forall₂ Csv.Written (cells.map String.toList) forms :=
    List.forall₂_map_left_iff.2 hcells
  have hfields : Csv.firstFields (Text.unlines (headerForm :: forms)) =
      .ok (cells.map String.toList) := Csv.firstFields_unlines hheader hmark hwritten
  rw [values_of_prints h hfields, map_ofList_eq_iff.2 rfl]

end

/-! ## A program that prints a text -/

/-- The next call prints the text. -/
def printing (text : List Char) : World Script :=
  ⟨⟨[], []⟩, ⟨["xsv"], [⟨.code 0, (String.ofList text).toUTF8, .empty, none⟩], []⟩⟩

/-- The third of these headers is broken in two. -/
def brokenHeaders : List String := ["gene", "", "s\n1", "", "s2\r", "s3"]

theorem external_headers_of_broken :
    ∃ found after, (external Script.play "xsv").headers ⟨"counts.csv"⟩ ','
        (printing (Text.unlines (brokenHeaders.map String.toList))) = (.ok found, after) ∧
      found ≠ brokenHeaders ∧ brokenHeaders.length < found.length ∧
      [found[1]?, found[4]?, found[5]?, found[6]?] = [some "", some "", some "s2", some "s3"] := by
  obtain ⟨after, hprints⟩ : ∃ after, Programs.Prints Script.play "xsv"
      (headerArguments ⟨"counts.csv"⟩ ',')
      (printing (Text.unlines (brokenHeaders.map String.toList)))
      (Text.unlines (brokenHeaders.map String.toList)) after := ⟨_, _, rfl⟩
  obtain ⟨found, hfound, hread⟩ := external_headers_of_lines brokenHeaders hprints
  refine ⟨found, after, hfound, ?_, ?_, ?_⟩
  · rw [ne_eq, hread.eq_iff]
    decide
  · rw [hread.longer_iff]
    decide
  · have hfirst : found[1]? = some "" := hread.empty_on_line 1 rfl
    have hsecond : found[4]? = some "" := hread.empty_on_line 3 rfl
    have hreturn : found[5]? = some "s2" := hread.on_line 4 0 "s2\r" _ rfl rfl
    have hlast : found[6]? = some "s3" := hread.on_line 5 0 "s3" _ rfl rfl
    rw [hfirst, hsecond, hreturn, hlast]

/-- Cells that are empty, hold commas and quotes, or are longer than a line. -/
def remarks : List String := ["", "a,b", "say \"hi\"", "two\r\nlines", "", "plain"]

/-- All but the last have to be in quotes. -/
def remarkForms : List (List Char) :=
  (remarks.dropLast.map fun remark => quoted remark.toList) ++ ["plain".toList]

theorem external_values_of_remarks :
    (∃ after, (external Script.play "xsv").values ⟨"samples.tsv"⟩ "note" '\t'
      (printing (Text.unlines ("\ufeffnote".toList :: remarkForms))) = (.ok remarks, after)) ∧
    String.ofList (Text.unlines ("\ufeffnote".toList :: remarkForms)) =
      "\ufeffnote\n\"\"\n\"a,b\"\n\"say \"\"hi\"\"\"\n\"two\r\nlines\"\n\"\"\nplain\n" := by
  have hheader : Csv.Written "\ufeffnote".toList "\ufeffnote".toList :=
    .bare (by decide) (by simp [Csv.isEnd])
  have hplain : Csv.Written "plain".toList "plain".toList :=
    .bare (by decide) (by simp [Csv.isEnd])
  have hcells : List.Forall₂ (fun cell form => Csv.Written cell.toList form) remarks remarkForms :=
    .cons .inQuotes <| .cons .inQuotes <| .cons .inQuotes <| .cons .inQuotes <| .cons .inQuotes <|
      .cons hplain .nil
  exact ⟨⟨_, external_values_of_written hheader (by decide) hcells ⟨_, rfl⟩⟩, by decide⟩

end Tool

end ColumnSieve
