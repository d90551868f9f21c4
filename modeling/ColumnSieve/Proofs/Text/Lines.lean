import ColumnSieve.Text.Lines
import Mathlib.Data.List.Basic

/-!
# Texts written one to a line

Texts are written with a line feed behind each of them.  Read as lines, a text is one line for
every line feed it holds and one more, each without a carriage return at its end.

* `unlines`                — some texts, each ended by a line feed;
* `lines_unlines`          — the lines of what is written so;
* `length_lines_unlines`   — their number;
* `getElem?_lines_unlines` — where those of one text stand among them;
* `lines_unlines_eq_iff`   — when the texts are read as they were.
-/

namespace ColumnSieve.Text

/-- Some texts, each ended by a line feed. -/
def unlines (texts : List (List Char)) : List Char := texts.flatMap (· ++ ['\n'])

/-- The number of line feeds that some texts hold. -/
def lineFeeds (texts : List (List Char)) : Nat := texts.flatten.count '\n'

variable {text : List Char} {texts : List (List Char)}

@[simp]
theorem unlines_nil : unlines [] = [] := rfl

theorem unlines_cons (text : List Char) (texts : List (List Char)) :
    unlines (text :: texts) = text ++ '\n' :: unlines texts := by
  simp [unlines]

/-! ## Lines of one text -/

theorem length_splitOn (text : List Char) :
    (text.splitOn '\n').length = text.count '\n' + 1 := by
  induction text with
  | nil => simp
  | cons c text ih =>
    rw [List.splitOn_cons_eq_if_modifyHead]
    by_cases h : c = '\n'
    · simp [h, ih]
    · simp [h, ih]

theorem dropReturn_eq_self_iff : dropReturn text = text ↔ text.getLast? ≠ some '\r' := by
  unfold dropReturn
  split
  · rename_i hlast
    have hshorter : text.dropLast ≠ text := by
      intro hsame
      have hlength := congrArg List.length hsame
      rw [List.length_dropLast] at hlength
      have hnil : text = [] := List.length_eq_zero_iff.1 (by omega)
      simp [hnil] at hlast
    simp [hlast, hshorter]
  · rename_i hlast
    simp [hlast]

/-! ## Lines of some texts -/

theorem splitOn_unlines (texts : List (List Char)) :
    (unlines texts).splitOn '\n' = texts.flatMap (·.splitOn '\n') ++ [[]] := by
  induction texts with
  | nil => simp
  | cons text texts ih =>
    rw [unlines_cons, List.splitOn_append_cons_self, ih, List.flatMap_cons, List.append_assoc]

/-- **Every text is read as the lines it holds.**  Nothing stands behind the last line feed. -/
theorem lines_unlines (texts : List (List Char)) :
    lines (unlines texts) = texts.flatMap fun text => (text.splitOn '\n').map dropReturn := by
  unfold lines
  rw [splitOn_unlines]
  simp [List.map_flatMap]

theorem lines_unlines_cons (text : List Char) (texts : List (List Char)) :
    lines (unlines (text :: texts)) =
      (text.splitOn '\n').map dropReturn ++ lines (unlines texts) := by
  rw [lines_unlines, lines_unlines, List.flatMap_cons]

theorem lines_unlines_append (texts texts' : List (List Char)) :
    lines (unlines (texts ++ texts')) = lines (unlines texts) ++ lines (unlines texts') := by
  simp only [lines_unlines, List.flatMap_append]

theorem length_lines_unlines (texts : List (List Char)) :
    (lines (unlines texts)).length = texts.length + lineFeeds texts := by
  induction texts with
  | nil => rfl
  | cons text texts ih =>
    rw [lines_unlines_cons, List.length_append, List.length_map, length_splitOn, ih]
    simp only [List.length_cons, lineFeeds, List.flatten_cons, List.count_append]
    omega

theorem lineFeeds_pos_iff : 0 < lineFeeds texts ↔ ∃ text ∈ texts, '\n' ∈ text := by
  rw [lineFeeds, List.count_pos_iff, List.mem_flatten]

/-- The lines of a text stand together, moved down by the line feeds in front of it. -/
theorem getElem?_lines_unlines {i n : Nat} {line : List Char} (htext : texts[i]? = some text)
    (hline : (text.splitOn '\n')[n]? = some line) :
    (lines (unlines texts))[i + lineFeeds (texts.take i) + n]? = some (dropReturn line) := by
  obtain ⟨hi, rfl⟩ := List.getElem?_eq_some_iff.1 htext
  have hn : n < ((texts[i].splitOn '\n').map dropReturn).length := by
    rw [List.length_map]
    exact (List.getElem?_eq_some_iff.1 hline).1
  have hfront : i + lineFeeds (texts.take i) = (lines (unlines (texts.take i))).length := by
    rw [length_lines_unlines, List.length_take, Nat.min_eq_left (Nat.le_of_lt hi)]
  have hlines : lines (unlines texts) = lines (unlines (texts.take i)) ++
      ((texts[i].splitOn '\n').map dropReturn ++ lines (unlines (texts.drop (i + 1)))) := by
    rw [← lines_unlines_cons, ← lines_unlines_append, List.getElem_cons_drop, List.take_append_drop]
  rw [hfront, hlines, List.getElem?_append_right (Nat.le_add_right _ _), Nat.add_sub_cancel_left,
    List.getElem?_append_left hn, List.getElem?_map, hline, Option.map_some]

/-- **Texts are read as they were written exactly if none holds a line feed or ends in a carriage
return.** -/
theorem lines_unlines_eq_iff :
    lines (unlines texts) = texts ↔ ∀ text ∈ texts, '\n' ∉ text ∧ text.getLast? ≠ some '\r' := by
  induction texts with
  | nil => simp [lines]
  | cons text texts ih =>
    rw [List.forall_mem_cons, ← ih]
    by_cases hfeed : '\n' ∈ text
    · -- a text that holds a line feed is more than one line, and no line is ever lost
      have hlonger : texts.length + 1 < (lines (unlines (text :: texts))).length := by
        have hpos : 0 < lineFeeds (text :: texts) := lineFeeds_pos_iff.2 ⟨text, by simp, hfeed⟩
        rw [length_lines_unlines, List.length_cons]
        omega
      have hne : lines (unlines (text :: texts)) ≠ text :: texts := by
        intro hsame
        rw [hsame, List.length_cons] at hlonger
        omega
      simp [hfeed, hne]
    · rw [lines_unlines_cons, List.splitOn_eq_singleton hfeed, List.map_singleton,
        List.singleton_append, List.cons.injEq, dropReturn_eq_self_iff]
      simp [hfeed]

end ColumnSieve.Text
