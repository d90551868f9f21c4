import Mathlib.Data.List.Basic

/-!
# Texts in parts

A text that is cut at a separator, and parts that are joined with one between them.

* `not_mem_of_mem_splitOn`, `infix_of_mem_splitOn` — the parts of a text;
* `mem_intercalate_iff`, `infix_intercalate`       — the text of some parts;
* `intercalate_concat`                             — one part more at the end.
-/

namespace ColumnSieve.Text

variable {sep : Char} {text : List Char}

/-! ## Joining -/

theorem mem_intercalate_iff {c : Char} {parts : List (List Char)} :
    c ∈ [sep].intercalate parts ↔ (∃ part ∈ parts, c ∈ part) ∨ (c = sep ∧ 2 ≤ parts.length) := by
  induction parts with
  | nil => simp
  | cons part parts ih =>
    cases parts with
    | nil => simp
    | cons next parts =>
      rw [List.intercalate_cons_cons, List.mem_append, List.mem_append, ih]
      simp only [List.mem_singleton, List.exists_mem_cons_iff, List.length_cons]
      grind

theorem infix_intercalate {part : List Char} {parts : List (List Char)} (h : part ∈ parts) :
    part <:+: [sep].intercalate parts := by
  induction parts with
  | nil => simp at h
  | cons first parts ih =>
    cases parts with
    | nil =>
      rw [List.mem_singleton] at h
      simp [h]
    | cons next parts =>
      rw [List.intercalate_cons_cons, List.append_assoc]
      rcases List.mem_cons.1 h with rfl | h
      · exact List.infix_append_left
      · exact List.infix_append_of_infix_right (List.infix_append_of_infix_right (ih h))

theorem intercalate_concat {parts : List (List Char)} (h : parts ≠ []) (last : List Char) :
    [sep].intercalate (parts ++ [last]) = [sep].intercalate parts ++ sep :: last := by
  induction parts with
  | nil => exact absurd rfl h
  | cons part parts ih =>
    cases parts with
    | nil => simp
    | cons next parts =>
      rw [List.cons_append, List.cons_append, List.intercalate_cons_cons,
        List.intercalate_cons_cons, ← List.cons_append, ih (by simp)]
      simp

/-! ## Cutting -/

theorem not_mem_of_mem_splitOn {sep : Char} {part : List Char} (h : part ∈ text.splitOn sep) :
    sep ∉ part := by
  induction text generalizing part with
  | nil => simp_all
  | cons c text ih =>
    rw [List.splitOn_cons_eq_if_modifyHead] at h
    split at h
    · rcases List.mem_cons.1 h with rfl | h
      · simp
      · exact ih h
    · rename_i hc
      cases hs : text.splitOn sep with
      | nil => exact absurd hs (List.splitOn_ne_nil _ _)
      | cons first rest =>
        rw [hs, List.modifyHead_cons] at h
        rcases List.mem_cons.1 h with rfl | h
        · have hfirst : sep ∉ first := ih (hs ▸ List.mem_cons_self)
          have hne : sep ≠ c := by
            rintro rfl
            exact hc (by simp)
          simp [hne, hfirst]
        · exact ih (hs ▸ List.mem_cons_of_mem _ h)

theorem infix_of_mem_splitOn {sep : Char} {part : List Char} (h : part ∈ text.splitOn sep) :
    part <:+: text := by
  have hin : part <:+: [sep].intercalate (text.splitOn sep) := infix_intercalate h
  rwa [List.intercalate_splitOn] at hin

/-- The last part, if it holds anything, ends the text; an empty one stands behind a separator. -/
theorem getLast?_of_splitOn {parts : List (List Char)} {last : List Char}
    (h : text.splitOn sep = parts ++ [last]) :
    text.getLast? = if last ≠ [] then last.getLast? else if parts ≠ [] then some sep else none := by
  have htext : [sep].intercalate (text.splitOn sep) = text := List.intercalate_splitOn sep
  rw [h] at htext
  by_cases hparts : parts = []
  · subst hparts
    rw [← htext]
    cases last <;> simp
  · rw [intercalate_concat hparts] at htext
    rw [← htext]
    cases last with
    | nil => simp [hparts]
    | cons c last => simp [List.getLast?_cons]

end ColumnSieve.Text
