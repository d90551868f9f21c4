import ColumnSieve.Clause.Parser
import ColumnSieve.Clause.Printer
import ColumnSieve.Proofs.Distinct
import ColumnSieve.Proofs.Text.Marks
import ColumnSieve.Proofs.Text.Parts

/-!
# Values, written and read

The writer puts brackets around values where the reader would otherwise not find them; the
reader drops brackets and repeated values.

* `Separable`              — values that come back when they are written and read;
* `parseValues_valueChars` — they do come back;
* `separable_parseValues`  — and no other values are ever read.
-/

namespace ColumnSieve

/-- A text that looks like a list.  A single bracket is no list: it may not be both. -/
def Bracketed (value : List Char) : Prop :=
  value.head? = some '[' ∧ value.getLast? = some ']'

/-- There is a value, none is named twice, and none of several holds a comma; nor does one that
has to stand in brackets because it looks like a list itself. -/
structure Separable (values : List (List Char)) : Prop where
  ne_nil : values ≠ []
  nodup : values.Nodup
  no_comma : (2 ≤ values.length ∨ ∃ value, values = [value] ∧ Bracketed value) →
    ∀ value ∈ values, ',' ∉ value

/-! ## Brackets -/

section

variable {text inner value : List Char} {values : List (List Char)}

theorem looksListed_iff : looksListed value = true ↔ Bracketed value := by
  simp [looksListed, Bracketed]

theorem unbracket?_eq_some_iff : unbracket? text = some inner ↔ text = '[' :: (inner ++ [']']) := by
  unfold unbracket?
  split
  · rename_i s
    rw [List.cons.injEq]
    constructor
    · intro h
      split at h
      · rename_i hlast
        obtain ⟨init, rfl⟩ := List.getLast?_eq_some_iff.1 hlast
        simpa using h
      · cases h
    · rintro ⟨-, rfl⟩
      simp
  · rename_i hopen
    refine iff_of_false (by simp) ?_
    rintro rfl
    exact hopen _ rfl

theorem unbracket?_listed : unbracket? (listed values) = some ([','].intercalate values) :=
  unbracket?_eq_some_iff.2 rfl

theorem unbracket?_eq_none_iff : unbracket? text = none ↔ ¬ Bracketed text := by
  rw [Option.eq_none_iff_forall_ne_some, ← not_exists]
  simp only [unbracket?_eq_some_iff]
  refine not_congr ⟨?_, ?_⟩
  · rintro ⟨inner, rfl⟩
    exact ⟨rfl, List.getLast?_eq_some_iff.2 ⟨'[' :: inner, rfl⟩⟩
  · rintro ⟨hhead, hlast⟩
    obtain ⟨s, rfl⟩ := List.head?_eq_some_iff.1 hhead
    cases s with
    | nil => simp at hlast
    | cons c s =>
      rw [List.getLast?_cons_cons, List.getLast?_eq_some_iff] at hlast
      obtain ⟨inner, hs⟩ := hlast
      exact ⟨inner, by rw [hs]⟩

/-! ## Reading -/

theorem infix_of_mem_parseValues (h : value ∈ parseValues text) : value <:+: text := by
  unfold parseValues at h
  split at h
  · rename_i inner hinner
    rw [unbracket?_eq_some_iff] at hinner
    have hin : value <:+: inner := Text.infix_of_mem_splitOn (List.mem_eraseDups.1 h)
    rw [hinner]
    exact List.infix_cons (List.infix_append_of_infix_left hin)
  · exact List.mem_singleton.1 h ▸ List.infix_rfl

theorem separable_parseValues (text : List Char) : Separable (parseValues text) := by
  unfold parseValues
  split
  · rename_i inner hinner
    refine ⟨Distinct.eraseDups_ne_nil (List.splitOn_ne_nil _ _), Distinct.nodup_eraseDups _, ?_⟩
    intro _ value hv
    exact Text.not_mem_of_mem_splitOn (List.mem_eraseDups.1 hv)
  · rename_i hbare
    refine ⟨by simp, by simp, ?_⟩
    rintro (hlen | ⟨value, hv, hlisted⟩)
    · simp at hlen
    · cases hv
      exact absurd hlisted (unbracket?_eq_none_iff.1 hbare)

/-! ## Writing -/

/-- A value stands bare only if it is alone and does not look like a list. -/
theorem Clause.valueChars_eq (values : List (List Char)) :
    (∃ value, values = [value] ∧ ¬ Bracketed value ∧ valueChars values = value) ∨
      ((values.length ≠ 1 ∨ ∃ value, values = [value] ∧ Bracketed value) ∧
        valueChars values = listed values) := by
  match values with
  | [] => exact .inr ⟨.inl (by simp), rfl⟩
  | [value] =>
    by_cases h : Bracketed value
    · exact .inr ⟨.inr ⟨value, rfl, h⟩, by simp [valueChars, looksListed_iff.2 h]⟩
    · refine .inl ⟨value, rfl, h, ?_⟩
      rw [← looksListed_iff] at h
      simp [valueChars, h]
  | _ :: _ :: _ => exact .inr ⟨.inl (by simp), rfl⟩

theorem parseValues_valueChars (h : Separable values) :
    parseValues (Clause.valueChars values) = values := by
  obtain ⟨value, rfl, hbare, hchars⟩ | ⟨hlisted, hchars⟩ := Clause.valueChars_eq values
  · rw [hchars, parseValues, unbracket?_eq_none_iff.2 hbare]
  · have hpos := List.length_pos_iff.2 h.ne_nil
    have hsep : ∀ value ∈ values, ',' ∉ value :=
      h.no_comma (hlisted.imp_left fun hlen => by omega)
    rw [hchars, parseValues, unbracket?_listed]
    change (List.splitOn ',' _).eraseDups = values
    rw [List.splitOn_intercalate _ hsep h.ne_nil, Distinct.eraseDups_eq_self h.nodup]

theorem mem_of_mem_valueChars {c : Char} (h : c ∈ Clause.valueChars values) :
    (∃ value ∈ values, c ∈ value) ∨ c = '[' ∨ c = ',' ∨ c = ']' := by
  obtain ⟨value, rfl, -, hchars⟩ | ⟨-, hchars⟩ := Clause.valueChars_eq values
  · rw [hchars] at h
    exact .inl ⟨value, by simp, h⟩
  · rw [hchars, listed, List.mem_cons, List.mem_append, Text.mem_intercalate_iff] at h
    rcases h with h | (h | h) | h
    · exact .inr (.inl h)
    · exact .inl h
    · exact .inr (.inr (.inl h.1))
    · exact .inr (.inr (.inr (List.mem_singleton.1 h)))

/-- Writing values side by side does not make an unequal sign where no value holds one. -/
theorem unequal_infix_of_valueChars (h : ['!', '='] <:+: Clause.valueChars values) :
    ∃ value ∈ values, ['!', '='] <:+: value := by
  obtain ⟨value, rfl, -, hchars⟩ | ⟨-, hchars⟩ := Clause.valueChars_eq values
  · rw [hchars] at h
    exact ⟨value, by simp, h⟩
  · rw [hchars, listed, Text.pair_infix_cons_iff, Text.pair_infix_append_iff,
      Text.pair_infix_intercalate_iff (by decide) (by decide)] at h
    have hclose : ¬ ['!', '='] <:+: [']'] := by
      intro h
      simpa using h.length_le
    simpa [hclose] using h

end

end ColumnSieve
