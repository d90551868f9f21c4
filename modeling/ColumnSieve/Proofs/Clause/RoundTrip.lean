import ColumnSieve.Proofs.Clause.Segments
import ColumnSieve.Proofs.Clause.Values
import ColumnSieve.Proofs.Outcome
import Mathlib.Tactic.TFAE

/-!
# Clauses, written and read

A chain is cut at its signs, a clause at its comparator and values at their commas.  What is
read back is what was written if none of these marks stands where the writer did not put it.

* `Clause.Canonical`           — that condition on the parts of a clause;
* `ofSegment_chars`            — a canonical clause is read back from its text;
* `canonical_of_ofSegment`     — only canonical clauses are read;
* `parse_renderChain_tfae`     — so canonical chains are those that are read from any text, and
  those that are read back from their own.
-/

namespace ColumnSieve

/-- The comparator is the one that a reader finds: an equal sign only if the whole text holds no
unequal sign, and each only at its first place. -/
def Comparator.FoundBetween (comparator : Comparator) (column : List Char)
    (values : List (List Char)) : Prop :=
  match comparator with
  | .notEqual => ¬ ['!', '='] <:+: column
  | .equal => '=' ∉ column ∧ column.getLast? ≠ some '!' ∧
      ∀ value ∈ values, ¬ ['!', '='] <:+: value

/-- The parts of a clause can be told apart in its text. -/
structure Clause.Canonical (clause : Clause) : Prop where
  column_ne_empty : clause.column ≠ ""
  column_signFree : SignFree clause.column.toList
  values_signFree : ∀ value ∈ clause.values, SignFree value.toList
  comparator_found :
    clause.comparator.FoundBetween clause.column.toList (clause.values.map String.toList)
  values_separable : Separable (clause.values.map String.toList)

/-! ## Comparators -/

section

variable {body column text : List Char} {comparator : Comparator}

/-- Which values stand behind the comparator counts only for the unequal signs in them. -/
theorem Comparator.FoundBetween.of_values {values values' : List (List Char)}
    (h : comparator.FoundBetween column values)
    (hvalues : ∀ value' ∈ values', ['!', '='] <:+: value' →
      ∃ value ∈ values, ['!', '='] <:+: value) :
    comparator.FoundBetween column values' := by
  cases comparator with
  | notEqual => exact h
  | equal =>
    obtain ⟨heq, hlast, hmark⟩ := h
    refine ⟨heq, hlast, ?_⟩
    intro value' hv' hin
    obtain ⟨value, hv, hin⟩ := hvalues value' hv' hin
    exact hmark value hv hin

/-- A text is cut at the first unequal sign or, where there is none, at the first equal sign. -/
theorem cutComparator?_eq_some_iff : cutComparator? body = some (column, comparator, text) ↔
    body = column ++ comparator.symbol ++ text ∧ comparator.FoundBetween column [text] := by
  have hcut : cutComparator? body = some (column, comparator, text) ↔
      match comparator with
      | .notEqual => Text.cutAt? ['!', '='] body = some (column, text)
      | .equal => Text.cutAt? ['!', '='] body = none ∧
          Text.cutAt? ['='] body = some (column, text) := by
    unfold cutComparator? Comparator.symbol
    cases Text.cutAt? ['!', '='] body with
    | some parts => cases comparator <;> simp [Prod.ext_iff]
    | none =>
      cases Text.cutAt? ['='] body with
      | some parts => cases comparator <;> simp [Prod.ext_iff]
      | none => cases comparator <;> simp
  have hshort (c : Char) : ¬ ['!', '='] <:+: [c] := by
    intro h
    simpa using h.length_le
  rw [hcut]
  cases comparator with
  | notEqual =>
    have hseam : ['!', '='] <:+: column ++ ['!'] ↔ ['!', '='] <:+: column := by
      simp [Text.pair_infix_append_iff, hshort]
    simp [Text.cutAt?_eq_some_iff, Comparator.FoundBetween, Comparator.symbol, hseam]
  | equal =>
    have hseam : ['!', '='] <:+: column ++ ['='] ++ text ↔
        ['!', '='] <:+: column ∨ column.getLast? = some '!' ∨ ['!', '='] <:+: text := by
      rw [List.append_assoc, Text.pair_infix_append_iff, List.singleton_append,
        Text.pair_infix_cons_iff]
      simp only [Char.reduceEq, false_and, false_or, List.head?_cons, and_true]
      exact or_congr_right or_comm
    have hsub : ['!', '='] <:+: column → '=' ∈ column := by
      intro h
      exact h.subset (by simp)
    dsimp only
    rw [Text.cutAt?_eq_none_iff, Text.cutAt?_eq_some_iff (by simp), List.dropLast_singleton,
      List.append_nil, List.singleton_infix_iff]
    simp only [Comparator.FoundBetween, Comparator.symbol, List.forall_mem_singleton]
    constructor
    · rintro ⟨hno, rfl, heq⟩
      rw [hseam, not_or, not_or] at hno
      exact ⟨rfl, heq, hno.2⟩
    · rintro ⟨rfl, heq, hlast, htext⟩
      refine ⟨?_, rfl, heq⟩
      rw [hseam]
      rintro (h | h | h)
      · exact heq (hsub h)
      · exact hlast h
      · exact htext h

end

/-! ## One clause -/

section

variable {clause : Clause} {segment : List Char}

theorem Clause.ofSegment_eq_ok_iff : ofSegment segment = .ok clause ↔
    ∃ sign body text, segment = sign :: body ∧ Combinator.ofSign? sign = some clause.combinator ∧
      cutComparator? body = some (clause.column.toList, clause.comparator, text) ∧
      clause.column ≠ "" ∧ clause.values = (parseValues text).map String.ofList := by
  obtain ⟨combinator, column, comparator, values⟩ := clause
  unfold ofSegment
  constructor
  · intro h
    split at h
    · cases h
    · rename_i found hsign
      obtain ⟨sign, hhead, hfound⟩ := Option.bind_eq_some_iff.1 hsign
      obtain ⟨body, rfl⟩ := List.head?_eq_some_iff.1 hhead
      split at h
      · cases h
      · cases h
      · rename_i chars comparator' text hne hcut
        cases h
        refine ⟨sign, body, text, rfl, hfound, by simpa using hcut, ?_, rfl⟩
        intro hempty
        rw [String.ofList_eq_empty_iff] at hempty
        exact hne hempty
  · rintro ⟨sign, body, text, rfl, hsign, hcut, hne, rfl⟩
    simp only [List.head?_cons, Option.bind_some, hsign, List.tail_cons, hcut]
    cases hchars : column.toList with
    | nil => exact absurd (String.toList_eq_nil_iff.1 hchars) hne
    | cons c chars => simp [← hchars]

/-- **A canonical clause is read back from its text.** -/
theorem Clause.ofSegment_chars (h : clause.Canonical) : ofSegment clause.chars = .ok clause := by
  refine ofSegment_eq_ok_iff.2 ⟨_, _, valueChars (clause.values.map String.toList), rfl,
    Combinator.ofSign?_sign _, cutComparator?_eq_some_iff.2 ⟨rfl, ?_⟩, h.column_ne_empty, ?_⟩
  · exact h.comparator_found.of_values
      (List.forall_mem_singleton.2 fun hin => unequal_infix_of_valueChars hin)
  · rw [parseValues_valueChars h.values_separable]
    simp

/-- **Only canonical clauses are read**, from a segment that holds no second sign. -/
theorem Clause.canonical_of_ofSegment (hfree : SignFree segment.tail)
    (h : ofSegment segment = .ok clause) : clause.Canonical := by
  obtain ⟨sign, body, text, rfl, -, hcut, hne, hvalues⟩ := ofSegment_eq_ok_iff.1 h
  obtain ⟨rfl, hfound⟩ := cutComparator?_eq_some_iff.1 hcut
  have hchars : clause.values.map String.toList = parseValues text := by
    simp [hvalues]
  have hcolumn : SignFree clause.column.toList :=
    hfree.of_infix (List.infix_append_of_infix_left List.infix_append_left)
  have htext : SignFree text := hfree.of_infix List.infix_append_right
  refine ⟨hne, hcolumn, ?_, ?_, hchars ▸ separable_parseValues text⟩
  · intro value hv
    have hmem : value.toList ∈ parseValues text := hchars ▸ List.mem_map_of_mem hv
    exact htext.of_infix (infix_of_mem_parseValues hmem)
  · rw [hchars]
    apply hfound.of_values
    intro value hv hin
    exact ⟨text, List.mem_singleton_self _, hin.trans (infix_of_mem_parseValues hv)⟩

theorem Clause.signFree_chars_tail (h : clause.Canonical) : SignFree clause.chars.tail := by
  rw [signFree_iff]
  intro c hc
  simp only [chars, List.tail_cons, List.mem_append] at hc
  rcases hc with (hc | hc) | hc
  · exact signFree_iff.1 h.column_signFree c hc
  · exact Comparator.isSign_of_mem_symbol hc
  · rcases mem_of_mem_valueChars hc with ⟨value, hv, hcv⟩ | rfl | rfl | rfl
    · obtain ⟨text, ht, rfl⟩ := List.mem_map.1 hv
      exact signFree_iff.1 (h.values_signFree text ht) c hcv
    · rfl
    · rfl
    · rfl

end

/-! ## Chains -/

section

variable {clauses : List Clause} {chain : List Char}

theorem Clause.parseChars_eq_ok_iff : parseChars chain = .ok clauses ↔
    chain ≠ [] ∧ (segments chain).mapM ofSegment = .ok clauses := by
  cases chain with
  | nil => simp [parseChars]
  | cons c chain => simp [parseChars]

theorem Clause.canonical_of_parseChars (h : parseChars chain = .ok clauses) :
    clauses ≠ [] ∧ ∀ clause ∈ clauses, clause.Canonical := by
  obtain ⟨hne, hread⟩ := parseChars_eq_ok_iff.1 h
  constructor
  · rintro rfl
    have hnil := List.forall₂_nil_right_iff.1 (Outcome.mapM_eq_ok_iff.1 hread)
    exact hne (List.splitBy_eq_nil.1 hnil)
  · intro clause hmem
    obtain ⟨segment, hseg, hread⟩ := (Outcome.mem_iff_of_mapM hread).1 hmem
    exact canonical_of_ofSegment (signFree_tail_of_mem_segments hseg) hread

theorem Clause.parseChars_flatMap_chars (hne : clauses ≠ [])
    (h : ∀ clause ∈ clauses, clause.Canonical) :
    parseChars (clauses.flatMap chars) = .ok clauses := by
  have hcut : segments (clauses.map chars).flatten = clauses.map chars := by
    apply segments_flatten
    intro part hpart
    obtain ⟨clause, hmem, rfl⟩ := List.mem_map.1 hpart
    exact ⟨_, _, rfl, isSign_sign _, signFree_chars_tail (h clause hmem)⟩
  rw [parseChars_eq_ok_iff, List.flatMap_def, hcut]
  constructor
  · obtain ⟨clause, clauses, rfl⟩ := List.exists_cons_of_ne_nil hne
    simp [chars]
  · rw [Outcome.mapM_eq_ok_iff, List.forall₂_map_left_iff, List.forall₂_same]
    intro clause hmem
    exact ofSegment_chars (h clause hmem)

theorem Clause.parse_eq_ok_iff {text : String} :
    parse text = .ok clauses ↔ parseChars text.toList = .ok clauses := by
  unfold parse
  cases parseChars text.toList with
  | error e => simp [Except.mapError]
  | ok found => simp [Except.mapError]

/-- **Exact round trip of chains.**  The chains that some text stands for are those that are read
back from the text they are written as, and those whose clauses are all canonical. -/
theorem parse_renderChain_tfae (clauses : List Clause) :
    List.TFAE [∃ text, Clause.parse text = .ok clauses,
      Clause.parse (Clause.renderChain clauses) = .ok clauses,
      clauses ≠ [] ∧ ∀ clause ∈ clauses, clause.Canonical] := by
  tfae_have 1 → 3
  | ⟨text, h⟩ => Clause.canonical_of_parseChars (Clause.parse_eq_ok_iff.1 h)
  tfae_have 3 → 2
  | ⟨hne, h⟩ => by
    rw [Clause.parse_eq_ok_iff, Clause.renderChain, String.toList_ofList]
    exact Clause.parseChars_flatMap_chars hne h
  tfae_have 2 → 1
  | h => ⟨_, h⟩
  tfae_finish

end

end ColumnSieve
