import ColumnSieve.Text.Cut
import Mathlib.Data.List.Basic

/-!
# Where a mark stands in a text

* `cutAt?_eq_some_iff`  — a text is cut at the first place where the mark stands;
* `cutAt?_eq_none_iff`  — and is not cut if the mark stands nowhere;
* `CutAtFirst`          — the same said of the texts alone (`cutAt?_eq_some_iff_first`);
* `pair_infix_append_iff`, `pair_infix_intercalate_iff` — a mark of two characters stands in
  one of the parts of a text, or across the seam of two.
-/

namespace ColumnSieve.Text

/-! ## The first place -/

theorem isPrefixOf?_eq_some_iff : ∀ {mark s rest : List Char},
    mark.isPrefixOf? s = some rest ↔ mark ++ rest = s
  | [], s, rest => by
    change some s = some rest ↔ rest = s
    rw [Option.some.injEq, eq_comm]
  | _ :: _, [], rest => by
    change none = some rest ↔ _
    simp
  | m :: mark, c :: s, rest => by
    change (if m == c then mark.isPrefixOf? s else none) = some rest ↔ _
    by_cases h : m = c
    · simp [h, isPrefixOf?_eq_some_iff]
    · simp [h]

theorem isPrefixOf?_eq_none_iff {mark s : List Char} :
    mark.isPrefixOf? s = none ↔ ¬ mark <+: s := by
  rw [Option.eq_none_iff_forall_ne_some]
  simp only [ne_eq, isPrefixOf?_eq_some_iff]
  constructor
  · rintro h ⟨rest, hr⟩
    exact h rest hr
  · intro h rest hr
    exact h ⟨rest, hr⟩

variable {mark s before after : List Char}

theorem cutAt?_eq_none_iff : cutAt? mark s = none ↔ ¬ mark <:+: s := by
  induction s with
  | nil => simp [cutAt?]
  | cons c s ih =>
    rw [cutAt?, List.infix_cons_iff, not_or, ← ih, ← isPrefixOf?_eq_none_iff]
    cases mark.isPrefixOf? (c :: s) with
    | some rest => simp
    | none =>
      cases cutAt? mark s with
      | none => simp
      | some parts => simp

/-- Either the mark stands in front, or the text behind the first character is cut. -/
theorem cutAt?_cons_eq_some_iff {c : Char} : cutAt? mark (c :: s) = some (before, after) ↔
    (before = [] ∧ mark ++ after = c :: s) ∨
      (¬ mark <+: c :: s ∧ ∃ rest, before = c :: rest ∧ cutAt? mark s = some (rest, after)) := by
  rw [cutAt?, ← isPrefixOf?_eq_none_iff, ← isPrefixOf?_eq_some_iff]
  cases mark.isPrefixOf? (c :: s) with
  | some rest => simp [eq_comm]
  | none =>
    cases cutAt? mark s with
    | none => simp
    | some parts => simp [Prod.ext_iff, eq_comm]

/-- The mark stands between the two parts, and nowhere before. -/
theorem cutAt?_eq_some_iff (hmark : mark ≠ []) : cutAt? mark s = some (before, after) ↔
    s = before ++ mark ++ after ∧ ¬ mark <:+: before ++ mark.dropLast := by
  have hlen : mark.dropLast.length + 1 = mark.length := by
    have := List.length_pos_iff.2 hmark
    rw [List.length_dropLast]
    omega
  -- whatever stands in front of the last character of the mark stands in front of `after` too
  have hfront (front : List Char) : front ++ mark.dropLast <+: front ++ mark ++ after :=
    List.IsPrefix.trans ((List.prefix_append_right_inj front).2 (List.dropLast_prefix mark))
      (List.prefix_append _ _)
  induction s generalizing before with
  | nil => simp [cutAt?, hmark]
  | cons c s ih =>
    rw [cutAt?_cons_eq_some_iff]
    cases before with
    | nil =>
      have hshort : ¬ mark <:+: mark.dropLast := by
        intro h
        have := h.length_le
        omega
      simp [hshort, eq_comm]
    | cons b before =>
      simp only [List.cons.injEq, reduceCtorEq, false_and, false_or, List.cons_append,
        List.infix_cons_iff, not_or]
      constructor
      · rintro ⟨hp, rest, ⟨rfl, rfl⟩, hcut⟩
        obtain ⟨hs, hno⟩ := ih.1 hcut
        refine ⟨⟨rfl, hs⟩, fun hpre => hp (hpre.trans ?_), hno⟩
        rw [hs]
        exact hfront (b :: before)
      · rintro ⟨⟨rfl, hs⟩, hp, hno⟩
        refine ⟨fun hpre => hp ?_, before, ⟨rfl, rfl⟩, ih.2 ⟨hs, hno⟩⟩
        refine List.prefix_of_prefix_length_le hpre (hs ▸ hfront (c :: before)) ?_
        simp only [List.length_cons, List.length_append]
        omega

/-- The mark stands between the two parts, and no part in front of it is shorter. -/
structure CutAtFirst (mark text before after : List Char) : Prop where
  text_eq : text = before ++ mark ++ after
  first : ∀ before' after', text = before' ++ mark ++ after' → before.length ≤ before'.length

theorem CutAtFirst.before_eq_nil_iff (h : CutAtFirst mark s before after) :
    before = [] ↔ mark <+: s := by
  constructor
  · rintro rfl
    exact ⟨after, h.text_eq.symm⟩
  · rintro ⟨rest, hrest⟩
    have hlen := h.first [] rest hrest.symm
    exact List.length_eq_zero_iff.1 (Nat.le_zero.1 hlen)

theorem cutAt?_eq_some_iff_first :
    cutAt? mark s = some (before, after) ↔ CutAtFirst mark s before after := by
  induction s generalizing before with
  | nil =>
    have hempty : cutAt? mark [] = some (before, after) ↔ mark = [] ∧ before = [] ∧ after = [] := by
      rw [cutAt?]
      split <;> simp_all [eq_comm]
    rw [hempty]
    constructor
    · rintro ⟨rfl, rfl, rfl⟩
      exact ⟨rfl, fun _ _ _ => Nat.zero_le _⟩
    · rintro ⟨htext, -⟩
      simpa [and_comm, and_assoc] using htext
  | cons c s ih =>
    rw [cutAt?_cons_eq_some_iff]
    cases before with
    | nil =>
      constructor
      · rintro (⟨-, h⟩ | ⟨-, rest, ⟨⟩, -⟩)
        exact ⟨h.symm, fun _ _ _ => Nat.zero_le _⟩
      · intro h
        exact .inl ⟨rfl, h.text_eq.symm⟩
    | cons b before =>
      constructor
      · rintro (⟨⟨⟩, -⟩ | ⟨hfront, rest, ⟨rfl, rfl⟩, hcut⟩)
        obtain ⟨rfl, hfirst⟩ := ih.1 hcut
        refine ⟨rfl, ?_⟩
        intro before' after' htext
        cases before' with
        | nil => exact absurd ⟨after', htext.symm⟩ hfront
        | cons b' before' =>
          have := hfirst before' after' (List.cons.inj htext).2
          simpa using this
      · rintro ⟨htext, hfirst⟩
        obtain ⟨rfl, hs⟩ := List.cons.inj htext
        refine .inr ⟨?_, before, rfl, ih.2 ⟨hs, ?_⟩⟩
        · rintro ⟨rest, hrest⟩
          have := hfirst [] rest hrest.symm
          simp at this
        · intro before' after' hs'
          have := hfirst (c :: before') after' (congrArg (c :: ·) hs')
          simpa using this

/-! ## Marks in the parts of a text -/

section

variable {a b sep : Char} {t : List Char}

theorem pair_infix_append_iff : [a, b] <:+: s ++ t ↔
    [a, b] <:+: s ∨ [a, b] <:+: t ∨ (s.getLast? = some a ∧ t.head? = some b) := by
  rw [List.infix_append_iff_ne_nil]
  refine or_congr_right (or_congr_right ?_)
  constructor
  · rintro ⟨l₁, l₂, hl₁, hl₂, h, hs, ht⟩
    obtain ⟨rfl, rfl⟩ : l₁ = [a] ∧ l₂ = [b] := by
      cases l₁ with
      | nil => exact absurd rfl hl₁
      | cons c l₁ => cases l₁ <;> cases l₂ <;> simp_all
    obtain ⟨u, rfl⟩ := hs
    obtain ⟨v, rfl⟩ := ht
    simp
  · rintro ⟨hs, ht⟩
    obtain ⟨u, rfl⟩ := List.getLast?_eq_some_iff.1 hs
    obtain ⟨v, rfl⟩ := List.head?_eq_some_iff.1 ht
    exact ⟨[a], [b], by simp, by simp, rfl, ⟨u, rfl⟩, ⟨v, rfl⟩⟩

theorem pair_infix_cons_iff : [a, b] <:+: sep :: t ↔
    (sep = a ∧ t.head? = some b) ∨ [a, b] <:+: t := by
  have hshort : ¬ [a, b] <:+: [sep] := by
    intro h
    simpa using h.length_le
  have hseam := pair_infix_append_iff (a := a) (b := b) (s := [sep]) (t := t)
  rw [List.singleton_append] at hseam
  rw [hseam]
  simp [hshort, or_comm]

/-- A mark without the character that joins the parts stands inside one of them. -/
theorem pair_infix_intercalate_iff (ha : a ≠ sep) (hb : b ≠ sep) {parts : List (List Char)} :
    [a, b] <:+: [sep].intercalate parts ↔ ∃ part ∈ parts, [a, b] <:+: part := by
  induction parts with
  | nil => simp
  | cons part parts ih =>
    cases parts with
    | nil => simp
    | cons next parts =>
      rw [List.intercalate_cons_cons, List.append_assoc, pair_infix_append_iff,
        List.singleton_append, pair_infix_cons_iff, ih, List.exists_mem_cons_iff]
      simp [ha.symm, hb.symm]

end

end ColumnSieve.Text
