import ColumnSieve.Clause.Parser
import Mathlib.Data.List.Infix
import Mathlib.Data.List.SplitBy

/-!
# Chains, cut at their signs

A chain is cut before every sign but the one it opens with.  There is one way to do so.

* `SignFree`, `Opened`         — a text that holds no sign, and one that has a sign in front;
* `CutAtSigns`                 — the parts of a text between its signs;
* `cutAtSigns_iff`             — the segments of a chain are these parts and no others;
* `segments_flatten`           — parts with a sign in front are found again when they are joined.
-/

namespace ColumnSieve

/-- No clause starts in the text. -/
def SignFree (text : List Char) : Prop := '?' ∉ text ∧ '|' ∉ text ∧ '&' ∉ text

/-- A clause starts in front of the text. -/
def Opened (text : List Char) : Prop :=
  text.head? = some '?' ∨ text.head? = some '|' ∨ text.head? = some '&'

/-- One part starts where the text does, and one at every sign behind. -/
structure CutAtSigns (text : List Char) (parts : List (List Char)) : Prop where
  flatten_eq : parts.flatten = text
  ne_nil : ∀ part ∈ parts, part ≠ []
  signFree_tail : ∀ part ∈ parts, SignFree part.tail
  opened : ∀ part ∈ parts.tail, Opened part

/-! ## Signs -/

section

variable {text : List Char} {c : Char}

theorem isSign_iff : isSign c = true ↔ c = '?' ∨ c = '|' ∨ c = '&' := by
  unfold isSign Combinator.ofSign?
  split
  · simp
  · simp
  · simp
  · simp_all

theorem isSign_sign (combinator : Combinator) : isSign combinator.sign = true := by
  simp [isSign, Combinator.ofSign?_sign]

theorem Comparator.isSign_of_mem_symbol {comparator : Comparator} (h : c ∈ comparator.symbol) :
    isSign c = false := by
  cases comparator with
  | equal => rw [List.mem_singleton.1 h]; rfl
  | notEqual =>
    rcases List.mem_pair.1 h with rfl | rfl
    · rfl
    · rfl

theorem opened_iff : Opened text ↔ ∃ sign body, text = sign :: body ∧ isSign sign = true := by
  cases text with
  | nil => simp [Opened]
  | cons c body => simp [Opened, isSign_iff]

theorem signFree_iff : SignFree text ↔ ∀ c ∈ text, isSign c = false := by
  constructor
  · rintro ⟨hq, hb, ha⟩ c hc
    rw [Bool.eq_false_iff, ne_eq, isSign_iff]
    rintro (rfl | rfl | rfl)
    · exact hq hc
    · exact hb hc
    · exact ha hc
  · intro h
    have hno {c : Char} (hsign : isSign c = true) : c ∉ text := by
      intro hc
      rw [h c hc] at hsign
      cases hsign
    exact ⟨hno rfl, hno rfl, hno rfl⟩

theorem SignFree.of_infix {part : List Char} (h : SignFree text) (hin : part <:+: text) :
    SignFree part :=
  signFree_iff.2 fun c hc => signFree_iff.1 h c (hin.subset hc)

theorem isChain_iff_signFree :
    (c :: text).IsChain (fun _ next => (!isSign next) = true) ↔ SignFree text := by
  rw [signFree_iff]
  induction text generalizing c with
  | nil => simp
  | cons d text ih => rw [List.isChain_cons_cons, ih, List.forall_mem_cons, Bool.not_eq_true']

end

/-! ## Segments -/

section

variable {chain segment : List Char} {parts : List (List Char)}

/-- Of parts that are not empty, neighbours are cut apart exactly if the second has a sign in
front. -/
theorem isChain_cut_iff (hne : ∀ part ∈ parts, part ≠ []) :
    parts.IsChain (fun a b => ∃ ha hb,
      (fun _ next => !isSign next) (a.getLast ha) (b.head hb) = false) ↔
      ∀ part ∈ parts.tail, Opened part := by
  induction parts with
  | nil => simp
  | cons part parts ih =>
    obtain ⟨hpart, hparts⟩ := List.forall_mem_cons.1 hne
    cases parts with
    | nil => simp
    | cons next rest =>
      rw [List.isChain_cons_cons, ih hparts, List.tail_cons, List.tail_cons, List.forall_mem_cons]
      refine and_congr_left fun _ => ?_
      obtain ⟨sign, body, rfl⟩ := List.exists_cons_of_ne_nil (hparts next List.mem_cons_self)
      simp [hpart, opened_iff]

/-- **The segments of a chain are its parts between signs**, and no other parts are. -/
theorem cutAtSigns_iff : CutAtSigns chain parts ↔ parts = segments chain := by
  rw [eq_comm, segments, List.splitBy_eq_iff]
  constructor
  · rintro ⟨rfl, hne, hfree, hopened⟩
    refine ⟨rfl, fun hnil => hne [] hnil rfl, ?_, (isChain_cut_iff hne).2 hopened⟩
    intro part hpart
    obtain ⟨c, body, rfl⟩ := List.exists_cons_of_ne_nil (hne part hpart)
    exact isChain_iff_signFree.2 (hfree _ hpart)
  · rintro ⟨rfl, hnil, hchain, hcut⟩
    have hne : ∀ part ∈ parts, part ≠ [] := by
      rintro part hpart rfl
      exact hnil hpart
    refine ⟨rfl, hne, ?_, (isChain_cut_iff hne).1 hcut⟩
    intro part hpart
    obtain ⟨c, body, rfl⟩ := List.exists_cons_of_ne_nil (hne part hpart)
    exact isChain_iff_signFree.1 (hchain _ hpart)

theorem signFree_tail_of_mem_segments (h : segment ∈ segments chain) : SignFree segment.tail :=
  (cutAtSigns_iff.2 rfl).signFree_tail segment h

/-- Segments that start with a sign and hold no other are found again when they are joined. -/
theorem segments_flatten
    (h : ∀ part ∈ parts, ∃ sign body, part = sign :: body ∧ isSign sign = true ∧ SignFree body) :
    segments parts.flatten = parts := by
  refine (cutAtSigns_iff.1 ⟨rfl, ?_, ?_, ?_⟩).symm
  · intro part hpart
    obtain ⟨sign, body, rfl, -⟩ := h part hpart
    exact List.cons_ne_nil _ _
  · intro part hpart
    obtain ⟨sign, body, rfl, -, hfree⟩ := h part hpart
    exact hfree
  · intro part hpart
    obtain ⟨sign, body, rfl, hsign, -⟩ := h part (List.mem_of_mem_tail hpart)
    exact opened_iff.2 ⟨sign, body, rfl, hsign⟩

end

end ColumnSieve
