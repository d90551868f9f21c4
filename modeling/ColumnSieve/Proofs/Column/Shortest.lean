import ColumnSieve.Proofs.Column.Runs

/-!
# Runs of positions are the shortest specification

Tokens are folded if every range covers two positions at least and a position is left out between
any two neighbours.  Folded tokens are determined by the positions that they stand for, and no
other tokens for these positions are fewer.

* `Token.Folded`             — that form;
* `Token.folded_cons_iff`    — one token in front of others;
* `Token.Folded.eq_of_mem_iff` — there is one folded form;
* `Token.Folded.length_le`   — and it is the shortest;
* `Token.compress?`          — one pass over the positions that fails rather than wraps;
* `Token.ofPositions_shortest` — all this of the runs of positions in any order.
-/

namespace ColumnSieve.Token

/-- The token behind starts two positions at least behind the end of the token in front. -/
def Apart (front behind : Token) : Prop :=
  ∃ first last first' last', front.ends? = some (first, last) ∧
    behind.ends? = some (first', last') ∧ last + 2 ≤ first'

/-- No token covers nothing, and no two of them could be one. -/
structure Folded (tokens : List Token) : Prop where
  proper : ∀ token ∈ tokens, token.Proper
  apart : tokens.IsChain Apart

section

variable {token : Token} {tokens tokens' other : List Token} {first last p n : Nat}
  {positions : List Nat}

/-! ## The positions of a token -/

/-- A token covers the positions between its ends. -/
theorem position_mem_columns_iff : .position n ∈ token.columns ↔
    ∃ first last, token.ends? = some (first, last) ∧ first ≤ n ∧ n ≤ last := by
  cases token with
  | single m =>
    simp only [columns, ends?, List.mem_singleton, Column.position.injEq, Option.some.injEq,
      Prod.mk.injEq]
    constructor
    · intro h
      exact ⟨m, m, ⟨rfl, rfl⟩, by omega, by omega⟩
    · rintro ⟨_, _, ⟨rfl, rfl⟩, hfirst, hlast⟩
      omega
  | range a b =>
    simp only [columns, ends?, List.mem_map, Column.position.injEq, exists_eq_right,
      List.mem_range'_1, Option.some.injEq, Prod.mk.injEq]
    constructor
    · intro h
      exact ⟨a, b, ⟨rfl, rfl⟩, by omega, by omega⟩
    · rintro ⟨_, _, ⟨rfl, rfl⟩, hfirst, hlast⟩
      omega
  | name text => simp [columns, ends?]

theorem proper_single (n : Nat) : (single n).Proper := trivial

theorem proper_range (h : first < last) : (range first last).Proper := h

theorem Proper.exists_ends (h : token.Proper) :
    ∃ first last, token.ends? = some (first, last) ∧ first ≤ last := by
  cases token with
  | single m => exact ⟨m, m, rfl, Nat.le_refl m⟩
  | range a b => exact ⟨a, b, rfl, Nat.le_of_lt h⟩
  | name text => exact h.elim

/-- A token that covers two positions covers those between. -/
theorem position_mem_columns_of_between {q : Nat} (hp : .position p ∈ token.columns)
    (hq : .position q ∈ token.columns) (hpn : p ≤ n) (hnq : n ≤ q) :
    .position n ∈ token.columns := by
  obtain ⟨first, last, hends, hfirst, -⟩ := position_mem_columns_iff.1 hp
  obtain ⟨first', last', hends', -, hlast⟩ := position_mem_columns_iff.1 hq
  cases hends.symm.trans hends'
  exact position_mem_columns_iff.2 ⟨first, last, hends, by omega, by omega⟩

/-! ## Folded tokens -/

theorem folded_nil : Folded [] := ⟨fun _ h => absurd h List.not_mem_nil, .nil⟩

/-- A token may stand in front of folded ones if a position is left out behind it. -/
theorem folded_cons_iff (hproper : token.Proper) (hends : token.ends? = some (first, last)) :
    Folded (token :: tokens) ↔
      Folded tokens ∧ ∀ q, .position q ∈ tokens.flatMap columns → last + 2 ≤ q := by
  induction tokens generalizing token first last with
  | nil =>
    refine iff_of_true ⟨?_, .singleton token⟩ ⟨folded_nil, nofun⟩
    exact List.forall_mem_cons.2 ⟨hproper, nofun⟩
  | cons next tokens ih =>
    constructor
    · intro h
      obtain ⟨happart, hchain⟩ := List.isChain_cons_cons.1 h.apart
      have hfolded : Folded (next :: tokens) := ⟨(List.forall_mem_cons.1 h.proper).2, hchain⟩
      refine ⟨hfolded, ?_⟩
      obtain ⟨_, _, first', last', hends', hnext, hgap⟩ := happart
      cases hends.symm.trans hends'
      have hproper' : next.Proper := hfolded.proper next List.mem_cons_self
      obtain ⟨_, _, hnext', hle⟩ := hproper'.exists_ends
      cases hnext.symm.trans hnext'
      intro q hq
      rw [List.flatMap_cons, List.mem_append] at hq
      cases hq with
      | inl hq =>
        obtain ⟨_, _, hnext', hfirst, -⟩ := position_mem_columns_iff.1 hq
        cases hnext.symm.trans hnext'
        omega
      | inr hq =>
        have := ((ih hproper' hnext).1 hfolded).2 q hq
        omega
    · intro h
      obtain ⟨hfolded, hgap⟩ := h
      have hproper' : next.Proper := hfolded.proper next List.mem_cons_self
      obtain ⟨first', last', hnext, hle⟩ := hproper'.exists_ends
      have hstart : last + 2 ≤ first' := by
        apply hgap
        rw [List.flatMap_cons, List.mem_append]
        exact .inl (position_mem_columns_iff.2 ⟨first', last', hnext, Nat.le_refl _, hle⟩)
      refine ⟨List.forall_mem_cons.2 ⟨hproper, hfolded.proper⟩, ?_⟩
      exact List.isChain_cons_cons.2 ⟨⟨first, last, first', last', hends, hnext, hstart⟩,
        hfolded.apart⟩

/-- The first of some folded tokens, with its ends. -/
theorem Folded.exists_first (h : Folded (token :: tokens)) :
    Folded tokens ∧ ∃ first last, token.ends? = some (first, last) ∧ first ≤ last := by
  have hproper : token.Proper := h.proper token List.mem_cons_self
  obtain ⟨first, last, hends, hle⟩ := hproper.exists_ends
  exact ⟨((folded_cons_iff hproper hends).1 h).1, first, last, hends, hle⟩

theorem Folded.gap (h : Folded (token :: tokens)) (hends : token.ends? = some (first, last)) :
    ∀ q, .position q ∈ tokens.flatMap columns → last + 2 ≤ q :=
  ((folded_cons_iff (h.proper token List.mem_cons_self) hends).1 h).2

/-- A position is covered by the first of some folded tokens, or stands well behind it. -/
theorem Folded.mem_cons_iff (h : Folded (token :: tokens))
    (hends : token.ends? = some (first, last)) :
    .position n ∈ (token :: tokens).flatMap columns ↔
      (first ≤ n ∧ n ≤ last) ∨ (last + 2 ≤ n ∧ .position n ∈ tokens.flatMap columns) := by
  rw [List.flatMap_cons, List.mem_append, position_mem_columns_iff]
  constructor
  · rintro (⟨_, _, hends', hn⟩ | hn)
    · cases hends.symm.trans hends'
      exact .inl hn
    · exact .inr ⟨h.gap hends n hn, hn⟩
  · rintro (hn | ⟨-, hn⟩)
    · exact .inl ⟨first, last, hends, hn⟩
    · exact .inr hn

/-- **No tokens for the same positions are fewer.**  The first position of a folded token is covered
by some other token; that one ends before the next folded token starts, so it can be spared for the
rest. -/
theorem Folded.length_le (h : Folded tokens)
    (hcovered : ∀ n, .position n ∈ tokens.flatMap columns → .position n ∈ other.flatMap columns)
    (hcovers : ∀ n, .position n ∈ other.flatMap columns → .position n ∈ tokens.flatMap columns ∨
      ∀ q, .position q ∈ tokens.flatMap columns → n < q) :
    tokens.length ≤ other.length := by
  induction tokens generalizing other with
  | nil => exact Nat.zero_le _
  | cons token tokens ih =>
    obtain ⟨hfolded, first, last, hends, hle⟩ := h.exists_first
    have hgap := h.gap hends
    simp only [h.mem_cons_iff hends] at hcovered hcovers
    -- the position behind the token is left out
    have hout : ¬ .position (last + 1) ∈ other.flatMap columns := by
      intro hin
      rcases hcovers _ hin with (hin | hin) | hbelow
      · omega
      · omega
      · have := hbelow first (.inl ⟨Nat.le_refl _, hle⟩)
        omega
    obtain ⟨cover, hcover, hfirst⟩ :=
      List.mem_flatMap.1 (hcovered first (.inl ⟨Nat.le_refl _, hle⟩))
    have hspared : tokens.length ≤ (other.erase cover).length := by
      apply ih hfolded
      · intro n hn
        have hbehind := hgap n hn
        obtain ⟨cover', hcover', hn'⟩ := List.mem_flatMap.1 (hcovered n (.inr ⟨hbehind, hn⟩))
        have hne : cover' ≠ cover := by
          intro he
          subst he
          have hbetween : .position (last + 1) ∈ cover'.columns :=
            position_mem_columns_of_between hfirst hn' (by omega) (by omega)
          exact hout (List.mem_flatMap.2 ⟨cover', hcover', hbetween⟩)
        exact List.mem_flatMap.2 ⟨cover', (List.mem_erase_of_ne hne).2 hcover', hn'⟩
      · intro n hn
        obtain ⟨cover', hcover', hn'⟩ := List.mem_flatMap.1 hn
        rcases hcovers n (List.mem_flatMap.2 ⟨cover', List.mem_of_mem_erase hcover', hn'⟩) with
          (hin | ⟨-, hin⟩) | hbelow
        · right
          intro q hq
          have := hgap q hq
          omega
        · exact .inl hin
        · exact .inr fun q hq => hbelow q (.inr ⟨hgap q hq, hq⟩)
    have := List.length_pos_of_mem hcover
    rw [List.length_erase_of_mem hcover] at hspared
    rw [List.length_cons]
    omega

theorem Proper.eq_of_ends {token' : Token} (h : token.Proper) (h' : token'.Proper)
    (hends : token.ends? = token'.ends?) : token = token' := by
  unfold Proper at h h'
  unfold ends? at hends
  split at h
  · split at h'
    · cases hends
      rfl
    · cases hends
      omega
    · exact h'.elim
  · split at h'
    · cases hends
      omega
    · cases hends
      rfl
    · exact h'.elim
  · exact h.elim

/-- The first of some folded tokens starts no earlier than that of others which cover more, and
ends no later if they start together. -/
theorem Folded.ends_le {token' : Token} {first' last' : Nat} (h : Folded (token :: tokens))
    (h' : Folded (token' :: tokens')) (hends : token.ends? = some (first, last))
    (hends' : token'.ends? = some (first', last')) (hle : first ≤ last) (hle' : first' ≤ last')
    (hsub : ∀ n, .position n ∈ (token :: tokens).flatMap columns →
      .position n ∈ (token' :: tokens').flatMap columns) :
    first' ≤ first ∧ (first' = first → last ≤ last') := by
  simp only [h.mem_cons_iff hends, h'.mem_cons_iff hends'] at hsub
  constructor
  · have := hsub first (.inl ⟨Nat.le_refl _, hle⟩)
    omega
  · intro heq
    by_contra hlt
    -- the position behind the other token would be covered
    have := hsub (last' + 1) (.inl ⟨by omega, by omega⟩)
    omega

/-- **Folded tokens are known by the positions that they stand for.** -/
theorem Folded.eq_of_mem_iff (h : Folded tokens) (h' : Folded tokens')
    (hmem : ∀ n, .position n ∈ tokens.flatMap columns ↔ .position n ∈ tokens'.flatMap columns) :
    tokens = tokens' := by
  induction tokens generalizing tokens' with
  | nil =>
    cases tokens' with
    | nil => rfl
    | cons token' tokens' =>
      obtain ⟨-, first, last, hends, hle⟩ := h'.exists_first
      have hin := (hmem first).2 ((h'.mem_cons_iff hends).2 (.inl ⟨Nat.le_refl _, hle⟩))
      exact absurd hin List.not_mem_nil
  | cons token tokens ih =>
    obtain ⟨hfolded, first, last, hends, hle⟩ := h.exists_first
    cases tokens' with
    | nil =>
      have hin := (hmem first).1 ((h.mem_cons_iff hends).2 (.inl ⟨Nat.le_refl _, hle⟩))
      exact absurd hin List.not_mem_nil
    | cons token' tokens' =>
      obtain ⟨hfolded', first', last', hends', hle'⟩ := h'.exists_first
      obtain ⟨hfirst, hlast⟩ := h.ends_le h' hends hends' hle hle' fun n => (hmem n).1
      obtain ⟨hfirst', hlast'⟩ := h'.ends_le h hends' hends hle' hle fun n => (hmem n).2
      obtain rfl : first = first' := by omega
      obtain rfl : last = last' := by omega
      obtain rfl : token = token' :=
        (h.proper token List.mem_cons_self).eq_of_ends (h'.proper token' List.mem_cons_self)
          (hends.trans hends'.symm)
      -- what stands behind the first token is what is covered behind it
      have hrest : tokens = tokens' := by
        apply ih hfolded hfolded'
        intro n
        have hn := hmem n
        rw [h.mem_cons_iff hends, h'.mem_cons_iff hends] at hn
        have hgap := h.gap hends n
        have hgap' := h'.gap hends n
        constructor
        · intro hin
          have := hgap hin
          exact ((hn.1 (.inr ⟨this, hin⟩)).resolve_left (by omega)).2
        · intro hin
          have := hgap' hin
          exact ((hn.2 (.inr ⟨this, hin⟩)).resolve_left (by omega)).2
      rw [hrest]

/-! ## Runs -/

/-- In front of a greater word the position behind is the next number. -/
theorem nextPosition_of_lt {q : Nat} (hlt : p < q) (hword : q < UInt64.size) :
    nextPosition p = p + 1 :=
  Nat.mod_eq_of_lt (by omega)

/-- The step of the fold keeps tokens folded. -/
theorem before_folded (h : Folded tokens)
    (hlt : ∀ q, .position q ∈ tokens.flatMap columns → p < q ∧ q < UInt64.size) :
    Folded (before p tokens) := by
  -- a position that does not lengthen the first token leaves out the one behind it
  have happart {token : Token} {tokens : List Token} {first last : Nat}
      (h : Folded (token :: tokens)) (hends : token.ends? = some (first, last))
      (hle : first ≤ last)
      (hlt : ∀ q, .position q ∈ (token :: tokens).flatMap columns → p < q ∧ q < UInt64.size)
      (hnext : first ≠ nextPosition p) : Folded (.single p :: token :: tokens) := by
    obtain ⟨hfirst, hword⟩ := hlt first ((h.mem_cons_iff hends).2 (.inl ⟨Nat.le_refl _, hle⟩))
    rw [nextPosition_of_lt hfirst hword] at hnext
    refine (folded_cons_iff (proper_single p) rfl).2 ⟨h, ?_⟩
    intro q hq
    rw [h.mem_cons_iff hends] at hq
    omega
  fun_cases before p tokens with
  | case1 tokens =>
    have hfirst : p < nextPosition p := (hlt _ (by simp [columns])).1
    exact (folded_cons_iff (proper_range hfirst) rfl).2
      ((folded_cons_iff (proper_single _) rfl).1 h)
  | case2 q tokens hnext => exact happart h rfl (Nat.le_refl q) hlt hnext
  | case3 last tokens =>
    have hrange : nextPosition p < last := h.proper _ List.mem_cons_self
    have hfirst := hlt (nextPosition p)
      ((h.mem_cons_iff rfl).2 (.inl ⟨Nat.le_refl _, Nat.le_of_lt hrange⟩))
    have hlast : p < last := by omega
    exact (folded_cons_iff (proper_range hlast) rfl).2
      ((folded_cons_iff (proper_range hrange) rfl).1 h)
  | case4 q r tokens hnext =>
    have hrange : q < r := h.proper _ List.mem_cons_self
    exact happart h rfl (Nat.le_of_lt hrange) hlt hnext
  | case5 tokens hsingle hrange =>
    cases tokens with
    | nil =>
      refine (folded_cons_iff (proper_single p) rfl).2 ⟨h, ?_⟩
      intro q hq
      cases hq
    | cons token tokens =>
      cases token with
      | single q => exact absurd rfl (hsingle q tokens)
      | range q r => exact absurd rfl (hrange q r tokens)
      | name text => exact (h.proper _ List.mem_cons_self).elim

/-- The runs of ascending words are folded. -/
theorem runs_folded (h : positions.Pairwise (· < ·)) (hword : ∀ p ∈ positions, p < UInt64.size) :
    Folded (runs positions) := by
  induction positions with
  | nil => exact folded_nil
  | cons p positions ih =>
    obtain ⟨hlt, hrest⟩ := List.pairwise_cons.1 h
    obtain ⟨-, hwords⟩ := List.forall_mem_cons.1 hword
    apply before_folded (ih hrest hwords)
    intro q hq
    change .position q ∈ (runs positions).flatMap columns at hq
    rw [(runs_spec hrest).1] at hq
    obtain ⟨_, hq, ⟨⟩⟩ := List.mem_map.1 hq
    exact ⟨hlt q hq, hwords q hq⟩

/-! ## One pass without wrapping -/

/-- The position behind, unless it leaves the words of 64 bits. -/
def successor? (n : Nat) : Option Nat := if n + 1 < UInt64.size then some (n + 1) else none

/-- A run of positions as one token. -/
def ofRun (first last : Nat) : Token := if first = last then .single first else .range first last

/-- Reads ascending positions behind a run that is still open. -/
def scan? (first last : Nat) : List Nat → Option (List Token)
  | [] => some [ofRun first last]
  | p :: positions =>
    (successor? last).bind fun next =>
      if p = next then scan? first p positions
      else (scan? p p positions).map (ofRun first last :: ·)

/-- The runs of ascending positions in one pass.  There are none if the position behind one of them
has to be known and is no word. -/
def compress? : List Nat → Option (List Token)
  | [] => some []
  | p :: positions => scan? p p positions

theorem successor?_of_lt {q : Nat} (hlt : p < q) (hword : q < UInt64.size) :
    successor? p = some (p + 1) :=
  if_pos (by omega)

theorem proper_ofRun (h : first ≤ last) : (ofRun first last).Proper := by
  unfold ofRun
  split
  · exact proper_single first
  · exact proper_range (by omega)

theorem ends?_ofRun (first last : Nat) : (ofRun first last).ends? = some (first, last) := by
  unfold ofRun
  split
  · rename_i heq
    rw [ends?, heq]
  · rfl

/-- The pass goes through, and its tokens are folded: in front of another position every word has
one behind it. -/
theorem scan?_spec (hle : first ≤ last) (h : (last :: positions).Pairwise (· < ·))
    (hword : ∀ p ∈ positions, p < UInt64.size) :
    ∃ tokens, scan? first last positions = some tokens ∧ Folded tokens ∧
      ∀ n, .position n ∈ tokens.flatMap columns ↔ (first ≤ n ∧ n ≤ last) ∨ n ∈ positions := by
  induction positions generalizing first last with
  | nil =>
    have hfolded : Folded [ofRun first last] :=
      (folded_cons_iff (proper_ofRun hle) (ends?_ofRun first last)).2 ⟨folded_nil, nofun⟩
    refine ⟨_, rfl, hfolded, ?_⟩
    intro n
    rw [hfolded.mem_cons_iff (ends?_ofRun first last)]
    simp
  | cons p positions ih =>
    obtain ⟨hbehind, hrest⟩ := List.pairwise_cons.1 h
    obtain ⟨hp, hwords⟩ := List.forall_mem_cons.1 hword
    have hlt : last < p := hbehind p List.mem_cons_self
    rw [scan?, successor?_of_lt hlt hp, Option.bind_some]
    by_cases hnext : p = last + 1
    · have hle' : first ≤ p := by omega
      obtain ⟨tokens, hscan, hfolded, hmem⟩ := ih hle' hrest hwords
      rw [if_pos hnext]
      refine ⟨tokens, hscan, hfolded, ?_⟩
      intro n
      rw [hmem, List.mem_cons, ← or_assoc]
      exact or_congr_left (by omega)
    · obtain ⟨tokens, hscan, hfolded, hmem⟩ := ih (Nat.le_refl p) hrest hwords
      have hgap : ∀ q, .position q ∈ tokens.flatMap columns → last + 2 ≤ q := by
        intro q hq
        rcases (hmem q).1 hq with hq | hq
        · omega
        · have := List.rel_of_pairwise_cons hrest hq
          omega
      have hfolded' : Folded (ofRun first last :: tokens) :=
        (folded_cons_iff (proper_ofRun hle) (ends?_ofRun first last)).2 ⟨hfolded, hgap⟩
      rw [if_neg hnext, hscan]
      refine ⟨_, rfl, hfolded', ?_⟩
      intro n
      rw [hfolded'.mem_cons_iff (ends?_ofRun first last), hmem, List.mem_cons]
      constructor
      · rintro (hn | ⟨-, hn | hn⟩)
        · exact .inl hn
        · exact .inr (.inl (by omega))
        · exact .inr (.inr hn)
      · rintro (hn | hn | hn)
        · exact .inl hn
        · exact .inr ⟨by omega, .inl (by omega)⟩
        · have := List.rel_of_pairwise_cons hrest hn
          exact .inr ⟨by omega, .inr hn⟩

theorem mem_columns_runs (h : positions.Pairwise (· < ·)) :
    .position n ∈ (runs positions).flatMap columns ↔ n ∈ positions := by
  rw [(runs_spec h).1, List.mem_map]
  simp

/-- **One pass that fails rather than wraps finds the same runs.** -/
theorem compress?_eq (h : positions.Pairwise (· < ·)) (hword : ∀ p ∈ positions, p < UInt64.size) :
    compress? positions = some (runs positions) := by
  cases positions with
  | nil => rfl
  | cons p positions =>
    obtain ⟨-, hwords⟩ := List.forall_mem_cons.1 hword
    obtain ⟨tokens, hscan, hfolded, hmem⟩ := scan?_spec (Nat.le_refl p) h hwords
    have heq : tokens = runs (p :: positions) := by
      apply hfolded.eq_of_mem_iff (runs_folded h hword)
      intro n
      rw [hmem, mem_columns_runs h, List.mem_cons]
      exact or_congr_left (by omega)
    rw [compress?, hscan, heq]

end

/-! ## Positions in any order -/

/-- **Positions become the fewest tokens there can be.**  For words of 64 bits in any order and with
repetitions, the tokens stand for the distinct positions in ascending order; they are folded, and no
other tokens for these positions are fewer.  No position behind another has to wrap, so one pass
that fails in that case finds the same tokens.  Only which positions there are counts. -/
theorem ofPositions_shortest (positions : List UInt64) :
    (∃ distinct : List Nat, distinct.Pairwise (· < ·) ∧
      (∀ n, n ∈ distinct ↔ ∃ p ∈ positions, p.toNat = n) ∧
      (ofPositions (positions.map UInt64.toNat)).flatMap columns = distinct.map .position ∧
      compress? distinct = some (ofPositions (positions.map UInt64.toNat)) ∧
      distinct.IsChain fun p q => nextPosition p = p + 1 ∧ p + 1 ≤ q) ∧
    Folded (ofPositions (positions.map UInt64.toNat)) ∧
    (∀ other : List Token,
      (∀ n, .position n ∈ other.flatMap columns ↔ ∃ p ∈ positions, p.toNat = n) →
        (ofPositions (positions.map UInt64.toNat)).length ≤ other.length) ∧
    ∀ positions' : List UInt64, (∀ p, p ∈ positions' ↔ p ∈ positions) →
      ofPositions (positions'.map UInt64.toNat) = ofPositions (positions.map UInt64.toNat) := by
  have hascending := (NatSet.ofList (positions.map UInt64.toNat)).ascending
  have hmem : ∀ n, n ∈ (NatSet.ofList (positions.map UInt64.toNat)).toList ↔
      ∃ p ∈ positions, p.toNat = n := by
    intro n
    rw [← NatSet.mem_def, NatSet.mem_ofList, List.mem_map]
  have hword : ∀ p ∈ (NatSet.ofList (positions.map UInt64.toNat)).toList, p < UInt64.size := by
    intro n hn
    obtain ⟨p, -, rfl⟩ := (hmem n).1 hn
    exact p.toNat_lt_size
  have hfolded := runs_folded hascending hword
  refine ⟨⟨_, hascending, hmem, (runs_spec hascending).1, compress?_eq hascending hword, ?_⟩,
    hfolded, ?_, ?_⟩
  · refine (hascending.imp_of_mem ?_).isChain
    intro p q _ hq hlt
    exact ⟨nextPosition_of_lt hlt (hword q hq), hlt⟩
  · intro other hother
    have hsame : ∀ n,
        .position n ∈ (runs (NatSet.ofList (positions.map UInt64.toNat)).toList).flatMap columns ↔
          .position n ∈ other.flatMap columns := by
      intro n
      rw [mem_columns_runs hascending, hmem, hother]
    exact hfolded.length_le (fun n => (hsame n).1) fun n hn => .inl ((hsame n).2 hn)
  · intro positions' hpositions
    have hset : NatSet.ofList (positions'.map UInt64.toNat) =
        NatSet.ofList (positions.map UInt64.toNat) := by
      apply NatSet.ext_mem
      intro n
      simp only [NatSet.mem_ofList, List.mem_map, hpositions]
    rw [ofPositions, ofPositions, hset]

/-- At both ends of the words of 64 bits, where the last position has none behind it. -/
theorem ofPositions_shortest_of_ends :
    ofPositions ([18446744073709551615, 5, 0, 18446744073709551614, 1, 5].map UInt64.toNat) =
        [.range 0 1, .single 5, .range 18446744073709551614 18446744073709551615] ∧
      ∀ other : List Token, (∀ n, .position n ∈ other.flatMap columns ↔
          n ∈ [0, 1, 5, 18446744073709551614, 18446744073709551615]) → 3 ≤ other.length := by
  obtain ⟨⟨distinct, hascending, hmem, -, hcompress, -⟩, -, hshortest, -⟩ :=
    ofPositions_shortest [18446744073709551615, 5, 0, 18446744073709551614, 1, 5]
  have hpositions : ∀ n, (∃ p ∈ ([18446744073709551615, 5, 0, 18446744073709551614, 1, 5] :
      List UInt64), p.toNat = n) ↔ n ∈ [0, 1, 5, 18446744073709551614, 18446744073709551615] := by
    intro n
    simp
    omega
  have hdistinct : distinct = [0, 1, 5, 18446744073709551614, 18446744073709551615] :=
    NatSet.eq_of_mem_iff hascending (by decide) fun n => (hmem n).trans (hpositions n)
  have htokens : ofPositions ([18446744073709551615, 5, 0, 18446744073709551614, 1, 5].map
      UInt64.toNat) =
        [.range 0 1, .single 5, .range 18446744073709551614 18446744073709551615] := by
    rw [hdistinct] at hcompress
    exact Option.some.inj (hcompress.symm.trans (by decide))
  refine ⟨htokens, ?_⟩
  intro other hother
  have hle := hshortest other fun n => (hother n).trans (hpositions n).symm
  rw [htokens] at hle
  exact hle

end ColumnSieve.Token
