import ColumnSieve.Proofs.Clause.Segments
import ColumnSieve.Query.Printer
import Mathlib.Data.List.Induction
import Mathlib.Data.List.TakeWhile

/-!
# The parts of a raw query

A backslash in a path is written as it is, so one at the end of a path would hide the at sign
behind the path.  Every other path can be written, and in one way only.

* `splitPath?_escapePath`     — an escaped path is read back, unless it ends in a backslash;
* `getLast?_of_splitPath?`    — no path that is read ends in one;
* `splitPath?_eq_some_iff`    — so what is read is what is written;
* `CutAtBareSign`             — a text, cut at its first at sign without a backslash before it;
* `splitPath?_eq_some_iff_cut` — the path ends there;
* `split?_eq_some_iff`        — the three parts of a query;
* `split?_inverts`            — all this of whole queries.
-/

namespace ColumnSieve.Query

/-! ## The path -/

section

variable {path rest raw : List Char}

theorem splitPath?_at (rest : List Char) : splitPath? ('@' :: rest) = some ([], rest) := rfl

theorem splitPath?_escape (rest : List Char) :
    splitPath? ('\\' :: '@' :: rest) = (splitPath? rest).map fun p => ('@' :: p.1, p.2) := rfl

/-- Any other character stands for itself, also a backslash without an at sign behind it. -/
theorem splitPath?_cons {c : Char} (hat : c ≠ '@') (hmark : c = '\\' → rest.head? ≠ some '@') :
    splitPath? (c :: rest) = (splitPath? rest).map fun p => (c :: p.1, p.2) := by
  rw [splitPath?]
  · rintro rfl
    exact absurd rfl hat
  · rintro s rfl rfl
    exact hmark rfl rfl

theorem head?_ne_at {c : Char} (hmark : ∀ s, c = '\\' → rest = '@' :: s → False)
    (hc : c = '\\') : rest.head? ≠ some '@' := by
  intro hhead
  obtain ⟨s, rfl⟩ := List.head?_eq_some_iff.1 hhead
  exact hmark s hc rfl

theorem escapePath_cons (c : Char) (path : List Char) :
    escapePath (c :: path) = (if c = '@' then ['\\', '@'] else [c]) ++ escapePath path :=
  List.flatMap_cons

/-- No escaped path starts with a bare at sign. -/
theorem head?_escapePath_append (hpath : path ≠ []) (rest : List Char) :
    (escapePath path ++ rest).head? ≠ some '@' := by
  obtain ⟨c, path, rfl⟩ := List.exists_cons_of_ne_nil hpath
  rw [escapePath_cons]
  by_cases hc : c = '@'
  · simp [hc]
  · simp [hc]

/-- **An escaped path is read back**, unless its last backslash would escape the at sign behind
it. -/
theorem splitPath?_escapePath (hlast : path.getLast? ≠ some '\\') :
    splitPath? (escapePath path ++ '@' :: rest) = some (path, rest) := by
  induction path with
  | nil => exact splitPath?_at rest
  | cons c path ih =>
    have hread : splitPath? (escapePath path ++ '@' :: rest) = some (path, rest) := by
      apply ih
      intro htail
      apply hlast
      rw [List.getLast?_cons, htail]
      rfl
    rw [escapePath_cons, List.append_assoc]
    by_cases hat : c = '@'
    · rw [if_pos hat, hat]
      change splitPath? ('\\' :: '@' :: (escapePath path ++ '@' :: rest)) = _
      rw [splitPath?_escape, hread]
      rfl
    · have hmark : c = '\\' → (escapePath path ++ '@' :: rest).head? ≠ some '@' := by
        -- a backslash is not the last character, so part of the path stands behind it
        intro hc
        apply head?_escapePath_append
        rintro rfl
        exact hlast (by rw [hc]; rfl)
      rw [if_neg hat, List.singleton_append, splitPath?_cons hat hmark, hread]
      rfl

/-- What is read in front of the rest of the path, and what in front of the rest of the query. -/
theorem exists_of_splitPath? (h : splitPath? raw = some (path, rest)) :
    (path = [] ∧ raw = '@' :: rest) ∨
      ∃ c front behind, path = c :: front ∧ splitPath? behind = some (front, rest) ∧
        raw = (if c = '@' then ['\\', '@'] else [c]) ++ behind ∧
        (c = '\\' → behind.head? ≠ some '@') := by
  cases raw using splitPath?.fun_cases with
  | case1 => cases h
  | case2 s =>
    cases h
    exact .inl ⟨rfl, rfl⟩
  | case3 s =>
    rw [splitPath?_escape, Option.map_eq_some_iff] at h
    obtain ⟨⟨front, _⟩, hs, heq⟩ := h
    cases heq
    exact .inr ⟨'@', front, s, rfl, hs, rfl, fun hc => by cases hc⟩
  | case4 c s hat hmark =>
    have hbare := head?_ne_at hmark
    rw [splitPath?_cons hat hbare, Option.map_eq_some_iff] at h
    obtain ⟨⟨front, _⟩, hs, heq⟩ := h
    cases heq
    exact .inr ⟨c, front, s, rfl, hs, by rw [if_neg hat]; rfl, hbare⟩

/-- A backslash in front of the at sign would have been read as its escape. -/
theorem getLast?_of_splitPath? (h : splitPath? raw = some (path, rest)) :
    path.getLast? ≠ some '\\' := by
  induction path generalizing raw with
  | nil => simp
  | cons c path ih =>
    obtain ⟨hnil, -⟩ | ⟨c, front, behind, heq, hs, -, hbare⟩ := exists_of_splitPath? h
    · cases hnil
    · cases heq
      cases path with
      | nil =>
        obtain ⟨-, rfl⟩ | ⟨_, _, _, hcons, -⟩ := exists_of_splitPath? hs
        · intro hc
          exact hbare (Option.some.inj hc) rfl
        · cases hcons
      | cons d path =>
        rw [List.getLast?_cons_cons]
        exact ih hs

theorem eq_escapePath_of_splitPath? (h : splitPath? raw = some (path, rest)) :
    raw = escapePath path ++ '@' :: rest := by
  induction path generalizing raw with
  | nil =>
    obtain ⟨-, hraw⟩ | ⟨_, _, _, hcons, -⟩ := exists_of_splitPath? h
    · exact hraw
    · cases hcons
  | cons c path ih =>
    obtain ⟨hnil, -⟩ | ⟨c, front, behind, heq, hs, hraw, -⟩ := exists_of_splitPath? h
    · cases hnil
    · cases heq
      rw [hraw, ih hs, escapePath_cons, List.append_assoc]

/-- **What is read as a path is the path as it is written**, and what can be written is all that
does not end in a backslash. -/
theorem splitPath?_eq_some_iff : splitPath? raw = some (path, rest) ↔
    raw = escapePath path ++ '@' :: rest ∧ path.getLast? ≠ some '\\' := by
  constructor
  · intro h
    exact ⟨eq_escapePath_of_splitPath? h, getLast?_of_splitPath? h⟩
  · rintro ⟨rfl, hlast⟩
    exact splitPath?_escapePath hlast

end

/-! ## The first bare at sign -/

/-- The text is cut at its first at sign that has no backslash immediately before it. -/
structure CutAtBareSign (text before after : List Char) : Prop where
  text_eq : text = before ++ '@' :: after
  bare : before.getLast? ≠ some '\\'
  first : ∀ before' after', text = before' ++ '@' :: after' → before'.getLast? ≠ some '\\' →
    before.length ≤ before'.length

/-- A text with every backslash that has an at sign behind it left out. -/
def unescape : List Char → List Char
  | [] => []
  | '\\' :: '@' :: s => '@' :: unescape s
  | c :: s => c :: unescape s

section

variable {path rest raw before before' after after' : List Char}

theorem unescape_cons {c : Char} (hmark : c = '\\' → rest.head? ≠ some '@') :
    unescape (c :: rest) = c :: unescape rest := by
  rw [unescape]
  rintro s rfl rfl
  exact hmark rfl rfl

theorem unescape_escapePath (path : List Char) : unescape (escapePath path) = path := by
  induction path with
  | nil => rfl
  | cons c path ih =>
    rw [escapePath_cons]
    by_cases hat : c = '@'
    · rw [if_pos hat, hat]
      change '@' :: unescape (escapePath path) = _
      rw [ih]
    · have hmark : c = '\\' → (escapePath path).head? ≠ some '@' := by
        intro _ hhead
        cases path with
        | nil => cases hhead
        | cons d path =>
          apply head?_escapePath_append (List.cons_ne_nil d path) []
          rwa [List.append_nil]
      rw [if_neg hat, List.singleton_append, unescape_cons hmark, ih]

theorem unescape_eq_nil_iff : unescape before = [] ↔ before = [] := by
  fun_cases unescape before <;> simp

theorem getLast?_escapePath (path : List Char) : (escapePath path).getLast? = path.getLast? := by
  induction path using List.reverseRecOn with
  | nil => rfl
  | append_singleton path c _ =>
    unfold escapePath
    rw [List.flatMap_append, List.flatMap_singleton]
    by_cases hat : c = '@'
    · simp [hat]
    · simp [hat]

/-- An at sign in an escaped path has a backslash before it. -/
theorem getLast?_of_escapePath (h : escapePath path = before ++ '@' :: after) :
    before.getLast? = some '\\' := by
  induction path generalizing before with
  | nil => simp [escapePath] at h
  | cons c path ih =>
    rw [escapePath_cons] at h
    by_cases hat : c = '@'
    · rw [if_pos hat] at h
      cases before with
      | nil => simp at h
      | cons b before =>
        cases before with
        | nil =>
          obtain ⟨rfl, -⟩ := List.cons.inj h
          rfl
        | cons b' before =>
          simp only [List.cons_append, List.cons.injEq, List.nil_append] at h
          obtain ⟨-, -, h⟩ := h
          rw [List.getLast?_cons_cons, List.getLast?_cons, ih h]
          rfl
    · rw [if_neg hat, List.singleton_append] at h
      cases before with
      | nil => exact absurd (List.cons.inj h).1 hat
      | cons b before =>
        rw [List.getLast?_cons, ih (List.cons.inj h).2]
        rfl

/-- Behind an escaped path the at sign is the first bare one. -/
theorem cutAtBareSign_escapePath (hlast : path.getLast? ≠ some '\\') :
    CutAtBareSign (escapePath path ++ '@' :: rest) (escapePath path) rest := by
  refine ⟨rfl, by rwa [getLast?_escapePath], ?_⟩
  intro before' after' htext hbare
  by_contra hlen
  -- an earlier one would stand in the path
  have hfront : before' ++ ['@'] <+: escapePath path ++ '@' :: rest := by
    rw [htext]
    exact ⟨after', by simp⟩
  have hshort : (before' ++ ['@']).length ≤ (escapePath path).length := by
    rw [List.length_append, List.length_singleton]
    omega
  obtain ⟨more, hmore⟩ :=
    List.prefix_of_prefix_length_le hfront (List.prefix_append _ _) hshort
  apply hbare
  apply getLast?_of_escapePath
  rw [← hmore, List.append_assoc, List.singleton_append]

theorem CutAtBareSign.unique (h : CutAtBareSign raw before after)
    (h' : CutAtBareSign raw before' after') : before = before' ∧ after = after' := by
  have hlen : before.length = before'.length :=
    Nat.le_antisymm (h.first _ _ h'.text_eq h'.bare) (h'.first _ _ h.text_eq h.bare)
  obtain ⟨hbefore, hafter⟩ := List.append_inj (h.text_eq.symm.trans h'.text_eq) hlen
  exact ⟨hbefore, (List.cons.inj hafter).2⟩

/-- Where no path is read, every at sign has a backslash before it. -/
theorem getLast?_of_splitPath?_eq_none (h : splitPath? raw = none)
    (hraw : raw = before ++ '@' :: after) : before.getLast? = some '\\' := by
  induction raw using splitPath?.induct generalizing before with
  | case1 => simp at hraw
  | case2 s => cases h
  | case3 s ih =>
    rw [splitPath?_escape, Option.map_eq_none_iff] at h
    cases before with
    | nil => simp at hraw
    | cons b before =>
      obtain ⟨rfl, hbehind⟩ := List.cons.inj hraw
      cases before with
      | nil => rfl
      | cons b' before =>
        have hs : s = before ++ '@' :: after := (List.cons.inj hbehind).2
        rw [List.getLast?_cons_cons, List.getLast?_cons, ih h hs]
        rfl
  | case4 c s hat hmark ih =>
    rw [splitPath?_cons hat (head?_ne_at hmark), Option.map_eq_none_iff] at h
    cases before with
    | nil => exact absurd (List.cons.inj hraw).1 hat
    | cons b before =>
      rw [List.getLast?_cons, ih h (List.cons.inj hraw).2]
      rfl

/-- **A path ends at the first bare at sign.** -/
theorem splitPath?_eq_some_iff_cut : splitPath? raw = some (path, rest) ↔
    ∃ before, CutAtBareSign raw before rest ∧ path = unescape before := by
  constructor
  · intro h
    obtain ⟨rfl, hlast⟩ := splitPath?_eq_some_iff.1 h
    exact ⟨escapePath path, cutAtBareSign_escapePath hlast, (unescape_escapePath path).symm⟩
  · rintro ⟨before, hcut, rfl⟩
    cases h : splitPath? raw with
    | none => exact absurd (getLast?_of_splitPath?_eq_none h hcut.text_eq) hcut.bare
    | some parts =>
      obtain ⟨path, rest'⟩ := parts
      obtain ⟨rfl, hlast⟩ := splitPath?_eq_some_iff.1 h
      obtain ⟨rfl, rfl⟩ := hcut.unique (cutAtBareSign_escapePath hlast)
      rw [unescape_escapePath]

end

/-! ## The three parts -/

section

variable {path idColumn chain raw rest : List Char}

/-- A text is cut in front of its first sign, which starts the chain. -/
theorem cut_at_sign_iff :
    (rest.takeWhile (fun c => !isSign c) = idColumn ∧
      rest.dropWhile (fun c => !isSign c) = chain ∧ chain ≠ []) ↔
    rest = idColumn ++ chain ∧ SignFree idColumn ∧
      ∃ sign body, chain = sign :: body ∧ isSign sign = true := by
  rw [signFree_iff]
  constructor
  · rintro ⟨rfl, rfl, hne⟩
    refine ⟨List.takeWhile_append_dropWhile.symm, ?_, ?_⟩
    · intro c hc
      simpa using List.mem_takeWhile_imp hc
    · obtain ⟨sign, body, hchain⟩ := List.exists_cons_of_ne_nil hne
      have hsign := List.head?_dropWhile_not (fun c => !isSign c) rest
      rw [hchain] at hsign
      exact ⟨sign, body, hchain, by simpa using hsign⟩
  · rintro ⟨rfl, hfree, sign, body, rfl, hsign⟩
    have hcolumn : ∀ c ∈ idColumn, (!isSign c) = true := by
      intro c hc
      rw [hfree c hc]
      rfl
    rw [List.takeWhile_append_of_pos hcolumn, List.dropWhile_append_of_pos hcolumn]
    simp [hsign]

/-- There is something on either side of the first sign. -/
theorem exists_cut_at_sign_iff :
    (∃ idColumn chain, rest = idColumn ++ chain ∧ idColumn ≠ [] ∧ SignFree idColumn ∧
      Opened chain) ↔ ¬ SignFree rest ∧ ¬ Opened rest := by
  constructor
  · rintro ⟨idColumn, chain, rfl, hcolumn, hfree, hopened⟩
    obtain ⟨sign, body, rfl, hsign⟩ := opened_iff.1 hopened
    obtain ⟨c, idColumn, rfl⟩ := List.exists_cons_of_ne_nil hcolumn
    constructor
    · intro hall
      rw [signFree_iff.1 hall sign (by simp)] at hsign
      cases hsign
    · intro hfirst
      obtain ⟨_, _, heq, hc⟩ := opened_iff.1 hfirst
      cases heq
      rw [signFree_iff.1 hfree c List.mem_cons_self] at hc
      cases hc
  · rintro ⟨hsome, hfirst⟩
    have hchain : rest.dropWhile (fun c => !isSign c) ≠ [] := by
      intro hnil
      rw [List.dropWhile_eq_nil_iff] at hnil
      apply hsome
      apply signFree_iff.2
      intro c hc
      simpa using hnil c hc
    obtain ⟨hrest, hfree, hopened⟩ := cut_at_sign_iff.1 ⟨rfl, rfl, hchain⟩
    refine ⟨_, _, hrest, ?_, hfree, opened_iff.2 hopened⟩
    intro hcolumn
    rw [hcolumn, List.nil_append] at hrest
    exact hfirst (opened_iff.2 (hrest ▸ hopened))

/-- What stands behind the at sign is cut in front of the first sign. -/
theorem split?_eq_some_iff : split? raw = some (path, idColumn, chain) ↔
    splitPath? raw = some (path, idColumn ++ chain) ∧ path ≠ [] ∧ idColumn ≠ [] ∧
      SignFree idColumn ∧ ∃ sign body, chain = sign :: body ∧ isSign sign = true := by
  unfold split?
  cases splitPath? raw with
  | none => simp
  | some parts =>
    obtain ⟨found, rest⟩ := parts
    dsimp only
    constructor
    · intro h
      split at h
      · cases h
      · rename_i hparts
        rw [not_or, not_or] at hparts
        obtain ⟨hchain, hpath, hcolumn⟩ := hparts
        cases h
        obtain ⟨heq, hfree, hsign⟩ := cut_at_sign_iff.1 ⟨rfl, rfl, hchain⟩
        exact ⟨by rw [← heq], hpath, hcolumn, hfree, hsign⟩
    · rintro ⟨heq, hpath, hcolumn, hfree, hsign⟩
      cases heq
      obtain ⟨htake, hdrop, hchain⟩ := cut_at_sign_iff.2 ⟨rfl, hfree, hsign⟩
      rw [htake, hdrop, if_neg (by simp [hpath, hcolumn, hchain])]

theorem split?_eq_some_iff_cut : split? raw = some (path, idColumn, chain) ↔
    ∃ before, CutAtBareSign raw before (idColumn ++ chain) ∧ before ≠ [] ∧
      path = unescape before ∧ idColumn ≠ [] ∧ SignFree idColumn ∧ Opened chain := by
  rw [split?_eq_some_iff, splitPath?_eq_some_iff_cut, ← opened_iff]
  constructor
  · rintro ⟨⟨before, hcut, rfl⟩, hpath, hparts⟩
    exact ⟨before, hcut, mt unescape_eq_nil_iff.2 hpath, rfl, hparts⟩
  · rintro ⟨before, hcut, hbefore, rfl, hparts⟩
    exact ⟨⟨before, hcut, rfl⟩, mt unescape_eq_nil_iff.1 hbefore, hparts⟩

theorem split?_isSome_iff : (∃ parts, split? raw = some parts) ↔
    ∃ before after, CutAtBareSign raw before after ∧ before ≠ [] ∧ ¬ SignFree after ∧
      ¬ Opened after := by
  constructor
  · rintro ⟨⟨path, idColumn, chain⟩, h⟩
    obtain ⟨before, hcut, hbefore, -, hcolumn, hfree, hopened⟩ := split?_eq_some_iff_cut.1 h
    exact ⟨before, _, hcut, hbefore,
      exists_cut_at_sign_iff.1 ⟨idColumn, chain, rfl, hcolumn, hfree, hopened⟩⟩
  · rintro ⟨before, after, hcut, hbefore, hafter⟩
    obtain ⟨idColumn, chain, rfl, hparts⟩ := exists_cut_at_sign_iff.2 hafter
    exact ⟨_, split?_eq_some_iff_cut.2 ⟨before, hcut, hbefore, rfl, hparts⟩⟩

end

/-- **Splitting a query undoes writing its parts.**  A text has parts exactly if it holds a bare at
sign with something in front of it, and behind the first such sign a text that holds a clause sign
but does not start with one.  The parts are what stands in front of the at sign, without its
backslashes before at signs, and what is cut at the first clause sign behind it.  Written again,
they are the text; and any parts are found again whose path does not end in a backslash.  No others
ever are. -/
theorem split?_inverts :
    (∀ raw, (∃ parts, split? raw = some parts) ↔ ∃ before after, CutAtBareSign raw before after ∧
      before ≠ [] ∧ ¬ SignFree after ∧ ¬ Opened after) ∧
    (∀ raw path idColumn chain, split? raw = some (path, idColumn, chain) ↔
      ∃ before, CutAtBareSign raw before (idColumn ++ chain) ∧ before ≠ [] ∧
        path = unescape before ∧ idColumn ≠ [] ∧ SignFree idColumn ∧ Opened chain) ∧
    (∀ path idColumn chain, path ≠ [] → path.getLast? ≠ some '\\' → idColumn ≠ [] →
      SignFree idColumn → Opened chain →
        split? (escapePath path ++ '@' :: (idColumn ++ chain)) = some (path, idColumn, chain)) ∧
    ∀ raw path idColumn chain, split? raw = some (path, idColumn, chain) →
      raw = escapePath path ++ '@' :: (idColumn ++ chain) ∧ path.getLast? ≠ some '\\' := by
  refine ⟨fun raw => split?_isSome_iff, fun raw path idColumn chain => split?_eq_some_iff_cut,
    ?_, ?_⟩
  · intro path idColumn chain hpath hlast hcolumn hfree hopened
    exact split?_eq_some_iff.2
      ⟨splitPath?_escapePath hlast, hpath, hcolumn, hfree, opened_iff.1 hopened⟩
  · intro raw path idColumn chain h
    exact splitPath?_eq_some_iff.1 (split?_eq_some_iff.1 h).1

/-- Two backslashes in front of an at sign, and another at sign behind it: the second backslash
escapes the first at sign. -/
theorem split?_inverts_of_backslashes :
    split? ['a', '\\', '\\', '@', '@', 'i', '@', '&', 'x'] =
        some (['a', '\\', '@'], ['i', '@'], ['&', 'x']) ∧
      ∃ before, CutAtBareSign ['a', '\\', '\\', '@', '@', 'i', '@', '&', 'x'] before
          ['i', '@', '&', 'x'] ∧ unescape before = ['a', '\\', '@'] := by
  obtain ⟨-, hparts, hwritten, -⟩ := split?_inverts
  have hsplit : split? ['a', '\\', '\\', '@', '@', 'i', '@', '&', 'x'] =
      some (['a', '\\', '@'], ['i', '@'], ['&', 'x']) :=
    hwritten ['a', '\\', '@'] ['i', '@'] ['&', 'x'] (by decide) (by decide) (by decide)
      ⟨by decide, by decide, by decide⟩ (.inr (.inr rfl))
  obtain ⟨before, hcut, -, hpath, -⟩ := (hparts _ _ _ _).1 hsplit
  exact ⟨hsplit, before, hcut, hpath.symm⟩

end ColumnSieve.Query
