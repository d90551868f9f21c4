import ColumnSieve.Proofs.Clause.RoundTrip

/-!
# Which chains are read, and as what

A chain is read segment by segment.  What a segment has to look like, what it is then read as and
what is wrong with it otherwise are said here of its text alone.

* `Readable`, `Clause.Reads` — a segment that is a clause, and the clause that it is;
* `ClauseError.Blames`       — the fault of any other segment;
* `ofSegment_eq_ok_iff_reads`, `ofSegment_eq_error_iff` — one segment;
* `parse_grammar`            — a whole chain: all its segments, or the leftmost at fault.
-/

namespace ColumnSieve

/-- What stands behind a sign has a comparator with something in front of it.  An equal sign in
front does no harm if an unequal sign comes later, which is then the comparator. -/
structure ReadableBody (body : List Char) : Prop where
  equal_mem : '=' ∈ body
  not_unequal_first : ¬ ['!', '='] <+: body
  equal_first : ['='] <+: body → ['!', '='] <:+: body

/-- A sign with such a body. -/
def Readable (segment : List Char) : Prop := Opened segment ∧ ReadableBody segment.tail

/-- The values that a text stands for: those between its commas if it stands in brackets, each at
its first place; or the text itself. -/
def ListsValues (text : List Char) (values : List (List Char)) : Prop :=
  (∃ fields, fields ≠ [] ∧ (∀ field ∈ fields, ',' ∉ field) ∧
      text = '[' :: ([','].intercalate fields ++ [']']) ∧ values = fields.eraseDups) ∨
    ¬ (text.head? = some '[' ∧ text.getLast? = some ']') ∧ values = [text]

/-- The clause has the sign of the segment, compares by the unequal sign if there is one behind
it, and has what stands in front of the first comparator and behind it. -/
structure Clause.Reads (clause : Clause) (segment : List Char) : Prop where
  combinator_eq : match clause.combinator with
    | .union => segment.head? = some '?' ∨ segment.head? = some '|'
    | .intersect => segment.head? = some '&'
  comparator_eq : clause.comparator = .notEqual ↔ ['!', '='] <:+: segment.tail
  cut : ∃ text, Text.CutAtFirst clause.comparator.symbol segment.tail clause.column.toList text ∧
    ListsValues text (clause.values.map String.toList)

/-- The cause quotes the segment and is the first thing wrong with it. -/
def ClauseError.Blames (cause : ClauseError) (segment : List Char) : Prop :=
  match cause with
  | .noClauses => False
  | .noSign quote => quote = String.ofList segment ∧ ¬ Opened segment
  | .noComparator quote =>
    quote = String.ofList segment ∧ Opened segment ∧ '=' ∉ segment.tail
  | .noColumn quote =>
    quote = String.ofList segment ∧ Opened segment ∧ '=' ∈ segment.tail ∧ ¬ Readable segment

/-! ## One segment -/

section

variable {text body column segment : List Char} {values : List (List Char)}
  {comparator : Comparator} {clause : Clause} {cause : ClauseError}

theorem parseValues_eq_iff : parseValues text = values ↔ ListsValues text values := by
  unfold parseValues ListsValues
  cases hinner : unbracket? text with
  | none =>
    have hbare := unbracket?_eq_none_iff.1 hinner
    have hno (fields : List (List Char)) :
        text ≠ '[' :: ([','].intercalate fields ++ [']']) := by
      rw [ne_eq, ← unbracket?_eq_some_iff, hinner]
      simp
    unfold Bracketed at hbare
    simp [hno, hbare, eq_comm]
  | some inner =>
    have htext := unbracket?_eq_some_iff.1 hinner
    have hlisted : text.head? = some '[' ∧ text.getLast? = some ']' := by
      rw [htext]
      exact ⟨rfl, List.getLast?_eq_some_iff.2 ⟨'[' :: inner, rfl⟩⟩
    simp only [hlisted, and_self, not_true_eq_false, false_and, or_false]
    constructor
    · rintro rfl
      refine ⟨inner.splitOn ',', List.splitOn_ne_nil _ _,
        fun field => Text.not_mem_of_mem_splitOn, ?_, rfl⟩
      rw [List.intercalate_splitOn, htext]
    · rintro ⟨fields, hne, hfree, hfields, rfl⟩
      have hjoin : [','].intercalate fields = inner := by simpa [htext, eq_comm] using hfields
      rw [← hjoin, List.splitOn_intercalate _ hfree hne]

/-- A body is cut at its first unequal sign or, if it has none, at its first equal sign. -/
theorem cutComparator?_eq_some_iff_first : cutComparator? body = some (column, comparator, text) ↔
    (comparator = .notEqual ↔ ['!', '='] <:+: body) ∧
      Text.CutAtFirst comparator.symbol body column text := by
  rw [← Text.cutAt?_eq_some_iff_first, cutComparator?]
  cases hun : Text.cutAt? Comparator.notEqual.symbol body with
  | some parts =>
    have hin : ['!', '='] <:+: body := by
      by_contra hno
      have := Text.cutAt?_eq_none_iff.2 hno
      simp [Comparator.symbol, this] at hun
    cases comparator with
    | notEqual => simp [hun, hin, Prod.ext_iff]
    | equal => simp [hin]
  | none =>
    have hno : ¬ ['!', '='] <:+: body := Text.cutAt?_eq_none_iff.1 hun
    cases comparator with
    | notEqual =>
      cases Text.cutAt? Comparator.equal.symbol body <;> simp [hno]
    | equal =>
      cases Text.cutAt? Comparator.equal.symbol body <;> simp [hno, Prod.ext_iff]

theorem cutComparator?_eq_none_iff : cutComparator? body = none ↔ '=' ∉ body := by
  have hnone : cutComparator? body = none ↔
      Text.cutAt? ['!', '='] body = none ∧ Text.cutAt? ['='] body = none := by
    unfold cutComparator? Comparator.symbol
    cases Text.cutAt? ['!', '='] body with
    | some parts => simp
    | none => cases Text.cutAt? ['='] body <;> simp
  rw [hnone, Text.cutAt?_eq_none_iff, Text.cutAt?_eq_none_iff, List.singleton_infix_iff]
  exact and_iff_right_of_imp fun hno hin => hno (hin.subset (by simp))

theorem equal_mem_of_cut (h : cutComparator? body = some (column, comparator, text)) :
    '=' ∈ body := by
  by_contra hno
  cases (cutComparator?_eq_none_iff.2 hno).symm.trans h

/-- Where there is a comparator, something has to stand in front of it. -/
theorem readable_iff (hopened : Opened segment)
    (hcut : cutComparator? segment.tail = some (column, comparator, text)) :
    Readable segment ↔ column ≠ [] := by
  obtain ⟨hunequal, hfirst⟩ := cutComparator?_eq_some_iff_first.1 hcut
  have hequal := equal_mem_of_cut hcut
  rw [ne_eq, hfirst.before_eq_nil_iff]
  cases comparator with
  | notEqual =>
    have hin := hunequal.1 rfl
    exact ⟨fun h => h.2.not_unequal_first, fun h => ⟨hopened, hequal, h, fun _ => hin⟩⟩
  | equal =>
    have hno : ¬ ['!', '='] <:+: segment.tail := fun hin => nomatch hunequal.2 hin
    constructor
    · intro h hfront
      exact hno (h.2.equal_first hfront)
    · intro h
      exact ⟨hopened, hequal, fun hfront => hno hfront.isInfix, fun hfront => absurd hfront h⟩

theorem sign_eq_none_iff : segment.head?.bind Combinator.ofSign? = none ↔ ¬ Opened segment := by
  cases segment with
  | nil => simp [Opened]
  | cons c body =>
    have hsign : Combinator.ofSign? c = none ↔ isSign c = false := by
      rw [isSign, Option.isSome_eq_false_iff, Option.isNone_iff_eq_none]
    simp [Opened, hsign, ← isSign_iff]

theorem sign_eq_some_iff {combinator : Combinator} :
    segment.head?.bind Combinator.ofSign? = some combinator ↔
      match combinator with
      | .union => segment.head? = some '?' ∨ segment.head? = some '|'
      | .intersect => segment.head? = some '&' := by
  cases segment with
  | nil => cases combinator <;> simp
  | cons c body =>
    simp only [List.head?_cons, Option.bind_some, Combinator.ofSign?, Option.some.injEq]
    split
    · cases combinator <;> simp
    · cases combinator <;> simp
    · cases combinator <;> simp
    · cases combinator <;> simp_all

theorem opened_of_sign {combinator : Combinator}
    (h : segment.head?.bind Combinator.ofSign? = some combinator) : Opened segment := by
  by_contra hno
  cases (sign_eq_none_iff.2 hno).symm.trans h

/-- **What a segment is read as**, if it is a clause. -/
theorem ofSegment_eq_ok_iff_reads :
    Clause.ofSegment segment = .ok clause ↔ Readable segment ∧ clause.Reads segment := by
  have hvalues (text : List Char) : clause.values = (parseValues text).map String.ofList ↔
      ListsValues text (clause.values.map String.toList) := by
    rw [← parseValues_eq_iff]
    constructor
    · intro h
      simp [h]
    · intro h
      simp [h]
  rw [Clause.ofSegment_eq_ok_iff]
  constructor
  · rintro ⟨sign, body, text, rfl, hsign, hcut, hne, hlist⟩
    have hopened : Opened (sign :: body) := opened_of_sign hsign
    obtain ⟨hunequal, hfirst⟩ := cutComparator?_eq_some_iff_first.1 hcut
    refine ⟨(readable_iff hopened hcut).2 ?_, sign_eq_some_iff.1 hsign, hunequal, text, hfirst,
      (hvalues text).1 hlist⟩
    simpa using hne
  · rintro ⟨hreadable, hsign, hunequal, text, hfirst, hlist⟩
    obtain ⟨sign, body, rfl, -⟩ := opened_iff.1 hreadable.1
    have hcut := cutComparator?_eq_some_iff_first.2 ⟨hunequal, hfirst⟩
    have hne := (readable_iff hreadable.1 hcut).1 hreadable
    exact ⟨sign, body, text, rfl, sign_eq_some_iff.2 hsign, hcut, by simpa using hne,
      (hvalues text).2 hlist⟩

/-- **What is wrong with a segment**, if it is no clause. -/
theorem ofSegment_eq_error_iff :
    Clause.ofSegment segment = .error cause ↔ cause.Blames segment := by
  unfold Clause.ofSegment
  cases hsign : segment.head?.bind Combinator.ofSign? with
  | none =>
    have hclosed := sign_eq_none_iff.1 hsign
    cases cause <;> simp [ClauseError.Blames, hclosed, eq_comm]
  | some combinator =>
    have hopened := opened_of_sign hsign
    cases hcut : cutComparator? segment.tail with
    | none =>
      have hequal := cutComparator?_eq_none_iff.1 hcut
      cases cause <;> simp [ClauseError.Blames, hopened, hequal, eq_comm]
    | some parts =>
      obtain ⟨column, comparator, text⟩ := parts
      have hequal := equal_mem_of_cut hcut
      cases column with
      | nil =>
        have hfaulty : ¬ Readable segment := by simp [readable_iff hopened hcut]
        cases cause <;> simp [ClauseError.Blames, hopened, hequal, hfaulty, eq_comm]
      | cons c column =>
        have hfine : Readable segment := by simp [readable_iff hopened hcut]
        cases cause <;> simp [ClauseError.Blames, hopened, hequal, hfine]

/-- A segment is a clause or there is something wrong with it. -/
theorem readable_iff_isOk : Readable segment ↔ ∃ clause, Clause.ofSegment segment = .ok clause := by
  constructor
  · intro h
    cases hread : Clause.ofSegment segment with
    | ok clause => exact ⟨clause, rfl⟩
    | error cause =>
      have hblame := ofSegment_eq_error_iff.1 hread
      cases cause with
      | noClauses => exact hblame.elim
      | noSign quote => exact absurd h.1 hblame.2
      | noComparator quote => exact absurd h.2.equal_mem hblame.2.2
      | noColumn quote => exact absurd h hblame.2.2.2
  · rintro ⟨clause, h⟩
    exact (ofSegment_eq_ok_iff_reads.1 h).1

end

/-! ## Chains -/

section

variable {chain : List Char} {clauses : List Clause} {cause : ClauseError} {segment : List Char}

/-- The fault is reported with the segment in single quotes. -/
theorem message_of_blames (h : cause.Blames segment) :
    ∃ reason, cause.message = "'" ++ String.ofList segment ++ "'" ++ reason := by
  cases cause with
  | noClauses => exact h.elim
  | noSign quote =>
    obtain ⟨rfl, -⟩ := h
    refine ⟨" does not start with one of '?', '|' or '&'", ?_⟩
    rw [String.append_assoc]
    rfl
  | noComparator quote =>
    obtain ⟨rfl, -⟩ := h
    refine ⟨" has no '=' or '!=' comparator", ?_⟩
    rw [String.append_assoc]
    rfl
  | noColumn quote =>
    obtain ⟨rfl, -⟩ := h
    refine ⟨" has no variable", ?_⟩
    rw [String.append_assoc]
    rfl

theorem Clause.parse_eq_error_iff {text : String} {error : Error} : parse text = .error error ↔
    ∃ cause, parseChars text.toList = .error cause ∧ .invalidClause cause = error := by
  unfold parse
  cases parseChars text.toList with
  | error cause => simp [Except.mapError]
  | ok clauses => simp [Except.mapError]

theorem parseChars_isOk_iff : (∃ clauses, Clause.parseChars chain = .ok clauses) ↔
    chain ≠ [] ∧ ∀ segment ∈ segments chain, Readable segment := by
  simp only [Clause.parseChars_eq_ok_iff, exists_and_left, Outcome.mapM_isOk_iff, readable_iff_isOk]

theorem reads_of_parseChars (h : Clause.parseChars chain = .ok clauses) :
    List.Forall₂ (fun segment clause => clause.Reads segment) (segments chain) clauses := by
  have hall := Outcome.mapM_eq_ok_iff.1 (Clause.parseChars_eq_ok_iff.1 h).2
  exact hall.imp fun segment clause hread => (ofSegment_eq_ok_iff_reads.1 hread).2

theorem blames_of_parseChars (hne : chain ≠ []) (h : Clause.parseChars chain = .error cause) :
    ∃ before faulty after, segments chain = before ++ faulty :: after ∧
      (∀ segment ∈ before, Readable segment) ∧ cause.Blames faulty := by
  obtain ⟨c, rest, rfl⟩ := List.exists_cons_of_ne_nil hne
  obtain ⟨before, faulty, after, hparts, hbefore, hfaulty⟩ := Outcome.mapM_eq_error_iff.1 h
  exact ⟨before, faulty, after, hparts, fun segment hs => readable_iff_isOk.2 (hbefore segment hs),
    ofSegment_eq_error_iff.1 hfaulty⟩

/-- The first segment has a sign in front if the chain has; the others have in any case. -/
theorem opened_segments_iff (hne : chain ≠ []) :
    (∀ segment ∈ segments chain, Opened segment) ↔ Opened chain := by
  obtain ⟨hflatten, hparts, -, hopened⟩ := cutAtSigns_iff.2 (rfl : segments chain = segments chain)
  cases hs : segments chain with
  | nil => exact absurd (List.splitBy_eq_nil.1 hs) hne
  | cons first rest =>
    rw [hs] at hflatten hparts hopened
    obtain ⟨c, body, rfl⟩ := List.exists_cons_of_ne_nil (hparts first List.mem_cons_self)
    have hfirst : Opened (c :: body) ↔ Opened chain := by
      rw [← hflatten]
      rfl
    rw [List.forall_mem_cons, hfirst]
    exact and_iff_left hopened

/-- **The grammar of chains.**  A text has one way to be cut at its signs.  It is a chain exactly if
it starts with a sign, and something with a comparator behind it stands behind every sign; each part
is then one clause.  Otherwise the leftmost part at fault is quoted. -/
theorem parse_grammar (text : String) : ∃ parts,
    (∀ parts', CutAtSigns text.toList parts' ↔ parts' = parts) ∧
    ((∃ clauses, Clause.parse text = .ok clauses) ↔
      text ≠ "" ∧ Opened text.toList ∧ ∀ part ∈ parts, ReadableBody part.tail) ∧
    (∀ clauses, Clause.parse text = .ok clauses →
      List.Forall₂ (fun part clause => clause.Reads part) parts clauses) ∧
    ∀ error, text ≠ "" → Clause.parse text = .error error →
      ∃ before faulty after cause, parts = before ++ faulty :: after ∧
        (∀ part ∈ before, Readable part) ∧ cause.Blames faulty ∧ error = .invalidClause cause ∧
        ∃ reason, error.message =
          "Invalid clause: '" ++ String.ofList faulty ++ "'" ++ reason := by
  have hnil : text ≠ "" ↔ text.toList ≠ [] := not_congr String.toList_eq_nil_iff.symm
  refine ⟨segments text.toList, fun parts' => cutAtSigns_iff, ?_, ?_, ?_⟩
  · simp only [Clause.parse_eq_ok_iff]
    rw [parseChars_isOk_iff, hnil]
    refine and_congr_right fun hne => ?_
    rw [← opened_segments_iff hne, ← forall₂_and]
    rfl
  · intro clauses h
    exact reads_of_parseChars (Clause.parse_eq_ok_iff.1 h)
  · intro error hne h
    obtain ⟨cause, hcause, rfl⟩ := Clause.parse_eq_error_iff.1 h
    obtain ⟨before, faulty, after, hparts, hbefore, hblame⟩ :=
      blames_of_parseChars (hnil.1 hne) hcause
    obtain ⟨reason, hreason⟩ := message_of_blames hblame
    refine ⟨before, faulty, after, cause, hparts, hbefore, hblame, rfl, reason, ?_⟩
    have hquote : "Invalid clause: '" = "Invalid clause: " ++ "'" := rfl
    show "Invalid clause: " ++ cause.message = _
    simp only [hreason, hquote, String.append_assoc]

end

/-- An equal sign right behind the sign of a clause is a fault, but not if an unequal sign comes
later. -/
theorem parse_grammar_of_equal_first :
    Clause.parse "?a=b&=x|c" = .error (.invalidClause (.noColumn "&=x")) ∧
      (∃ reason, Error.message (.invalidClause (.noColumn "&=x")) =
        "Invalid clause: '" ++ "&=x" ++ "'" ++ reason) ∧
      Clause.parse "?=!=x" = .ok [⟨.union, "=", .notEqual, ["x"]⟩] ∧
      Clause.Reads ⟨.union, "=", .notEqual, ["x"]⟩ "?=!=x".toList := by
  have hfault : Clause.parse "?a=b&=x|c" = .error (.invalidClause (.noColumn "&=x")) := by
    decide +kernel
  have hread : Clause.parse "?=!=x" = .ok [⟨.union, "=", .notEqual, ["x"]⟩] := by
    decide +kernel
  refine ⟨hfault, ?_, hread, ?_⟩
  · obtain ⟨parts, -, -, -, hfaulty⟩ := parse_grammar "?a=b&=x|c"
    obtain ⟨before, faulty, after, cause, -, -, hblame, hcause, hmessage⟩ :=
      hfaulty _ (by decide) hfault
    cases hcause
    exact hblame.1 ▸ hmessage
  · obtain ⟨parts, hparts, -, hreads, -⟩ := parse_grammar "?=!=x"
    obtain rfl := (hparts ["?=!=x".toList]).1 (cutAtSigns_iff.2 (by decide +kernel))
    exact (List.forall₂_cons.1 (hreads _ hread)).1

end ColumnSieve
