import ColumnSieve.Column.Printer
import ColumnSieve.Proofs.Csv.Written

/-!
# Reading column specifications back

The written form of a specification has one reading.  Its tokens stand between commas; a token in
quotes is a name, whatever it holds, and any other one is a position or a range.

* `Token.read?`, `Spec.decode?` — the reading;
* `Token.read?_chars_append`    — a written token is read up to the comma behind it;
* `Token.read?_name_iff`        — names and nothing else are read of quotes;
* `Spec.decode?_render`         — every specification is read as it was;
* `render_unambiguous`          — so two of them are never written alike.
-/

namespace ColumnSieve

namespace Token

/-- The number that some digits denote. -/
def position? (digits : List Char) : Option Nat :=
  if digits ≠ [] ∧ digits.all Char.isDigit then some (Nat.ofDigitChars 10 digits 0) else none

/-- A position, or two of them with a dash in between. -/
def ofDigits? (text : List Char) : Option Token :=
  match (text.splitOn '-').map position? with
  | [some n] => some (.single n)
  | [some first, some last] => some (.range first last)
  | _ => none

/-- The token in front of a text, and the text behind it.  In quotes stands a name. -/
def read? (text : List Char) : Option (Token × List Char) :=
  if text.head? = some '"' then
    some (.name (String.ofList (Csv.field text).1), (Csv.field text).2)
  else (ofDigits? (Csv.field text).1).map fun token => (token, (Csv.field text).2)

theorem length_read? {text rest : List Char} {token : Token}
    (h : read? text = some (token, rest)) : rest.length ≤ text.length := by
  unfold read? at h
  split at h
  · cases h
    exact Csv.length_field text
  · obtain ⟨_, _, heq⟩ := Option.map_eq_some_iff.1 h
    cases heq
    exact Csv.length_field text

end Token

namespace Spec

/-- Tokens with commas between them. -/
def readTokens? (text : List Char) : Option (List Token) :=
  match h : Token.read? text with
  | some (token, []) => some [token]
  | some (token, ',' :: rest) =>
    have : rest.length < text.length := Token.length_read? h
    (readTokens? rest).map (token :: ·)
  | _ => none
termination_by text.length

/-- The tokens that a text denotes. -/
def decode? (text : String) : Option (List Token) :=
  if text = "" then some [] else readTokens? text.toList

end Spec

/-! ## Positions -/

namespace Token

variable {rest : List Char}

theorem isDigit_of_mem {c : Char} {n : Nat} (h : c ∈ Nat.toDigits 10 n) : c.isDigit = true :=
  Nat.isDigit_of_mem_toDigits (by omega) (by omega) h

theorem position?_toDigits (n : Nat) : position? (Nat.toDigits 10 n) = some n := by
  have hdigits : (Nat.toDigits 10 n).all Char.isDigit = true := by
    rw [List.all_eq_true]
    intro c hc
    exact isDigit_of_mem hc
  rw [position?, if_pos ⟨Nat.toDigits_ne_nil, hdigits⟩, Nat.ofDigitChars_ten_toDigits]

theorem dash_not_mem_toDigits (n : Nat) : '-' ∉ Nat.toDigits 10 n := by
  intro hdash
  have hdigit : Char.isDigit '-' = true := isDigit_of_mem hdash
  simp at hdigit

theorem ofDigits?_single (n : Nat) : ofDigits? (Nat.toDigits 10 n) = some (.single n) := by
  have hparts : (Nat.toDigits 10 n).splitOn '-' = [Nat.toDigits 10 n] :=
    List.splitOn_eq_singleton (dash_not_mem_toDigits n)
  simp [ofDigits?, hparts, position?_toDigits]

theorem ofDigits?_range (first last : Nat) :
    ofDigits? (Nat.toDigits 10 first ++ '-' :: Nat.toDigits 10 last) =
      some (.range first last) := by
  have hparts : (Nat.toDigits 10 first ++ '-' :: Nat.toDigits 10 last).splitOn '-' =
      [Nat.toDigits 10 first, Nat.toDigits 10 last] := by
    rw [List.splitOn_append_cons_self, List.splitOn_eq_singleton (dash_not_mem_toDigits first),
      List.splitOn_eq_singleton (dash_not_mem_toDigits last)]
    rfl
  simp [ofDigits?, hparts, position?_toDigits]

/-! ## Tokens -/

/-- Without quotes, commas and ends of records a token is the bare field that it looks like. -/
theorem read?_bare_append {text : List Char} {token : Token}
    (htext : ∀ c ∈ text, c.isDigit = true ∨ c = '-') (hne : text ≠ [])
    (htoken : ofDigits? text = some token) (hrest : Csv.Stops rest) :
    read? (text ++ rest) = some (token, rest) := by
  have hbare : ∀ c ∈ text, c ≠ ',' ∧ c ≠ '"' ∧ Csv.isEnd c = false := by
    intro c hc
    refine ⟨?_, ?_, ?_⟩
    · rintro rfl
      simpa using htext ',' hc
    · rintro rfl
      simpa using htext '"' hc
    · simp only [Csv.isEnd, Bool.or_eq_false_iff, beq_eq_false_iff_ne]
      constructor
      · rintro rfl
        simpa using htext '\n' hc
      · rintro rfl
        simpa using htext '\r' hc
  have hfirst : (text ++ rest).head? ≠ some '"' := by
    obtain ⟨c, tail, rfl⟩ := List.exists_cons_of_ne_nil hne
    simpa using (hbare c (by simp)).2.1
  rw [read?, if_neg hfirst, Csv.field_bare_append hne hbare hrest, htoken, Option.map_some]

/-- **A written token is read back**, up to where it ends. -/
theorem read?_chars_append (token : Token) (hrest : Csv.Stops rest) :
    read? (token.chars ++ rest) = some (token, rest) := by
  cases token with
  | name text =>
    have hfirst : (quoted text.toList ++ rest).head? = some '"' := rfl
    rw [chars, read?, if_pos hfirst, Csv.field_quoted_append _ hrest, String.ofList_toList]
  | single n =>
    refine read?_bare_append ?_ Nat.toDigits_ne_nil (ofDigits?_single n) hrest
    intro c hc
    exact .inl (isDigit_of_mem hc)
  | range first last =>
    refine read?_bare_append ?_ (by simp [chars]) (ofDigits?_range first last) hrest
    intro c hc
    rw [chars, List.mem_append, List.mem_cons] at hc
    obtain hc | rfl | hc := hc
    · exact .inl (isDigit_of_mem hc)
    · exact .inr rfl
    · exact .inl (isDigit_of_mem hc)

theorem ofDigits?_ne_name (text : List Char) (name : String) :
    ofDigits? text ≠ some (.name name) := by
  unfold ofDigits?
  split
  · simp
  · simp
  · simp

/-- What stands in quotes is read as a name, and what does not is never read as one. -/
theorem read?_name_iff {text : List Char} {token : Token} (h : read? text = some (token, rest)) :
    (∃ name, token = .name name) ↔ text.head? = some '"' := by
  unfold read? at h
  split at h
  · rename_i hquote
    cases h
    simp [hquote]
  · rename_i hquote
    obtain ⟨token', htoken, heq⟩ := Option.map_eq_some_iff.1 h
    cases heq
    refine iff_of_false ?_ hquote
    rintro ⟨name, rfl⟩
    exact ofDigits?_ne_name _ name htoken

theorem chars_ne_nil (token : Token) : token.chars ≠ [] := by
  cases token with
  | name text => simp [chars, quoted]
  | single n => exact Nat.toDigits_ne_nil
  | range first last => simp [chars]

end Token

/-! ## Specifications -/

namespace Spec

theorem readTokens?_of_last {text : List Char} {token : Token}
    (h : Token.read? text = some (token, [])) : readTokens? text = some [token] := by
  unfold readTokens?
  split
  · rename_i hread
    cases h.symm.trans hread
    rfl
  · rename_i hread
    cases h.symm.trans hread
  · rename_i hlast _
    exact absurd h (hlast token)

theorem readTokens?_of_comma {text rest : List Char} {token : Token}
    (h : Token.read? text = some (token, ',' :: rest)) :
    readTokens? text = (readTokens? rest).map (token :: ·) := by
  conv_lhs => unfold readTokens?
  split
  · rename_i hread
    cases h.symm.trans hread
  · rename_i hread
    cases h.symm.trans hread
    rfl
  · rename_i hcomma
    exact absurd h (hcomma token rest)

theorem readTokens?_intercalate {tokens : List Token} (h : tokens ≠ []) :
    readTokens? ([','].intercalate (tokens.map Token.chars)) = some tokens := by
  induction tokens with
  | nil => exact absurd rfl h
  | cons token tokens ih =>
    cases tokens with
    | nil =>
      have hread : Token.read? (token.chars ++ []) = some (token, []) :=
        Token.read?_chars_append token (by simp [Csv.Stops])
      rw [List.append_nil] at hread
      simpa using readTokens?_of_last hread
    | cons next tokens =>
      have hstops : Csv.Stops (',' :: [','].intercalate ((next :: tokens).map Token.chars)) := by
        simp [Csv.Stops]
      have hread := readTokens?_of_comma (Token.read?_chars_append token hstops)
      rw [ih (by simp), Option.map_some] at hread
      simpa using hread

/-- **Every specification is read as it was.** -/
theorem decode?_render (spec : Spec) : decode? spec.render = some spec.tokens := by
  obtain ⟨tokens⟩ := spec
  cases tokens with
  | nil => rfl
  | cons token tokens =>
    have hne : render ⟨token :: tokens⟩ ≠ "" := by
      intro hempty
      have hnil := congrArg String.toList hempty
      rw [render, String.toList_ofList] at hnil
      cases tokens with
      | nil => simp [token.chars_ne_nil] at hnil
      | cons next tokens => simp at hnil
    rw [decode?, if_neg hne, render, String.toList_ofList]
    exact readTokens?_intercalate (by simp)

end Spec

/-- **The written form of a specification is unambiguous.**  It is read back as it was, so no two
specifications are written alike.  A token in quotes is read as a name, and a token is read as a
name only there: no name is ever taken for a position or a range, whatever stands behind it. -/
theorem render_unambiguous (spec : Spec) :
    Spec.decode? spec.render = some spec.tokens ∧
    (∀ other : Spec, spec.render = other.render ↔ spec.tokens = other.tokens) ∧
    (∀ name rest token left, Token.read? ((Token.name name).chars ++ rest) = some (token, left) →
      ∃ name', token = .name name') ∧
    ∀ text token left, Token.read? text = some (token, left) → text.head? ≠ some '"' →
      ∀ name, token ≠ .name name := by
  refine ⟨Spec.decode?_render spec, ?_, ?_, ?_⟩
  · intro other
    constructor
    · intro hsame
      have hdecode := Spec.decode?_render other
      rw [← hsame, Spec.decode?_render] at hdecode
      exact Option.some.inj hdecode
    · intro hsame
      rw [Spec.render, Spec.render, hsame]
  · intro name rest token left hread
    exact (Token.read?_name_iff hread).2 rfl
  · rintro text token left hread hbare name rfl
    exact hbare ((Token.read?_name_iff hread).1 ⟨name, rfl⟩)

/-! ## Names that look like other tokens -/

/-- Names that look like a range, like two tokens, like nothing and like a position. -/
def deceptiveSpec : Spec :=
  ⟨[.single 2, .range 5 18446744073709551615, .name "1-4", .name "a\",\"b", .name "", .name "7"]⟩

theorem render_unambiguous_of_deceptive :
    deceptiveSpec.render = "2,5-18446744073709551615,\"1-4\",\"a\"\",\"\"b\",\"\",\"7\"" ∧
    Spec.decode? deceptiveSpec.render = some deceptiveSpec.tokens ∧
    deceptiveSpec.render ≠ Spec.render ⟨[.single 2, .range 5 18446744073709551615, .range 1 4,
      .name "a", .name "b", .name "", .single 7]⟩ ∧
    (∀ token left, Token.read? "\"1-4\",7".toList = some (token, left) →
      ∃ name, token = .name name) ∧
    ∀ name, Token.read? "1-4,7".toList ≠ some (.name name, ",7".toList) := by
  obtain ⟨hdecode, hinjective, hname, hbare⟩ := render_unambiguous deceptiveSpec
  refine ⟨by decide, hdecode, ?_, ?_, ?_⟩
  · rw [ne_eq, hinjective]
    decide
  · intro token left hread
    exact hname "1-4" ",7".toList token left hread
  · intro name hread
    exact hbare "1-4,7".toList _ _ hread (by decide) name rfl

end ColumnSieve
