import ColumnSieve.Column.Printer
import ColumnSieve.Csv.Reader
import ColumnSieve.Proofs.Outcome
import ColumnSieve.Proofs.Text.Lines

/-!
# One column of comma-separated values

A value is written as it is, or in double quotes with its own quotes doubled; a value that is empty,
or holds a character with a meaning of its own, has to be in quotes.  However each value of a column
is written, the reader gives back the value.

* `Csv.Written`                — the ways to write a value;
* `Csv.field_append`           — a written value is read up to the comma or the end of its record;
* `Csv.records_unlines`        — values written one to a line are records of one field;
* `Csv.firstFields_unlines`    — under a header they are the first fields, none lost or moved, unless
  the header is a byte order mark and nothing else.
-/

namespace ColumnSieve.Csv

/-- A text that starts where a field ends: with nothing, a comma or the end of a record. -/
def Stops (text : List Char) : Prop := ∀ c ∈ text.head?, c = ',' ∨ isEnd c = true

/-- A value and a text that it may be written as. -/
inductive Written (value : List Char) : List Char → Prop
  | bare : value ≠ [] → (∀ c ∈ value, c ≠ ',' ∧ c ≠ '"' ∧ isEnd c = false) → Written value value
  | inQuotes : Written value (quoted value)

/-- The byte order mark. -/
def mark : Char := '\ufeff'

variable {value form rest : List Char}

/-! ## Fields -/

theorem bareField_of_stops (h : Stops rest) : bareField rest = ([], rest) := by
  unfold bareField
  cases rest with
  | nil => rfl
  | cons c rest =>
    have hc : (!(c == ',' || isEnd c)) = false := by
      rcases h c (by simp) with rfl | hend
      · rfl
      · simp [hend]
    rw [List.takeWhile_cons_of_neg (by simp [hc]), List.dropWhile_cons_of_neg (by simp [hc])]

theorem bareField_append (hvalue : ∀ c ∈ value, c ≠ ',' ∧ isEnd c = false) (hrest : Stops rest) :
    bareField (value ++ rest) = (value, rest) := by
  have hinside : ∀ c ∈ value, (!(c == ',' || isEnd c)) = true := by
    intro c hc
    simp [hvalue c hc]
  have hstop := bareField_of_stops hrest
  simp only [bareField, Prod.mk.injEq] at hstop ⊢
  rw [List.takeWhile_append_of_pos hinside, List.dropWhile_append_of_pos hinside, hstop.1, hstop.2,
    List.append_nil]
  exact ⟨rfl, rfl⟩

theorem Stops.head?_ne_quote (h : Stops rest) : rest.head? ≠ some '"' := by
  intro hquote
  simpa [isEnd] using h '"' hquote

theorem quotedField_cons {c : Char} (h : c ≠ '"') (s : List Char) :
    quotedField (c :: s) = (c :: (quotedField s).1, (quotedField s).2) := by
  rw [quotedField]
  · simp [h]
  · simp [h]

/-- A quote that is not followed by another one closes the field. -/
theorem quotedField_close (h : Stops rest) : quotedField ('"' :: rest) = ([], rest) := by
  rw [quotedField, bareField_of_stops h]
  rintro s rfl
  exact h.head?_ne_quote rfl

theorem quotedField_doubled (value : List Char) (hrest : Stops rest) :
    quotedField ((value.flatMap fun c => if c = '"' then ['"', '"'] else [c]) ++ '"' :: rest) =
      (value, rest) := by
  induction value with
  | nil => exact quotedField_close hrest
  | cons c value ih =>
    rw [List.flatMap_cons, List.append_assoc]
    by_cases hc : c = '"'
    · subst hc
      simp [quotedField, ih]
    · rw [if_neg hc, List.singleton_append, quotedField_cons hc, ih]

theorem quoted_append (value rest : List Char) : quoted value ++ rest =
    '"' :: ((value.flatMap fun c => if c = '"' then ['"', '"'] else [c]) ++ '"' :: rest) := by
  simp [quoted]

theorem field_quoted_append (value : List Char) (hrest : Stops rest) :
    field (quoted value ++ rest) = (value, rest) := by
  rw [quoted_append, field, quotedField_doubled value hrest]

theorem field_of_head?_ne {s : List Char} (h : s.head? ≠ some '"') : field s = bareField s := by
  unfold field
  split
  · exact absurd rfl h
  · rfl

theorem field_bare_append (hne : value ≠ [])
    (hvalue : ∀ c ∈ value, c ≠ ',' ∧ c ≠ '"' ∧ isEnd c = false) (hrest : Stops rest) :
    field (value ++ rest) = (value, rest) := by
  have hfirst : (value ++ rest).head? ≠ some '"' := by
    obtain ⟨c, tail, rfl⟩ := List.exists_cons_of_ne_nil hne
    simpa using (hvalue c (by simp)).2.1
  rw [field_of_head?_ne hfirst]
  exact bareField_append (fun c hc => ⟨(hvalue c hc).1, (hvalue c hc).2.2⟩) hrest

/-- **A written value is read back**, up to where its field ends. -/
theorem field_append (h : Written value form) (hrest : Stops rest) :
    field (form ++ rest) = (value, rest) := by
  cases h with
  | bare hne hvalue => exact field_bare_append hne hvalue hrest
  | inQuotes => exact field_quoted_append value hrest

/-! ## Records -/

theorem stops_newline (rest : List Char) : Stops ('\n' :: rest) := by
  intro c hc
  rw [List.head?_cons, Option.mem_some_iff] at hc
  subst hc
  exact .inr rfl

theorem fields_append (h : Written value form) (rest : List Char) :
    fields (form ++ '\n' :: rest) = ([value], '\n' :: rest) := by
  have hfield := field_append h (stops_newline rest)
  unfold fields
  split
  · rename_i after hcomma
    rw [hfield] at hcomma
    simp at hcomma
  · rw [hfield]

theorem Written.exists_cons (h : Written value form) :
    ∃ c body, form = c :: body ∧ isEnd c = false := by
  cases h with
  | bare hne hvalue =>
    obtain ⟨c, body, rfl⟩ := List.exists_cons_of_ne_nil hne
    exact ⟨c, body, rfl, (hvalue c (by simp)).2.2⟩
  | inQuotes => exact ⟨'"', _, rfl, rfl⟩

/-- A record whose only field is the value. -/
def Record.Holds (record : Record) (value : List Char) : Prop := record.fields = [value]

/-- A value on a line of its own is one record. -/
theorem records_append (h : Written value form) (rest : List Char) : ∃ record, record.Holds value ∧
      records (form ++ '\n' :: rest) = record :: records rest := by
  obtain ⟨c, body, rfl, hc⟩ := h.exists_cons
  have hfields := fields_append h rest
  have hkept : ((c :: body) ++ '\n' :: rest).dropWhile isEnd = (c :: body) ++ '\n' :: rest := by
    simp [hc]
  rw [records]
  split
  · rename_i hnil
    rw [hkept] at hnil
    simp at hnil
  · rename_i hcons
    rw [← hcons, hkept, hfields]
    exact ⟨⟨[value], _⟩, rfl, rfl⟩

section

variable {values forms : List (List Char)}

/-- **Values written one to a line are records of one field**, in their order. -/
theorem records_unlines (h : List.Forall₂ Written values forms) :
    List.Forall₂ Record.Holds (records (Text.unlines forms)) values := by
  induction h with
  | nil => simp [records]
  | cons hwritten _ ih =>
    obtain ⟨record, hrecord, hrecords⟩ := records_append hwritten _
    rw [Text.unlines_cons, hrecords]
    exact .cons hrecord ih

/-! ## The first fields -/

theorem firstFields_of_records {text header : List Char} {first : Record} {rest : List Record}
    (hrecords : records (dropMark text) = first :: rest) (hfirst : first.Holds header)
    (hrest : List.Forall₂ Record.Holds rest values) : firstFields text = .ok values := by
  unfold firstFields
  rw [hrecords]
  dsimp only
  rw [Outcome.mapM_eq_ok_iff]
  clear hrecords
  rw [Record.Holds] at hfirst
  -- the numbers of the records are told in errors only
  generalize 1 = number
  induction hrest generalizing number with
  | nil => exact .nil
  | cons hrecord _ ih =>
    rw [Record.Holds] at hrecord
    exact .cons (by simp [hfirst, hrecord]) (ih (number + 1))

theorem dropMark_mark (s : List Char) : dropMark (mark :: s) = s := rfl

theorem dropMark_of_ne {c : Char} (h : c ≠ mark) (s : List Char) : dropMark (c :: s) = c :: s := by
  have hcode : c.toNat ≠ 0xFEFF := by
    intro hcode
    exact h (Char.toNat_inj.1 hcode)
  simp [dropMark, hcode]

/-- Without the byte order mark in front a header is still a header, if there is more of it. -/
theorem Written.exists_dropMark {header : List Char} (h : Written header form)
    (hform : form ≠ [mark]) (rest : List Char) : ∃ header' form', Written header' form' ∧
      dropMark (form ++ '\n' :: rest) = form' ++ '\n' :: rest := by
  cases h with
  | inQuotes => exact ⟨header, quoted header, .inQuotes, dropMark_of_ne (by decide) _⟩
  | bare hne hheader =>
    obtain ⟨c, tail, rfl⟩ := List.exists_cons_of_ne_nil hne
    by_cases hc : c = mark
    · subst hc
      have htail : tail ≠ [] := by
        rintro rfl
        exact hform rfl
      exact ⟨tail, tail, .bare htail (List.forall_mem_cons.1 hheader).2, dropMark_mark _⟩
    · exact ⟨c :: tail, c :: tail, .bare hne hheader, dropMark_of_ne hc _⟩

/-- **A column is read as it was written**, whatever the choice of quotes: no value is lost, and an
empty one is a value like any other. -/
theorem firstFields_unlines {header : List Char} (hheader : Written header form)
    (hform : form ≠ [mark]) (hvalues : List.Forall₂ Written values forms) :
    firstFields (Text.unlines (form :: forms)) = .ok values := by
  obtain ⟨header', form', hheader', hdrop⟩ := hheader.exists_dropMark hform (Text.unlines forms)
  obtain ⟨record, hrecord, hrecords⟩ := records_append hheader' (Text.unlines forms)
  rw [← hdrop, ← Text.unlines_cons] at hrecords
  exact firstFields_of_records hrecords hrecord (records_unlines hvalues)

end

end ColumnSieve.Csv
