import ColumnSieve.Error

/-!
# Comma-separated values

A record ends at a carriage return, a line feed, or both; records without any character are
skipped.  A field that starts with a double quote runs to the next single quote and may hold
commas, ends of records and doubled quotes; what follows its closing quote still belongs to it.
Elsewhere quotes stand for themselves.

* `Csv.field`, `Csv.fields`, `Csv.records` — the grammar, each with the text it leaves;
* `Csv.firstFields` — the first field of each record but the header.
-/

namespace ColumnSieve.Csv

def isEnd (c : Char) : Bool := c == '\n' || c == '\r'

/-! ## Fields -/

/-- The rest of a field outside quotes. -/
def bareField (s : List Char) : List Char × List Char :=
  (s.takeWhile fun c => !(c == ',' || isEnd c), s.dropWhile fun c => !(c == ',' || isEnd c))

/-- The rest of a field inside quotes; without a closing quote it runs to the end of the
text. -/
def quotedField : List Char → List Char × List Char
  | [] => ([], [])
  | '"' :: '"' :: s => ('"' :: (quotedField s).1, (quotedField s).2)
  | '"' :: s => bareField s
  | c :: s => (c :: (quotedField s).1, (quotedField s).2)

def field : List Char → List Char × List Char
  | '"' :: s => quotedField s
  | s => bareField s

theorem length_bareField (s : List Char) : (bareField s).2.length ≤ s.length :=
  (List.dropWhile_sublist _).length_le

theorem length_quotedField (s : List Char) : (quotedField s).2.length ≤ s.length := by
  fun_induction quotedField s with
  | case1 => simp
  | case2 s ih => simp only [List.length_cons]; omega
  | case3 s h => have := length_bareField s; simp only [List.length_cons]; omega
  | case4 c s h1 h2 ih => simp only [List.length_cons]; omega

theorem length_field (s : List Char) : (field s).2.length ≤ s.length := by
  unfold field
  split
  · rename_i s
    have := length_quotedField s
    simp only [List.length_cons]
    omega
  · exact length_bareField _

/-! ## Records -/

/-- The fields of one record, and the text from its end on. -/
def fields (s : List Char) : List (List Char) × List Char :=
  match h : (field s).2 with
  | ',' :: rest =>
    have : rest.length < s.length := by
      have := length_field s
      rw [h] at this
      simp only [List.length_cons] at this
      omega
    ((field s).1 :: (fields rest).1, (fields rest).2)
  | rest => ([(field s).1], rest)
termination_by s.length

theorem length_fields (s : List Char) : (fields s).2.length ≤ s.length := by
  fun_induction fields s with
  | case1 s rest h hlt ih => exact Nat.le_trans ih (Nat.le_of_lt hlt)
  | case2 s h => exact length_field s

/-- A record and the text at the point where its reading began, which is right behind the
first character of the end of the record before. -/
structure Record where
  fields : List (List Char)
  start : List Char

/-- The records of a text. -/
def records (s : List Char) : List Record :=
  match _h : s.dropWhile isEnd with
  | [] => []
  | c :: body => ⟨(fields (c :: body)).1, s⟩ :: records ((fields (c :: body)).2.drop 1)
termination_by s.length
decreasing_by
  have h1 := length_fields (c :: body)
  have h2 : (c :: body).length ≤ s.length := _h ▸ (List.dropWhile_sublist _).length_le
  have h3 : (c :: body).length = body.length + 1 := rfl
  rw [List.length_drop]
  omega

/-! ## One column -/

/-- A byte order mark at the start of a text does not belong to it. -/
def dropMark : List Char → List Char
  | c :: s => if c.toNat = 0xFEFF then s else c :: s
  | [] => []

def byteSize (s : List Char) : Nat := (String.ofList s).utf8ByteSize

/-- The report on a record whose number of fields is not that of the header. -/
def unequal (text : List Char) (number expected : Nat) (record : Record) : UnequalRecord where
  record := number
  line := 1 + (text.count '\n' - record.start.count '\n')
  byte := byteSize text - byteSize record.start
  found := record.fields.length
  expected := expected

/-- The first field of each record but the first, which is the header.  All records must have
as many fields as the header. -/
def firstFields (text : List Char) : Except UnequalRecord (List (List Char)) :=
  match records (dropMark text) with
  | [] => .ok []
  | header :: rest =>
    (rest.zipIdx 1).mapM fun (record, number) =>
      if record.fields.length = header.fields.length then .ok (record.fields.headD [])
      else .error (unequal text number header.fields.length record)

end ColumnSieve.Csv
