/-!
# TOML tables

A document is a table.  Tables are opened by headers, by dotted keys, and in passing, when only
a table below them is named; these three ways decide which of them may be added to later.

* `Toml.Value`   — the values of a document;
* `Toml.descend` — a change to a table that is found along a path;
* `Toml.assign`  — one key and its value;
* `Toml.Draft`   — the document while its lines are read.
-/

namespace ColumnSieve.Toml

/-- A value.  Numbers other than integers, dates and times are kept by their kind alone.  An
inline table is complete; other tables know whether a dotted key opened them, and whether they
were opened only in passing. -/
inductive Value where
  | string (text : String)
  | integer (n : Int)
  | float
  | boolean (b : Bool)
  | dateTime
  | array (items : List Value)
  | inlineTable (entries : List (String × Value))
  | table (inPassing dotted : Bool) (entries : List (String × Value))
  /-- Tables that headers in double brackets have opened, in order. -/
  | tables (items : List (List (String × Value)))

abbrev Entries := List (String × Value)

/-- Replaces the value of a key. -/
def replace (entries : Entries) (key : String) (value : Value) : Entries :=
  entries.map fun e => if e.1 = key then (key, value) else e

/-- Changes the table at the end of a path, which is told whether a dotted key opened it.
Missing tables on the way are opened.  A dotted key leads only through tables that no header has
opened; of several tables under one header, a path leads through the last. -/
def descend (dotted : Bool) (change : Bool → Entries → Option Entries) :
    List String → Bool → Entries → Option Entries
  | [], opened, entries => change opened entries
  | key :: path, _, entries =>
    match entries.lookup key with
    | none =>
      (descend dotted change path dotted []).map fun inner =>
        entries ++ [(key, .table true dotted inner)]
    | some (.table inPassing opened inner) =>
      if dotted && !inPassing then none
      else
        (descend dotted change path opened inner).map fun inner =>
          replace entries key (.table inPassing opened inner)
    | some (.tables items) =>
      match items.getLast? with
      | none => none
      | some inner =>
        (descend dotted change path false inner).map fun inner =>
          replace entries key (.tables (items.dropLast ++ [inner]))
    | some _ => none

/-- Gives a new key a value, in the table that the names before it lead to.  With names before
it, the key goes only to a table that a dotted key opened. -/
def assign (entries : Entries) (path : List String) (key : String) (value : Value) :
    Option Entries :=
  descend true (fun dotted inner =>
    if dotted = path.isEmpty || (inner.lookup key).isSome then none
    else some (inner ++ [(key, value)])) path false entries

/-- The value that a path of headers leads to. -/
def find? : Entries → List String → String → Option Value
  | entries, [], key => entries.lookup key
  | entries, name :: path, key =>
    match entries.lookup name with
    | some (.table _ _ inner) => find? inner path key
    | some (.tables items) => find? (items.getLastD []) path key
    | _ => none

/-! ## Documents -/

/-- A line of a document that says something. -/
inductive Statement where
  | assignment (path : List String) (key : String) (value : Value)
  | header (path : List String) (key : String)
  | arrayHeader (path : List String) (key : String)

/-- Where the table under a header belongs. -/
structure Slot where
  path : List String
  key : String
  isArray : Bool

/-- A document in the making: the tables that are closed, and the one that is open. -/
structure Draft where
  root : Entries
  slot : Option Slot
  current : Entries

namespace Draft

def empty : Draft := ⟨[], none, []⟩

/-- The document with the open table put in its place. -/
def close (draft : Draft) : Option Entries :=
  match draft.slot with
  | none => some draft.current
  | some slot =>
    descend false (fun _ inner =>
      match slot.isArray, inner.lookup slot.key with
      | true, none => some (inner ++ [(slot.key, .tables [draft.current])])
      | true, some (.tables items) =>
        some (replace inner slot.key (.tables (items ++ [draft.current])))
      | false, none => some (inner ++ [(slot.key, .table false false draft.current)])
      | _, _ => none) slot.path false draft.root

/-- Opens the table of a header.  A table is opened once; what was opened only in passing may
still get a header. -/
def openTable (root : Entries) (path : List String) (key : String) : Option Draft :=
  match find? root path key with
  | none =>
    (descend false (fun _ inner => some inner) path false root).map fun root =>
      ⟨root, some ⟨path, key, false⟩, []⟩
  | some (.table true false entries) =>
    (descend false (fun _ inner => some (inner.filter (·.1 ≠ key))) path false root).map fun root =>
      ⟨root, some ⟨path, key, false⟩, entries⟩
  | some _ => none

/-- Opens one more table of a header in double brackets. -/
def openArray (root : Entries) (path : List String) (key : String) : Option Draft :=
  match find? root path key with
  | none | some (.tables _) =>
    (descend false (fun _ inner => some inner) path false root).map fun root =>
      ⟨root, some ⟨path, key, true⟩, []⟩
  | some _ => none

def add (draft : Draft) : Statement → Option Draft
  | .assignment path key value =>
    (assign draft.current path key value).map fun current => { draft with current := current }
  | .header path key => draft.close.bind fun root => openTable root path key
  | .arrayHeader path key => draft.close.bind fun root => openArray root path key

end Draft

/-- The document that some statements make. -/
def build (statements : List Statement) : Option Entries :=
  (statements.foldlM Draft.add .empty).bind Draft.close

end ColumnSieve.Toml
