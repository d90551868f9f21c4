/-!
# Cutting text at a mark

* `cutAt?` — the text before and after the first place where a mark stands.
-/

namespace ColumnSieve.Text

/-- The text before and after the first place where `mark` stands; nothing if it stands
nowhere. -/
def cutAt? (mark : List Char) : List Char → Option (List Char × List Char)
  | [] => if mark = [] then some ([], []) else none
  | c :: s =>
    match mark.isPrefixOf? (c :: s) with
    | some rest => some ([], rest)
    | none =>
      match cutAt? mark s with
      | some (before, after) => some (c :: before, after)
      | none => none

end ColumnSieve.Text
