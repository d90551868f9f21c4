import ColumnSieve.Path

/-!
# The environment of a run

The variables that the user has set, and what follows from them.  The wording of reports on
malformed configuration files is also given from outside.
-/

namespace ColumnSieve

structure Environment where
  entries : List (String × String)
  /-- What is said of a text that is no configuration. -/
  report : String → String

namespace Environment

/-- The value of a variable, also if it is empty. -/
def get? (env : Environment) (name : String) : Option String := env.entries.lookup name

/-- The user's own directory; an empty variable does not name one. -/
def home? (env : Environment) : Option Path :=
  match env.get? "HOME" with
  | none => none
  | some text => if text = "" then none else some ⟨text⟩

end Environment

end ColumnSieve
