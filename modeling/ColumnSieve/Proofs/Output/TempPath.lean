import ColumnSieve.Proofs.Output
import ColumnSieve.Proofs.Path.Components

/-!
# Where a temporary file is

Renaming puts a file in place at once only within a directory, so a temporary file has to be
beside its destination, however the path of that is spelled.

* `isHex_nonce`, `tempName_injective` — a nonce can be told from the name made with it;
* `tempPath_of_named`, `tempPath_of_unnamed` — where the name comes to stand;
* `tempPath_beside`                   — all of it, for every path.
-/

namespace ColumnSieve

theorem isHex_nonce (nonce : UInt64) :
    Text.IsHex 16 nonce.toNat (Text.hexDigits 16 nonce.toNat) := by
  have hlt : nonce.toNat < 2 ^ 64 := nonce.toNat_lt
  exact Text.isHex_hexDigits (by omega)

theorem tempName_injective (p : Path) : Function.Injective fun nonce => tempName nonce p := by
  intro nonce nonce' h
  have hdigits : Text.hexDigits 16 nonce.toNat = Text.hexDigits 16 nonce'.toNat :=
    List.append_cancel_left (List.append_cancel_right h)
  rw [← UInt64.toNat_inj, ← (isHex_nonce nonce).value_eq, hdigits, (isHex_nonce nonce').value_eq]

section

variable {p : Path} {name : List Char} (nonce : UInt64)

theorem tempPath_of_named (h : p.fileName? = some name) :
    (tempPath nonce p).IsFileIn p.parent.components (tempName nonce p) := by
  rw [tempPath, Path.withFileName, h]
  exact Path.isFileIn_join (tempName_ne_nil nonce p) (tempName_ne_dot nonce p)
    (tempName_ne_dots nonce p) (slash_not_mem_tempName nonce p)

theorem tempPath_of_unnamed (h : p.fileName? = none) :
    tempPath nonce p = p.join ⟨String.ofList (tempName nonce p)⟩ ∧
      (tempPath nonce p).IsFileIn p.components (tempName nonce p) := by
  have hjoin : tempPath nonce p = p.join ⟨String.ofList (tempName nonce p)⟩ := by
    rw [tempPath, Path.withFileName, h]
  refine ⟨hjoin, ?_⟩
  rw [hjoin]
  exact Path.isFileIn_join (tempName_ne_nil nonce p) (tempName_ne_dot nonce p)
    (tempName_ne_dots nonce p) (slash_not_mem_tempName nonce p)

end

/-- Paths that take the same steps have the same file name. -/
theorem Path.fileName?_congr {p q : Path} (h : p.same q = true) : p.fileName? = q.fileName? := by
  rw [fileName?_eq_components, fileName?_eq_components, same_iff.1 h]

/-- **A temporary file is beside its destination and is told apart from it.**  If the destination
has a file name, the temporary path leads to the same place and there to that name, marked and with
the nonce in front.  If not, it goes on from the destination.  It is never the destination, and
those of two nonces are never the same. -/
theorem tempPath_beside (nonce : UInt64) (p : Path) :
    (∃ digits, Text.IsHex 16 nonce.toNat digits ∧
      match p.fileName? with
      | some name => tempName nonce p = ".tmp.".toList ++ digits ++ '.' :: name ∧
        tempName nonce p ≠ name ∧ p.IsFileIn p.parent.components name ∧
        (tempPath nonce p).IsFileIn p.parent.components (tempName nonce p)
      | none => tempName nonce p = ".tmp.".toList ++ digits ++ ".output".toList ∧
        (p.text = "" ∨ p.components = [.here] ∨ p.components = [.root] ∨
          ∃ dir, p.components = dir ++ [.up]) ∧
        tempPath nonce p = p.join ⟨String.ofList (tempName nonce p)⟩ ∧
        (tempPath nonce p).IsFileIn p.components (tempName nonce p)) ∧
    (tempPath nonce p).same p = false ∧
    ∀ nonce', (tempPath nonce p).same (tempPath nonce' p) = true ↔ nonce = nonce' := by
  refine ⟨⟨_, isHex_nonce nonce, ?_⟩, ?_, ?_⟩
  · have hname := tempName_eq nonce p
    cases hfile : p.fileName? with
    | some name =>
      rw [hfile, Option.getD_some] at hname
      refine ⟨hname, ?_, Path.isFileIn_of_fileName? hfile, tempPath_of_named nonce hfile⟩
      rintro rfl
      exact tempName_ne_fileName nonce p hfile
    | none =>
      have houtput : ".output".toList = '.' :: "output".toList := by simp
      rw [hfile, Option.getD_none, ← houtput] at hname
      exact ⟨hname, Path.ends_of_fileName?_eq_none hfile, tempPath_of_unnamed nonce hfile⟩
  · rw [Bool.eq_false_iff]
    intro hsame
    have hfile := Path.fileName?_congr hsame
    rw [tempPath_fileName?] at hfile
    exact tempName_ne_fileName nonce p hfile.symm
  · intro nonce'
    constructor
    · intro hsame
      have hfile := Path.fileName?_congr hsame
      rw [tempPath_fileName?, tempPath_fileName?] at hfile
      exact tempName_injective p (Option.some.inj hfile)
    · rintro rfl
      exact Path.same_iff.2 rfl

example : tempPath 0xab ⟨"a//b/./"⟩ = ⟨"a/.tmp.00000000000000ab.b"⟩ := by decide

end ColumnSieve
