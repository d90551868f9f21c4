import ColumnSieve.Proofs.Run
import ColumnSieve.Tool.Plain

/-!
# The tool for plain tables writes where it is told to

* `Tool.plain_confined` — it changes no file but the one it extracts columns to.
-/

namespace ColumnSieve.Tool

variable {τ : Type}

theorem plainTable_snd (source : Path) (delimiter : Char) (world : World τ) :
    (plainTable source delimiter world).2 = world := by
  unfold plainTable
  cases world.files.readText source with
  | error e => rfl
  | ok text => rfl

/-- Reading changes nothing at all. -/
theorem plain_preserves (name : String) (Holds : World τ → Prop) :
    (plain name : Tool τ).Preserves Holds := by
  have htable (source : Path) (delimiter : Char) : Action.Preserves Holds
      (plainTable source delimiter : Action τ Error (List (List String))) := by
    intro world h
    rwa [plainTable_snd]
  constructor
  · intro source delimiter
    exact (htable source delimiter).bind fun rows => .pure _
  · intro source column delimiter
    refine (htable source delimiter).bind fun rows => ?_
    split
    · exact .throw _
    · exact .pure _

theorem plain_confined (name : String) : (plain name : Tool τ).Confined := by
  constructor
  · intro source delimiter
    exact Action.keeps_iff.2 fun files => (plain_preserves name _).headers source delimiter
  · intro source column delimiter
    exact Action.keeps_iff.2 fun files => (plain_preserves name _).values source column delimiter
  · intro source spec delimiter destination world _ hfresh
    have hworld := plainTable_snd source delimiter world
    dsimp only [plain]
    rw [Action.bind_apply]
    match hrows : plainTable source delimiter world with
    | (.error e, after) =>
      rw [hrows] at hworld
      cases hworld
      exact .of_unchanged hfresh
    | (.ok rows, after) =>
      rw [hrows] at hworld
      cases hworld
      dsimp only
      cases spec.columns.mapM (columnIndex? (rows.headD [])) with
      | none => exact .of_unchanged hfresh
      | some indices =>
        dsimp only
        split
        · rename_i files hwrite
          exact .of_writeFile hwrite
        · exact .of_unchanged hfresh

end ColumnSieve.Tool
