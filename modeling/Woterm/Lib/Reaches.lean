import Mathlib.Logic.Function.Iterate

/-!
Runs of a machine that makes one step after the other.
-/

namespace Woterm.Lib

variable {σ : Type*} {step : σ → σ} {start middle final : σ}

/-- Some number of steps leads from one state to another. -/
def Reaches (step : σ → σ) (start final : σ) : Prop := ∃ n, step^[n] start = final

namespace Reaches

theorem refl (start : σ) : Reaches step start start := ⟨0, rfl⟩

theorem of_step (taken : step start = final) : Reaches step start final := ⟨1, taken⟩

theorem trans (first : Reaches step start middle) (second : Reaches step middle final) : Reaches step start final := by
  obtain ⟨n, rfl⟩ := first
  obtain ⟨m, rfl⟩ := second
  exact ⟨m + n, Function.iterate_add_apply step m n start⟩

theorem head (taken : step start = middle) (later : Reaches step middle final) : Reaches step start final :=
  (of_step taken).trans later

/-- What every step keeps holds in every state that is reached. -/
theorem invariant (holds : σ → Prop) (keep : ∀ state, holds state → holds (step state)) (initial : holds start)
    (reached : Reaches step start final) : holds final := by
  obtain ⟨n, rfl⟩ := reached
  induction n generalizing start with
  | zero => exact initial
  | succ n ih => exact ih (keep start initial)

end Reaches
end Woterm.Lib
