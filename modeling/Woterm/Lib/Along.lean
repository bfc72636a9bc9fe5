import Mathlib.Init

/-!
Steps that may fail, and a relation between the states before and behind them.
-/

namespace Woterm.Lib

/-- Whatever a step results in is related to a state. -/
def Along {σ : Type} (R : σ → σ → Prop) (x : σ) (result : Option σ) : Prop := ∀ y, result = some y → R x y

namespace Along

variable {σ α : Type} {R : σ → σ → Prop} {x : σ}

theorem some {y : σ} (related : R x y) : Along R x (some y) := by
  intro z same
  rwa [← Option.some.inj same]

theorem ite {condition : Prop} [Decidable condition] {yes no : Option σ} (one : Along R x yes) (two : Along R x no) :
    Along R x (if condition then yes else no) := by
  split
  · exact one
  · exact two

/-- Something is read on the way. -/
theorem read {value : Option α} {next : α → Option σ} (all : ∀ a, Along R x (next a)) :
    Along R x (value.bind next) := by
  intro y result
  obtain ⟨a, _, rest⟩ := Option.bind_eq_some_iff.mp result
  exact all a y rest

section Transitive

variable (trans : ∀ x y z, R x y → R y z → R x z)

include trans

theorem behind {y : σ} {result : Option σ} (first : R x y) (rest : Along R y result) : Along R x result :=
  fun z same => trans _ _ z first (rest z same)

theorem bind {first : Option σ} {next : σ → Option σ} (one : Along R x first) (two : ∀ y, Along R y (next y)) :
    Along R x (first.bind next) := by
  intro z result
  obtain ⟨y, found, rest⟩ := Option.bind_eq_some_iff.mp result
  exact trans x y z (one y found) (two y z rest)

theorem foldlM {step : σ → α → Option σ} (refl : ∀ x, R x x) (list : List α)
    (all : ∀ a ∈ list, ∀ x, Along R x (step x a)) :
    Along R x (list.foldlM step x) := by
  induction list generalizing x with
  | nil => exact some (refl x)
  | cons a list ih =>
    rw [List.foldlM_cons]
    exact bind trans (all a List.mem_cons_self x) fun y => ih fun b member => all b (List.mem_cons_of_mem a member)

end Transitive

end Along

end Woterm.Lib
