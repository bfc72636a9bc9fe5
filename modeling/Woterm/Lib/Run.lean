import Mathlib.Data.List.Basic

/-!
Runs of a machine whose step may have no result. A property holds all along a run exactly when
every input of it is allowed in the state in which it arrives, if some invariant links the two.
-/

namespace Woterm.Lib.Run

variable {σ ι : Type*} (step : σ → ι → Option σ)

/-- The state after some inputs. -/
def after (start : σ) (inputs : List ι) : Option σ := inputs.foldlM step start

/-- The run never stops, and `good` holds before, between and after its inputs. -/
def Always (good : σ → Prop) (start : σ) (inputs : List ι) : Prop :=
  ∀ front back, inputs = front ++ back → ∃ state, after step start front = some state ∧ good state

/-- Every input is allowed in the state in which it arrives. -/
def Admits (allowed : σ → ι → Prop) (start : σ) (inputs : List ι) : Prop :=
  ∀ front input back state, inputs = front ++ input :: back →
    after step start front = some state → allowed state input

theorem after_cons (start : σ) (input : ι) (inputs : List ι) :
    after step start (input :: inputs) = (step start input).bind fun next => after step next inputs :=
  List.foldlM_cons

theorem after_append (start : σ) (first second : List ι) :
    after step start (first ++ second) = (after step start first).bind fun middle => after step middle second :=
  List.foldlM_append

theorem after_eq_none (start : σ) (inputs : List ι) (stopped : after step start inputs = none) :
    ∃ front input back state, inputs = front ++ input :: back ∧ after step start front = some state ∧
      step state input = none := by
  induction inputs generalizing start with
  | nil => cases stopped
  | cons input inputs ih =>
    rw [after_cons] at stopped
    cases taken : step start input with
    | none => exact ⟨[], input, inputs, start, rfl, rfl, taken⟩
    | some next =>
      rw [taken, Option.bind_some] at stopped
      obtain ⟨front, other, back, state, split, reached, last⟩ := ih next stopped
      refine ⟨input :: front, other, back, state, by rw [split, List.cons_append], ?_, last⟩
      rw [after_cons, taken, Option.bind_some, reached]

/-- What every step keeps, the run keeps, and it has a result if every step has one. -/
theorem after_invariant {holds : σ → Prop} (inputs : List ι)
    (keep : ∀ state, ∀ input ∈ inputs, holds state → ∃ next, step state input = some next ∧ holds next)
    (start : σ) (initial : holds start) : ∃ final, after step start inputs = some final ∧ holds final := by
  induction inputs generalizing start with
  | nil => exact ⟨start, rfl, initial⟩
  | cons input inputs ih =>
    obtain ⟨next, taken, kept⟩ := keep start input List.mem_cons_self initial
    have later := fun state other member => keep state other (List.mem_cons_of_mem input member)
    rw [after_cons, taken, Option.bind_some]
    exact ih later next kept

theorem after_unchanged {α : Type*} (part : σ → α)
    (same : ∀ state input next, step state input = some next → part next = part state)
    (start final : σ) (inputs : List ι) (reached : after step start inputs = some final) :
    part final = part start := by
  induction inputs generalizing start with
  | nil => rw [Option.some.inj reached]
  | cons input inputs ih =>
    rw [after_cons] at reached
    obtain ⟨next, taken, arrived⟩ := Option.bind_eq_some_iff.mp reached
    exact (ih next arrived).trans (same start input next taken)

theorem always_nil (good : σ → Prop) (start : σ) : Always step good start [] ↔ good start := by
  refine ⟨?_, ?_⟩
  · intro always
    obtain ⟨state, reached, holds⟩ := always [] [] rfl
    rw [Option.some.inj reached]
    exact holds
  · intro holds front back split
    obtain ⟨rfl, rfl⟩ := List.append_eq_nil_iff.mp split.symm
    exact ⟨start, rfl, holds⟩

theorem always_cons (good : σ → Prop) (start : σ) (input : ι) (inputs : List ι) :
    Always step good start (input :: inputs) ↔
      good start ∧ ∃ next, step start input = some next ∧ Always step good next inputs := by
  refine ⟨?_, ?_⟩
  · intro always
    obtain ⟨state, reached, holds⟩ := always [] (input :: inputs) rfl
    obtain ⟨next, stepped, _⟩ := always [input] inputs rfl
    rw [after_cons] at stepped
    obtain ⟨middle, taken, _⟩ := Option.bind_eq_some_iff.mp stepped
    refine ⟨by rwa [Option.some.inj reached], middle, taken, fun front back split => ?_⟩
    obtain ⟨final, arrived, good⟩ := always (input :: front) back (by rw [split, List.cons_append])
    rw [after_cons, taken, Option.bind_some] at arrived
    exact ⟨final, arrived, good⟩
  · intro given front back split
    obtain ⟨holds, next, taken, always⟩ := given
    cases front with
    | nil => exact ⟨start, rfl, holds⟩
    | cons first front =>
      obtain ⟨rfl, rest⟩ := List.cons.inj split
      rw [after_cons, taken, Option.bind_some]
      exact always front back rest

theorem admits_cons (allowed : σ → ι → Prop) (start : σ) (input : ι) (inputs : List ι) :
    Admits step allowed start (input :: inputs) ↔
      allowed start input ∧ ∀ next, step start input = some next → Admits step allowed next inputs := by
  refine ⟨?_, ?_⟩
  · intro admits
    refine ⟨admits [] input inputs start rfl rfl, fun next taken front other back state split reached => ?_⟩
    apply admits (input :: front) other back state (by rw [split, List.cons_append])
    rw [after_cons, taken, Option.bind_some, reached]
  · intro given front other back state split reached
    obtain ⟨first, later⟩ := given
    cases front with
    | nil =>
      obtain ⟨rfl, _⟩ := List.cons.inj split
      rw [← Option.some.inj reached]
      exact first
    | cons before front =>
      obtain ⟨rfl, rest⟩ := List.cons.inj split
      rw [after_cons] at reached
      obtain ⟨next, taken, arrived⟩ := Option.bind_eq_some_iff.mp reached
      exact later next taken front other back state rest arrived

/-- The rule for runs: an invariant `strong` gives `good`, allowed inputs keep it, and an input
after which `good` holds was allowed. -/
theorem always_iff_admits {strong good : σ → Prop} {allowed : σ → ι → Prop}
    (weaken : ∀ state, strong state → good state)
    (keep : ∀ state input, strong state → allowed state input →
      ∃ next, step state input = some next ∧ strong next)
    (need : ∀ state input next, strong state → step state input = some next → good next →
      allowed state input)
    (start : σ) (initial : strong start) (inputs : List ι) :
    Always step good start inputs ↔ Admits step allowed start inputs := by
  induction inputs generalizing start with
  | nil =>
    rw [always_nil]
    refine iff_of_true (weaken start initial) fun front input back state split => ?_
    simp at split
  | cons input inputs ih =>
    rw [always_cons, admits_cons]
    refine ⟨?_, ?_⟩
    · intro given
      obtain ⟨_, next, taken, always⟩ := given
      obtain ⟨_, arrived, holds⟩ := always [] inputs rfl
      rw [← Option.some.inj arrived] at holds
      have permitted := need start input next initial taken holds
      obtain ⟨other, same, kept⟩ := keep start input initial permitted
      refine ⟨permitted, fun state reached => ?_⟩
      rw [same] at taken reached
      rw [← Option.some.inj reached]
      rw [← Option.some.inj taken] at always
      exact (ih other kept).mp always
    · intro given
      obtain ⟨permitted, later⟩ := given
      obtain ⟨next, taken, kept⟩ := keep start input initial permitted
      exact ⟨weaken start initial, next, taken, (ih next kept).mpr (later next taken)⟩

/-! ## Machines that never stop -/

theorem after_total (next : σ → ι → σ) (start : σ) (inputs : List ι) :
    after (fun state input => some (next state input)) start inputs = some (inputs.foldl next start) := by
  induction inputs generalizing start with
  | nil => rfl
  | cons input inputs ih => rw [after_cons, Option.bind_some, ih, List.foldl_cons]

/-- The rule for runs of a machine that never stops. -/
theorem forall_foldl_iff (next : σ → ι → σ) {strong good : σ → Prop} {allowed : σ → ι → Prop}
    (weaken : ∀ state, strong state → good state)
    (keep : ∀ state input, strong state → allowed state input → strong (next state input))
    (need : ∀ state input, strong state → good (next state input) → allowed state input)
    (start : σ) (initial : strong start) (inputs : List ι) :
    (∀ front back, inputs = front ++ back → good (front.foldl next start)) ↔
      ∀ front input back, inputs = front ++ input :: back → allowed (front.foldl next start) input := by
  have rule := always_iff_admits (fun state input => some (next state input)) weaken
    (fun state input holds permitted => ⟨_, rfl, keep state input holds permitted⟩)
    (fun state input final holds taken good => need state input holds (by rwa [Option.some.inj taken]))
    start initial inputs
  unfold Always Admits at rule
  simp only [after_total, Option.some.injEq, exists_eq_left'] at rule
  refine rule.trans ⟨?_, ?_⟩
  · intro admits front input back split
    exact admits front input back _ split rfl
  · intro admits front input back state split reached
    rw [← reached]
    exact admits front input back split

/-! Loops that report why they stop: steps that fail exactly for inputs that are not `good`. -/

section
variable {ε : Type*} {attempt : σ → ι → Except ε σ} {good : ι → Prop} {holds : σ → Prop} {reason : ε → Prop}

theorem foldlM_ok (keep : ∀ state input, holds state → good input → ∃ next, attempt state input = .ok next ∧ holds next)
    (inputs : List ι) (every : ∀ input ∈ inputs, good input) (start : σ) (initial : holds start) :
    ∃ final, inputs.foldlM attempt start = .ok final ∧ holds final := by
  induction inputs generalizing start with
  | nil => exact ⟨start, rfl, initial⟩
  | cons input inputs ih =>
    rw [List.forall_mem_cons] at every
    obtain ⟨next, taken, kept⟩ := keep start input initial every.1
    rw [List.foldlM_cons, taken]
    exact ih every.2 next kept

theorem foldlM_error
    (keep : ∀ state input, holds state → good input → ∃ next, attempt state input = .ok next ∧ holds next)
    (stop : ∀ state input, holds state → ¬ good input → ∃ error, attempt state input = .error error ∧ reason error)
    (inputs : List ι) (some_bad : ¬ ∀ input ∈ inputs, good input) (start : σ) (initial : holds start) :
    ∃ error, inputs.foldlM attempt start = .error error ∧ reason error := by
  induction inputs generalizing start with
  | nil => simp at some_bad
  | cons input inputs ih =>
    rw [List.foldlM_cons]
    by_cases first : good input
    · obtain ⟨next, taken, kept⟩ := keep start input initial first
      rw [taken]
      exact ih (fun rest => some_bad (List.forall_mem_cons.mpr ⟨first, rest⟩)) next kept
    · obtain ⟨error, failed, why⟩ := stop start input initial first
      rw [failed]
      exact ⟨error, rfl, why⟩

end

end Woterm.Lib.Run
