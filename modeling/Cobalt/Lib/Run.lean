import Mathlib.Algebra.Order.Ring.Int
import Mathlib.Data.List.Basic

/-!
# Runs of a transition system with outputs

A step takes a state to a next state and emits a list of outputs. A run is a finite sequence of
steps; its outputs are those of its steps, in order.

## Main definitions

* `Run step s₀ os s`: some run of `step` from `s₀` emits `os` and ends in `s`.

## Main results

* `Run.invariant`: a property of the outputs so far and the current state that holds at the start
  and is kept by every step holds after every run.
-/

variable {S O : Type}

/-- `Run step s₀ os s` : a run from `s₀` emits `os` and ends in `s`. -/
inductive Run (step : S → List O → S → Prop) (s₀ : S) : List O → S → Prop
  | nil : Run step s₀ [] s₀
  | snoc {os : List O} {s : S} {o : List O} {s' : S} (h : Run step s₀ os s) (hs : step s o s') :
      Run step s₀ (os ++ o) s'

namespace Run

variable {step : S → List O → S → Prop} {s₀ s : S} {os : List O}

/-- **Invariant rule.** What holds at the start and is kept by every step holds after every run. -/
theorem invariant {I : List O → S → Prop} (h₀ : I [] s₀)
    (hstep : ∀ os s o s', I os s → step s o s' → I (os ++ o) s') (h : Run step s₀ os s) :
    I os s := by
  induction h with
  | nil => exact h₀
  | snoc _ hs ih => exact hstep _ _ _ _ ih hs

end Run
