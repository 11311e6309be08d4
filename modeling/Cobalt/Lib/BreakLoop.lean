import Mathlib.Algebra.Order.Ring.Int
import Mathlib.Data.List.Basic

/-!
# Loops that end with a break

A loop `while (true)` whose body can break. The body may depend on the number of the turn, so that
what comes from outside of the program is a function of this number.

## Main definitions

* `BreakLoop.run`: the loop, with a bound for the number of its turns.

## Main results

* `BreakLoop.run_of_measure`: if every turn that does not break keeps an invariant and makes a
  measure smaller, the loop ends, whatever its bound, as long as it is larger than the measure.
-/

namespace BreakLoop

variable {σ : Type}

/-- Runs `body` until it breaks; `none` if it has not done so in `fuel` turns. The turns are
numbered from `turn` on. -/
def run (body : ℕ → σ → Bool × σ) : ℕ → ℕ → σ → Option σ
  | 0, _, _ => none
  | fuel + 1, turn, s =>
    if (body turn s).1 then some (body turn s).2 else run body fuel (turn + 1) (body turn s).2

/-- **Total correctness.** Let every turn that does not break keep `I` and make `μ` smaller, and let
every turn that breaks establish `Q`. Then the loop ends after at most `μ s + 1` turns and
establishes `Q`, for the number of the turn that would come next. -/
theorem run_of_measure {body : ℕ → σ → Bool × σ} {I Q : ℕ → σ → Prop} {μ : σ → ℕ}
    (hgoesOn : ∀ turn s, I turn s → (body turn s).1 = false →
      I (turn + 1) (body turn s).2 ∧ μ (body turn s).2 < μ s)
    (hbreaks : ∀ turn s, I turn s → (body turn s).1 = true → Q (turn + 1) (body turn s).2)
    {turn : ℕ} {s : σ} (h : I turn s) :
    ∃ next s', Q next s' ∧ ∀ fuel, μ s < fuel → run body fuel turn s = some s' := by
  induction hμ : μ s using Nat.strong_induction_on generalizing turn s with
  | _ n ih =>
    cases hbody : (body turn s).1 with
    | true =>
      refine ⟨turn + 1, (body turn s).2, hbreaks turn s h hbody, fun fuel hfuel => ?_⟩
      obtain ⟨fuel, rfl⟩ : ∃ fuel', fuel = fuel' + 1 := ⟨fuel - 1, by omega⟩
      rw [run, if_pos hbody]
    | false =>
      obtain ⟨hnext, hlt⟩ := hgoesOn turn s h hbody
      obtain ⟨next, s', hQ, hrun⟩ := ih (μ (body turn s).2) (hμ ▸ hlt) hnext rfl
      refine ⟨next, s', hQ, fun fuel hfuel => ?_⟩
      obtain ⟨fuel, rfl⟩ : ∃ fuel', fuel = fuel' + 1 := ⟨fuel - 1, by omega⟩
      rw [run, if_neg (by simp [hbody])]
      exact hrun fuel (by omega)

end BreakLoop
