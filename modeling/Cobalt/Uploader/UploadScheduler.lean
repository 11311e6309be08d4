import Mathlib.Algebra.Order.Ring.Int
import Mathlib.Data.Int.ConditionallyCompleteOrder
import Mathlib.Order.Monotone.Basic
import Mathlib.Tactic.Linarith

/-!
# The upload scheduler

An `UploadScheduler` tells the shipping manager how long to wait before the next upload. The wait
starts at an initial interval and is doubled by every call until it reaches a target.

The constructor checks the target and the minimum, and that the initial interval is not above the
target, but not that it is positive. Doubling an interval of zero seconds never reaches a target
above it, and doubling a negative one goes away from it, until the 64 bits of
`std::chrono::seconds` are exceeded.

## Main definitions

* `UploadScheduler.new`, `UploadScheduler.interval`.
* `UploadScheduler.BacksOff`: the intervals are doubled until they reach the target.

## Main results

* `UploadScheduler.backsOff_iff`: for which arguments the scheduler does so.
-/

namespace Cobalt.Uploader

/-- `UploadScheduler::kMaxSeconds`. -/
def kMaxSeconds : ℤ := 999999999

/-- The fields of an `UploadScheduler`. -/
structure UploadScheduler where
  currentInterval : ℤ
  targetInterval : ℤ
  minInterval : ℤ
  deriving DecidableEq, Repr

namespace UploadScheduler

/-- The constructor, `none` when one of its `CHECK`s fails. -/
def new (targetInterval minInterval initialInterval : ℤ) : Option UploadScheduler :=
  if minInterval ≥ 0 ∧ initialInterval ≤ targetInterval ∧ minInterval ≤ targetInterval ∧
      targetInterval ≤ kMaxSeconds then
    some ⟨initialInterval, targetInterval, minInterval⟩
  else none

/-- `Interval`, `none` when the doubled interval exceeds the 64 bits of its type, which is undefined
behavior. -/
def interval (s : UploadScheduler) : Option (ℤ × UploadScheduler) :=
  if s.currentInterval < s.targetInterval then
    let doubled := s.currentInterval * 2
    if -(2 ^ 63) ≤ doubled ∧ doubled < 2 ^ 63 then
      some (s.currentInterval, { s with
        currentInterval := if doubled ≥ s.targetInterval then s.targetInterval else doubled })
    else none
  else some (s.currentInterval, s)

/-- What the call of `Interval` after `k` others returns. -/
def intervalAt : ℕ → UploadScheduler → Option ℤ
  | 0, s => s.interval.map Prod.fst
  | k + 1, s => s.interval.bind fun r => intervalAt k r.2

/-- Back-off. The calls of `Interval` return the initial interval, doubled by every call, up to
the target, which is reached. -/
def BacksOff (s : UploadScheduler) (initialInterval targetInterval : ℤ) : Prop :=
  ∃ intervals : ℕ → ℤ, (∀ k, s.intervalAt k = some (intervals k)) ∧
    (∀ k, intervals k = min (initialInterval * 2 ^ k) targetInterval) ∧ Monotone intervals ∧
    ∃ n, ∀ k ≥ n, intervals k = targetInterval

/-- A scheduler that has reached its target stays there. -/
theorem intervalAt_of_reached {target minInterval : ℤ} (k : ℕ) :
    intervalAt k ⟨target, target, minInterval⟩ = some target := by
  have hinterval : interval ⟨target, target, minInterval⟩ =
      some (target, ⟨target, target, minInterval⟩) := by
    rw [interval, if_neg (lt_irrefl target)]
  induction k with
  | zero => rw [intervalAt, hinterval, Option.map_some]
  | succ k ih => rw [intervalAt, hinterval, Option.bind_some, ih]

/-- One call below the target. The doubled interval is in range, since the target is. -/
theorem interval_of_lt {current target minInterval : ℤ} (hpos : 0 < current)
    (hlt : current < target) (htarget : target ≤ kMaxSeconds) :
    interval ⟨current, target, minInterval⟩ =
      some (current, ⟨min (current * 2) target, target, minInterval⟩) := by
  have hrange : -(2 ^ 63) ≤ current * 2 ∧ current * 2 < 2 ^ 63 := by
    unfold kMaxSeconds at htarget
    omega
  rw [interval, if_pos hlt]
  dsimp only
  rw [if_pos hrange]
  split_ifs with hreached
  · rw [min_eq_right hreached]
  · rw [min_eq_left (le_of_not_ge hreached)]

/-- All calls of a scheduler whose interval is positive. -/
theorem intervalAt_of_pos {current target minInterval : ℤ} (hpos : 0 < current)
    (hle : current ≤ target) (htarget : target ≤ kMaxSeconds) (k : ℕ) :
    intervalAt k ⟨current, target, minInterval⟩ = some (min (current * 2 ^ k) target) := by
  induction k generalizing current with
  | zero =>
    rw [pow_zero, mul_one, min_eq_left hle]
    rcases hle.lt_or_eq with hlt | rfl
    · rw [intervalAt, interval_of_lt hpos hlt htarget, Option.map_some]
    · exact intervalAt_of_reached 0
  | succ k ih =>
    have hpow : (1 : ℤ) ≤ 2 ^ k := one_le_pow₀ (by norm_num)
    rcases hle.lt_or_eq with hlt | rfl
    · rw [intervalAt, interval_of_lt hpos hlt htarget, Option.bind_some,
        ih (lt_min (by omega) (by omega)) (min_le_right _ _), pow_succ']
      congr 1
      rcases le_total (current * 2) target with hdouble | hdouble
      · rw [min_eq_left hdouble, mul_assoc]
      · rw [min_eq_right hdouble, min_eq_right (by nlinarith), min_eq_right (by nlinarith)]
    · rw [intervalAt_of_reached, min_eq_right (by rw [pow_succ]; nlinarith)]

/-- Doubling a positive interval reaches every target. -/
theorem exists_target_le {initial : ℤ} (hpos : 0 < initial) (target : ℤ) :
    ∃ n : ℕ, ∀ k ≥ n, target ≤ initial * 2 ^ k := by
  refine ⟨target.toNat, fun k hk => ?_⟩
  have hpow : k < 2 ^ k := Nat.lt_two_pow_self
  have hcast : (k : ℤ) < 2 ^ k := by exact_mod_cast hpow
  nlinarith [Int.self_le_toNat target]

/-- **The scheduler backs off** if and only if the initial interval is positive or is the target. -/
theorem backsOff_iff {targetInterval minInterval initialInterval : ℤ} {s : UploadScheduler}
    (hnew : new targetInterval minInterval initialInterval = some s) :
    s.BacksOff initialInterval targetInterval ↔
      0 < initialInterval ∨ initialInterval = targetInterval := by
  rw [new, Option.ite_none_right_eq_some] at hnew
  obtain ⟨⟨hmin, hle, hminle, hmax⟩, hs⟩ := hnew
  obtain rfl := Option.some.inj hs
  constructor
  · rintro ⟨intervals, -, hintervals, -, n, hreached⟩
    by_contra hnot
    obtain ⟨hnonpos, hne⟩ := not_or.mp hnot
    have hpow : (1 : ℤ) ≤ 2 ^ n := one_le_pow₀ (by norm_num)
    have htarget : min (initialInterval * 2 ^ n) targetInterval = targetInterval :=
      (hintervals n).symm.trans (hreached n le_rfl)
    have hbound : targetInterval ≤ initialInterval * 2 ^ n := min_eq_right_iff.mp htarget
    exact hne (le_antisymm hle (by nlinarith))
  · rintro (hpos | rfl)
    · obtain ⟨n, hn⟩ := exists_target_le hpos targetInterval
      refine ⟨fun k => min (initialInterval * 2 ^ k) targetInterval,
        intervalAt_of_pos hpos hle hmax, fun k => rfl, ?_, n, fun k hk => min_eq_right (hn k hk)⟩
      refine monotone_nat_of_le_succ fun k => min_le_min_right _ ?_
      rw [pow_succ]
      nlinarith [pow_pos (show (0 : ℤ) < 2 by norm_num) k]
    · refine ⟨fun _ => initialInterval, intervalAt_of_reached, fun k => ?_, monotone_const, 0,
        fun _ _ => rfl⟩
      have hpow : (1 : ℤ) ≤ 2 ^ k := one_le_pow₀ (by norm_num)
      exact (min_eq_right (by nlinarith)).symm

/-- From one second to ten. -/
theorem backsOff_of_one_second :
    (new 10 0 1 = some ⟨1, 10, 0⟩) ∧ BacksOff ⟨1, 10, 0⟩ 1 10 :=
  ⟨rfl, (@backsOff_iff 10 0 1 _ rfl).mpr (Or.inl one_pos)⟩

/-- An initial interval of zero seconds passes the checks, and every call returns it. -/
theorem not_backsOff_of_zero :
    new 10 0 0 = some ⟨0, 10, 0⟩ ∧ ¬ BacksOff ⟨0, 10, 0⟩ 0 10 := by
  refine ⟨rfl, ?_⟩
  rintro ⟨intervals, -, hintervals, -, n, hreached⟩
  have hzero : (10 : ℤ) = min (0 * 2 ^ n) 10 := (hreached n le_rfl).symm.trans (hintervals n)
  rw [zero_mul] at hzero
  exact absurd hzero (by decide)

end UploadScheduler

end Cobalt.Uploader
