import Mathlib.Algebra.BigOperators.Group.List.Basic
import Mathlib.Algebra.BigOperators.Ring.List
import Mathlib.Algebra.Order.BigOperators.Group.List
import Mathlib.Algebra.Order.Field.Rat
import Mathlib.Data.List.Forall2
import Mathlib.Tactic.FieldSimp
import Mathlib.Tactic.Linarith
import Mathlib.Tactic.Positivity
import Mathlib.Tactic.Ring

/-!
# Finite probability laws

A law is a list of outcomes with rational weights that are not negative and sum to one. An outcome
may occur more than once, so that the laws of programs with draws are built without equality of
outcomes. What a law says about an outcome is read off its expectations.

## Main definitions

* `FiniteLaw`: a law, with `expect`, `prob` and `variance`.
* `FiniteLaw.pure`, `bind`, `map`: the law of a program that draws.
* `FiniteLaw.Within`: a law is within a factor of another one.
* `FiniteLaw.uniform`, `bernoulli`, `sequence`: uniform draws, biased coins, independent draws.

## Main results

* `FiniteLaw.expect_bind`: the expectation of a program, draw by draw.
* `FiniteLaw.expect_sequence_sum`, `FiniteLaw.variance_sequence_sum`: the expectation and the
  variance of a sum over independent draws are the sums of the expectations and of the variances.
-/

variable {α β : Type}

/-- A finite law: outcomes with weights that are not negative and sum to one. -/
structure FiniteLaw (α : Type) where
  atoms : List (α × ℚ)
  nonneg : ∀ atom ∈ atoms, 0 ≤ atom.2
  total : (atoms.map Prod.snd).sum = 1

namespace FiniteLaw

/-! ### Expectations -/

/-- The expectation of a function of the outcome. -/
def expect (law : FiniteLaw α) (f : α → ℚ) : ℚ := (law.atoms.map fun atom => atom.2 * f atom.1).sum

/-- The probability of an event. -/
def prob (law : FiniteLaw α) (event : α → Prop) [DecidablePred event] : ℚ :=
  law.expect fun a => if event a then 1 else 0

/-- The expected squared distance of a function from its expectation. -/
def variance (law : FiniteLaw α) (f : α → ℚ) : ℚ := law.expect fun a => (f a - law.expect f) ^ 2

/-- An outcome that has a positive weight. -/
def Possible (law : FiniteLaw α) (a : α) : Prop := ∃ weight, (a, weight) ∈ law.atoms ∧ 0 < weight

variable (law : FiniteLaw α) {f g : α → ℚ}

theorem expect_const (c : ℚ) : law.expect (fun _ => c) = c := by
  rw [expect, List.sum_map_mul_right, law.total, one_mul]

theorem expect_add (f g : α → ℚ) :
    law.expect (fun a => f a + g a) = law.expect f + law.expect g := by
  simp only [expect, mul_add, List.sum_map_add]

theorem expect_mul_left (c : ℚ) (f : α → ℚ) : law.expect (fun a => c * f a) = c * law.expect f := by
  simp only [expect, mul_left_comm _ c, List.sum_map_mul_left]

theorem expect_sub (f g : α → ℚ) :
    law.expect (fun a => f a - g a) = law.expect f - law.expect g := by
  have h := law.expect_add (fun a => f a - g a) g
  simp only [sub_add_cancel] at h
  linarith

/-- Outcomes without weight do not count. -/
theorem expect_congr (h : ∀ a, law.Possible a → f a = g a) : law.expect f = law.expect g := by
  refine congrArg List.sum (List.map_congr_left fun atom hatom => ?_)
  rcases (law.nonneg atom hatom).eq_or_lt with hzero | hpos
  · rw [← hzero, zero_mul, zero_mul]
  · rw [h atom.1 ⟨atom.2, hatom, hpos⟩]

theorem variance_congr (h : ∀ a, law.Possible a → f a = g a) : law.variance f = law.variance g := by
  rw [variance, variance, law.expect_congr h]
  exact law.expect_congr fun a ha => by rw [h a ha]

theorem expect_nonneg (h : ∀ a, 0 ≤ f a) : 0 ≤ law.expect f := by
  refine List.sum_nonneg fun x hx => ?_
  obtain ⟨atom, hatom, rfl⟩ := List.mem_map.mp hx
  exact mul_nonneg (law.nonneg atom hatom) (h atom.1)

theorem expect_mono (h : ∀ a, f a ≤ g a) : law.expect f ≤ law.expect g := by
  have hsub := law.expect_nonneg fun a => sub_nonneg.mpr (h a)
  rw [expect_sub] at hsub
  linarith

/-- The expectation of a function that is positive at a possible outcome and never negative. -/
theorem expect_pos (h : ∀ a, 0 ≤ f a) {a : α} (ha : law.Possible a) (hpos : 0 < f a) :
    0 < law.expect f := by
  obtain ⟨weight, hatom, hweight⟩ := ha
  have hterm : weight * f a ≤ law.expect f := by
    refine List.single_le_sum (fun x hx => ?_) _ (List.mem_map.mpr ⟨(a, weight), hatom, rfl⟩)
    obtain ⟨atom, hmem, rfl⟩ := List.mem_map.mp hx
    exact mul_nonneg (law.nonneg atom hmem) (h atom.1)
  exact (mul_pos hweight hpos).trans_le hterm

/-- An event has a positive probability if and only if some possible outcome is in it. -/
theorem prob_pos_iff {event : α → Prop} [DecidablePred event] :
    0 < law.prob event ↔ ∃ a, law.Possible a ∧ event a := by
  constructor
  · intro h
    by_contra hnone
    have hzero : law.prob event = law.expect fun _ => 0 :=
      law.expect_congr fun a ha => if_neg fun he => hnone ⟨a, ha, he⟩
    rw [expect_const] at hzero
    exact h.ne' hzero
  · rintro ⟨a, ha, he⟩
    refine law.expect_pos (fun b => ?_) ha ?_
    · split_ifs <;> norm_num
    · rw [if_pos he]
      exact one_pos

/-- The variance of a function whose values are only 0 and 1. -/
theorem variance_indicator (event : α → Prop) [DecidablePred event] :
    law.variance (fun a => if event a then 1 else 0) = law.prob event * (1 - law.prob event) := by
  have hsq (a : α) : ((if event a then 1 else 0 : ℚ) - law.prob event) ^ 2 =
      (1 - 2 * law.prob event) * (if event a then 1 else 0) + law.prob event ^ 2 := by
    split_ifs <;> ring
  have hexpect : law.variance (fun a => if event a then 1 else 0) =
      law.expect fun a => ((if event a then 1 else 0 : ℚ) - law.prob event) ^ 2 := rfl
  rw [hexpect]
  simp only [hsq, expect_add, expect_mul_left, expect_const]
  rw [← prob]
  ring

/-- The variance of an affine function. -/
theorem variance_affine (c d : ℚ) (f : α → ℚ) :
    law.variance (fun a => c * f a + d) = c ^ 2 * law.variance f := by
  have hsq (a : α) : (c * f a + d - (c * law.expect f + d)) ^ 2 =
      c ^ 2 * (f a - law.expect f) ^ 2 := by ring
  rw [variance, expect_add, expect_mul_left, expect_const]
  simp only [hsq, expect_mul_left]
  rfl

/-! ### Programs that draw -/

/-- The law of an outcome that is certain. -/
def pure (a : α) : FiniteLaw α where
  atoms := [(a, 1)]
  nonneg := by simp
  total := by simp

theorem sum_bind (atoms : List (α × ℚ)) (next : α → FiniteLaw β) (f : β → ℚ) :
    ((atoms.flatMap fun atom => (next atom.1).atoms.map fun atom' => (atom'.1, atom.2 * atom'.2)).map
      fun atom => atom.2 * f atom.1).sum =
      (atoms.map fun atom => atom.2 * (next atom.1).expect f).sum := by
  induction atoms with
  | nil => rfl
  | cons atom atoms ih =>
    rw [List.flatMap_cons, List.map_append, List.sum_append, ih, List.map_cons, List.sum_cons,
      List.map_map, expect, ← List.sum_map_mul_left]
    simp only [Function.comp_def, mul_assoc]

/-- The law of a draw and of what is drawn next. -/
def bind (law : FiniteLaw α) (next : α → FiniteLaw β) : FiniteLaw β where
  atoms := law.atoms.flatMap fun atom =>
    (next atom.1).atoms.map fun atom' => (atom'.1, atom.2 * atom'.2)
  nonneg := by
    intro atom h
    obtain ⟨atom₁, h₁, h⟩ := List.mem_flatMap.mp h
    obtain ⟨atom₂, h₂, rfl⟩ := List.mem_map.mp h
    exact mul_nonneg (law.nonneg atom₁ h₁) ((next atom₁.1).nonneg atom₂ h₂)
  total := by
    have h := sum_bind law.atoms next fun _ => 1
    simp only [expect_const, mul_one] at h
    exact h.trans law.total

/-- The law of a function of the outcome. -/
def map (f : α → β) (law : FiniteLaw α) : FiniteLaw β := law.bind fun a => pure (f a)

@[simp] theorem expect_pure (a : α) (f : α → ℚ) : (pure a).expect f = f a := by
  simp [pure, expect]

/-- **The expectation of a program**: that of the first draw of the expectation of the rest. -/
@[simp] theorem expect_bind (next : α → FiniteLaw β) (f : β → ℚ) :
    (law.bind next).expect f = law.expect fun a => (next a).expect f :=
  sum_bind law.atoms next f

@[simp] theorem expect_map (f : α → β) (g : β → ℚ) :
    (law.map f).expect g = law.expect fun a => g (f a) := by
  simp [map]

@[simp] theorem possible_pure {a b : α} : (pure a).Possible b ↔ b = a := by
  constructor
  · rintro ⟨weight, hatom, -⟩
    exact (Prod.mk.inj (List.mem_singleton.mp hatom)).1
  · rintro rfl
    exact ⟨1, List.mem_singleton.mpr rfl, one_pos⟩

@[simp] theorem possible_bind {next : α → FiniteLaw β} {b : β} :
    (law.bind next).Possible b ↔ ∃ a, law.Possible a ∧ (next a).Possible b := by
  constructor
  · rintro ⟨weight, hatom, hpos⟩
    obtain ⟨⟨a, w⟩, ha, hatom⟩ := List.mem_flatMap.mp hatom
    obtain ⟨⟨b', w'⟩, hb, heq⟩ := List.mem_map.mp hatom
    obtain ⟨rfl, rfl⟩ := Prod.mk.inj heq
    have hw := law.nonneg _ ha
    have hw' := (next a).nonneg _ hb
    exact ⟨a, ⟨w, ha, pos_of_mul_pos_left hpos hw'⟩, w', hb, pos_of_mul_pos_right hpos hw⟩
  · rintro ⟨a, ⟨w, ha, hw⟩, w', hb, hw'⟩
    exact ⟨w * w', List.mem_flatMap.mpr ⟨(a, w), ha, List.mem_map.mpr ⟨(b, w'), hb, rfl⟩⟩,
      mul_pos hw hw'⟩

@[simp] theorem possible_map {f : α → β} {b : β} :
    (law.map f).Possible b ↔ ∃ a, law.Possible a ∧ b = f a := by
  simp [map]

/-- The draws of two independent laws add their variances. -/
theorem variance_bind_add {γ : Type} (law' : FiniteLaw β) (pair : α → β → γ) (f : α → ℚ)
    (g : β → ℚ) {h : γ → ℚ} (hpair : ∀ a b, h (pair a b) = f a + g b) :
    (law.bind fun a => law'.map (pair a)).variance h = law.variance f + law'.variance g := by
  have hmean : (law.bind fun a => law'.map (pair a)).expect h = law.expect f + law'.expect g := by
    simp only [expect_bind, expect_map, hpair, expect_add, expect_const]
  have hsq (a : α) (b : β) : (f a + g b - (law.expect f + law'.expect g)) ^ 2 =
      (f a - law.expect f) ^ 2 + 2 * (f a - law.expect f) * (g b - law'.expect g) +
        (g b - law'.expect g) ^ 2 := by ring
  have hcenter : law'.expect (fun b => g b - law'.expect g) = 0 := by
    rw [expect_sub, expect_const, sub_self]
  rw [variance, hmean]
  simp only [expect_bind, expect_map, hpair, hsq, expect_add, expect_const, expect_mul_left,
    hcenter, mul_zero, add_zero]
  rfl

/-! ### Laws within a factor of each other -/

/-- A law is within a factor of another one: the expectation of a function that is not negative
is at most that factor times larger. -/
def Within (c : ℚ) (law law' : FiniteLaw α) : Prop :=
  ∀ f : α → ℚ, (∀ a, 0 ≤ f a) → law.expect f ≤ c * law'.expect f

namespace Within

variable {c : ℚ} {law law' : FiniteLaw α}

theorem prob_le (h : Within c law law') (event : α → Prop) [DecidablePred event] :
    law.prob event ≤ c * law'.prob event :=
  h _ fun a => by split_ifs <;> norm_num

/-- What is computed from the outcomes is within the same factor. -/
theorem map (h : Within c law law') (f : α → β) : Within c (law.map f) (law'.map f) := by
  intro g hg
  rw [expect_map, expect_map]
  exact h _ fun a => hg (f a)

/-- Draws before the laws that are compared do not matter. -/
theorem bind {next next' : α → FiniteLaw β} (h : ∀ a a', Within c (next a) (next' a')) :
    Within c (law.bind next) (law'.bind next') := by
  intro f hf
  have hone (a : α) : (next a).expect f ≤ c * (law'.bind next').expect f := by
    rw [expect_bind, ← expect_mul_left, ← law'.expect_const ((next a).expect f)]
    exact law'.expect_mono fun a' => h a a' f hf
  rw [expect_bind, ← law.expect_const (c * (law'.bind next').expect f)]
  exact law.expect_mono hone

theorem mono (h : Within c law law') {d : ℚ} (hcd : c ≤ d) : Within d law law' := by
  intro f hf
  exact (h f hf).trans (mul_le_mul_of_nonneg_right hcd (law'.expect_nonneg hf))

/-- Draws whose laws are within a factor, and then draws that are within another one. -/
theorem bind_mul {next next' : α → FiniteLaw β} {d : ℚ} (h : Within c law law') (hd : 0 ≤ d)
    (hnext : ∀ a, Within d (next a) (next' a)) :
    Within (c * d) (law.bind next) (law'.bind next') := by
  intro f hf
  have hnonneg (a : α) : 0 ≤ (next' a).expect f := (next' a).expect_nonneg hf
  rw [expect_bind, expect_bind]
  calc law.expect (fun a => (next a).expect f)
      ≤ law.expect (fun a => d * (next' a).expect f) := law.expect_mono fun a => hnext a f hf
    _ = d * law.expect (fun a => (next' a).expect f) := law.expect_mul_left d _
    _ ≤ d * (c * law'.expect fun a => (next' a).expect f) :=
      mul_le_mul_of_nonneg_left (h _ hnonneg) hd
    _ = c * d * law'.expect (fun a => (next' a).expect f) := by ring

end Within

/-! ### Uniform draws and biased coins -/

/-- The uniform law on the numbers below a positive number. -/
def uniform (n : ℕ) (hn : 0 < n) : FiniteLaw ℕ where
  atoms := (List.range n).map fun i => (i, 1 / (n : ℚ))
  nonneg := by
    intro atom h
    obtain ⟨i, -, rfl⟩ := List.mem_map.mp h
    positivity
  total := by
    have hn' : (n : ℚ) ≠ 0 := Nat.cast_ne_zero.mpr hn.ne'
    rw [List.map_map]
    simp [Function.comp_def, hn']

theorem expect_uniform {n : ℕ} (hn : 0 < n) (f : ℕ → ℚ) :
    (uniform n hn).expect f = ((List.range n).map f).sum / n := by
  simp only [expect, uniform, List.map_map, Function.comp_def, List.sum_map_mul_left]
  ring

theorem possible_uniform {n : ℕ} {hn : 0 < n} {i : ℕ} : (uniform n hn).Possible i ↔ i < n := by
  have hpos : 0 < 1 / (n : ℚ) := by positivity
  constructor
  · rintro ⟨weight, hatom, -⟩
    obtain ⟨j, hj, heq⟩ := List.mem_map.mp hatom
    rw [← (Prod.mk.inj heq).1]
    exact List.mem_range.mp hj
  · intro h
    exact ⟨1 / n, List.mem_map.mpr ⟨i, List.mem_range.mpr h, rfl⟩, hpos⟩

theorem sum_range_lt (n m : ℕ) :
    ((List.range n).map fun i => if i < m then (1 : ℚ) else 0).sum = min m n := by
  induction n with
  | zero => simp
  | succ n ih =>
    rw [List.sum_range_succ, ih]
    split_ifs with h
    · rw [min_eq_right (by exact_mod_cast h.le), min_eq_right (by exact_mod_cast h)]
      push_cast
      ring
    · have h : m ≤ n := Nat.le_of_not_lt h
      rw [min_eq_left (by exact_mod_cast h), min_eq_left (by exact_mod_cast h.trans n.le_succ),
        add_zero]

/-- A uniform draw is below a threshold with the probability that the threshold stands for. -/
theorem prob_uniform_lt {n m : ℕ} (hn : 0 < n) (hm : m ≤ n) :
    (uniform n hn).prob (· < m) = (m : ℚ) / n := by
  rw [prob, expect_uniform, sum_range_lt, min_eq_left (by exact_mod_cast hm)]

theorem sum_range_eq {n m : ℕ} (hm : m < n) :
    ((List.range n).map fun i => if i = m then (1 : ℚ) else 0).sum = 1 := by
  have hsum (k : ℕ) : ((List.range k).map fun i => if i = m then (1 : ℚ) else 0).sum =
      if m < k then 1 else 0 := by
    induction k with
    | zero => simp
    | succ k ih =>
      rw [List.sum_range_succ, ih]
      split_ifs <;> first | omega | norm_num
  rw [hsum, if_pos hm]

/-- A probability. -/
structure Probability where
  value : ℚ
  nonneg : 0 ≤ value
  le_one : value ≤ 1

/-- A coin that is `true` with a probability. -/
def bernoulli (p : Probability) : FiniteLaw Bool where
  atoms := [(true, p.value), (false, 1 - p.value)]
  nonneg := by
    simp only [List.forall_mem_cons, List.not_mem_nil, false_implies, implies_true, and_true]
    exact ⟨p.nonneg, sub_nonneg.mpr p.le_one⟩
  total := by simp

@[simp] theorem expect_bernoulli (p : Probability) (f : Bool → ℚ) :
    (bernoulli p).expect f = p.value * f true + (1 - p.value) * f false := by
  simp [bernoulli, expect]

/-! ### Independent draws -/

/-- The law of a list of independent draws. -/
def sequence : List (FiniteLaw α) → FiniteLaw (List α)
  | [] => pure []
  | law :: laws => law.bind fun a => (sequence laws).map (a :: ·)

/-- Independent draws of one law. -/
def replicate (n : ℕ) (law : FiniteLaw α) : FiniteLaw (List α) := sequence (List.replicate n law)

/-- One of some independent draws has its own law. -/
theorem expect_sequence_getD {laws : List (FiniteLaw α)} {i : ℕ} (hi : i < laws.length)
    (default : α) (f : α → ℚ) :
    (sequence laws).expect (fun draws => f (draws.getD i default)) = (laws[i]).expect f := by
  induction laws generalizing i with
  | nil => exact absurd hi (Nat.not_lt_zero i)
  | cons law laws ih =>
    rw [sequence, expect_bind]
    cases i with
    | zero => simp only [expect_map, List.getD_cons_zero, expect_const, List.getElem_cons_zero]
    | succ i =>
      simp only [expect_map, List.getD_cons_succ, ih (Nat.lt_of_succ_lt_succ hi), expect_const,
        List.getElem_cons_succ]

theorem expect_replicate_getD {n i : ℕ} (hi : i < n) (default : α) (f : α → ℚ) :
    (replicate n law).expect (fun draws => f (draws.getD i default)) = law.expect f := by
  have hlen : i < (List.replicate n law).length := by rwa [List.length_replicate]
  rw [replicate, expect_sequence_getD hlen, List.getElem_replicate]

/-- The possible lists of independent draws are the lists of possible draws. -/
theorem possible_sequence {laws : List (FiniteLaw α)} {draws : List α} :
    (sequence laws).Possible draws ↔ List.Forall₂ Possible laws draws := by
  induction laws generalizing draws with
  | nil => rw [sequence, possible_pure, List.forall₂_nil_left_iff]
  | cons law laws ih =>
    rw [sequence, possible_bind, List.forall₂_cons_left_iff]
    constructor
    · rintro ⟨a, ha, hrest⟩
      obtain ⟨draws', hdraws, rfl⟩ := (possible_map _).mp hrest
      exact ⟨a, draws', ha, ih.mp hdraws, rfl⟩
    · rintro ⟨a, draws', ha, hdraws, rfl⟩
      exact ⟨a, ha, (possible_map _).mpr ⟨draws', ih.mpr hdraws, rfl⟩⟩

/-- Each of some independent draws is possible for one of the laws. -/
theorem exists_possible_of_mem {laws : List (FiniteLaw α)} {draws : List α}
    (h : (sequence laws).Possible draws) {a : α} (ha : a ∈ draws) :
    ∃ law ∈ laws, law.Possible a := by
  obtain ⟨hlength, hget⟩ := List.forall₂_iff_get.mp (possible_sequence.mp h)
  obtain ⟨i, rfl⟩ := List.get_of_mem ha
  have hi : i < laws.length := hlength.trans_gt i.isLt
  exact ⟨_, List.get_mem laws ⟨i, hi⟩, hget i hi i.isLt⟩

/-- The expectation of a product over independent draws. -/
theorem expect_sequence_prod (laws : List (FiniteLaw α)) (f : α → ℚ) :
    (sequence laws).expect (fun draws => (draws.map f).prod) =
      (laws.map fun law => law.expect f).prod := by
  induction laws with
  | nil => simp [sequence]
  | cons law laws ih =>
    have hright (c : ℚ) (f : α → ℚ) : (law.expect fun a => f a * c) = law.expect f * c := by
      simp only [mul_comm _ c, expect_mul_left]
    simp only [sequence, expect_bind, expect_map, List.map_cons, List.prod_cons, expect_mul_left,
      ih, hright]

/-- The expectation of a sum over independent draws. -/
theorem expect_sequence_sum (laws : List (FiniteLaw α)) (f : α → ℚ) :
    (sequence laws).expect (fun draws => (draws.map f).sum) =
      (laws.map fun law => law.expect f).sum := by
  induction laws with
  | nil => simp [sequence]
  | cons law laws ih =>
    simp only [sequence, expect_bind, expect_map, List.map_cons, List.sum_cons, expect_add,
      expect_const, ih]

/-- The variance of a sum over independent draws. -/
theorem variance_sequence_sum (laws : List (FiniteLaw α)) (f : α → ℚ) :
    (sequence laws).variance (fun draws => (draws.map f).sum) =
      (laws.map fun law => law.variance f).sum := by
  induction laws with
  | nil => simp [sequence, variance]
  | cons law laws ih =>
    have hadd := variance_bind_add law (sequence laws) (fun a draws => a :: draws) f
      (fun draws => (draws.map f).sum) (h := fun draws => (draws.map f).sum) fun a draws => by
        rw [List.map_cons, List.sum_cons]
    rw [sequence, hadd, ih, List.map_cons, List.sum_cons]

/-- Independent draws of laws within a factor are within its power. -/
theorem Within.sequence {c : ℚ} (hc : 0 ≤ c) {laws laws' : List (FiniteLaw α)}
    (h : List.Forall₂ (Within c) laws laws') :
    Within (c ^ laws.length) (sequence laws) (FiniteLaw.sequence laws') := by
  induction h with
  | nil =>
    intro f _
    rw [List.length_nil, pow_zero, one_mul]
  | cons hlaw _ ih =>
    rw [List.length_cons, pow_succ']
    exact hlaw.bind_mul (pow_nonneg hc _) fun a => ih.map (a :: ·)

/-! ### Laws with the same expectations -/

/-- Two laws that give every function the same expectation. -/
def SameExpectations (law law' : FiniteLaw α) : Prop := ∀ f : α → ℚ, law.expect f = law'.expect f

/-- A law for each of some draws can be replaced. -/
theorem SameExpectations.sequence {laws laws' : List (FiniteLaw α)}
    (h : List.Forall₂ SameExpectations laws laws') :
    SameExpectations (FiniteLaw.sequence laws) (FiniteLaw.sequence laws') := by
  induction h with
  | nil => exact fun _ => rfl
  | cons hlaw _ ih =>
    intro f
    simp only [FiniteLaw.sequence, expect_bind, expect_map]
    rw [hlaw]
    exact expect_congr _ fun a _ => ih fun draws => f (a :: draws)

/-- What is computed from each of some independent draws is independent. -/
theorem sameExpectations_map_sequence (laws : List (FiniteLaw α)) (g : α → β) :
    SameExpectations ((sequence laws).map (List.map g)) (sequence (laws.map (map g))) := by
  induction laws with
  | nil =>
    intro f
    simp only [sequence, List.map_nil, expect_map, expect_pure]
  | cons law laws ih =>
    intro f
    have hrest (a : α) := ih fun draws => f (g a :: draws)
    simp only [expect_map] at hrest
    simp only [sequence, List.map_cons, expect_bind, expect_map, hrest]

end FiniteLaw
