import Cobalt.Lib.FiniteLaw
import Mathlib.Data.UInt

/-!
# Randomized response

A `ResponseRandomizer` returns an index or, if a coin comes up heads, an index that is drawn
uniformly. A `FrequencyEstimator` counts the indices that some clients return, and estimates how
often each index was encoded.

The draws are those of `DiscreteUniformDistribution` and `BernoulliDistribution`. A number of type
`double` is a rational number, and the arithmetic of the estimator is exact, without the rounding of
floating point. The counters wrap, as numbers of type `uint64_t`. A result `none` stands for an access
outside of a vector.

## Main definitions

* `ResponseRandomizer.encode`, `ResponseRandomizer.law`: the encoder and the law of its result.
* `FrequencyEstimator.getFrequenciesFromIndices`,
  `FrequencyEstimator.getFrequenciesFromHistograms`: the estimator.

## Main results

* `ResponseRandomizer.within_law`, `ResponseRandomizer.prob_law_zero_eq`: how much the result tells
  about the index.
* `expect_getFrequenciesFromIndices`: the estimates are unbiased in exact arithmetic.
-/

namespace Cobalt.Algorithms

open FiniteLaw (Probability)

/-! ### The randomizer -/

/-- `ResponseRandomizer`. -/
structure ResponseRandomizer where
  maxIndex : UInt32
  p : Probability

namespace ResponseRandomizer

/-- `Encode`, with the sample of the uniform distribution and the coin. -/
def encode (r : ResponseRandomizer) (randomResponse : UInt32) (heads : Bool) (index : UInt32) :
    UInt32 :=
  let response := min r.maxIndex index
  if heads then randomResponse else response

/-- The law of the sample of the uniform distribution and of the coin. -/
def draws (r : ResponseRandomizer) : FiniteLaw (UInt32 × Bool) :=
  (FiniteLaw.uniform (r.maxIndex.toNat + 1) (Nat.succ_pos _)).bind fun n =>
    (FiniteLaw.bernoulli r.p).map fun heads => (UInt32.ofNat n, heads)

/-- The law of the result of `Encode`. -/
def law (r : ResponseRandomizer) (index : UInt32) : FiniteLaw UInt32 :=
  r.draws.map fun draw => r.encode draw.1 draw.2 index

variable (r : ResponseRandomizer) (index : UInt32)

/-- An index that is not too large is not replaced. -/
theorem min_eq_of_le {r : ResponseRandomizer} {index : UInt32} (h : index ≤ r.maxIndex) :
    min r.maxIndex index = index := by
  have hmin : min r.maxIndex index = if r.maxIndex ≤ index then r.maxIndex else index := rfl
  rw [hmin]
  split_ifs with hle
  · exact UInt32.le_antisymm hle h
  · rfl

/-- The average of a function over the indices. -/
def average (f : UInt32 → ℚ) : ℚ :=
  ((List.range (r.maxIndex.toNat + 1)).map fun n => f (UInt32.ofNat n)).sum /
    (r.maxIndex.toNat + 1 : ℕ)

/-- The expectation of a function of the result: the average if the coin comes up heads, and else
the value at the index. -/
theorem expect_law (f : UInt32 → ℚ) :
    (r.law index).expect f = r.p.value * r.average f + (1 - r.p.value) * f (min r.maxIndex index) := by
  simp only [law, draws, FiniteLaw.expect_map, FiniteLaw.expect_bind, FiniteLaw.expect_bernoulli,
    encode, if_true, Bool.false_eq_true, if_false, FiniteLaw.expect_add, FiniteLaw.expect_mul_left,
    FiniteLaw.expect_const]
  rw [FiniteLaw.expect_uniform, average]

/-- The result is at most the largest index. -/
theorem le_of_possible_law {response : UInt32} (h : (r.law index).Possible response) :
    response ≤ r.maxIndex := by
  obtain ⟨draw, hdraw, rfl⟩ := (FiniteLaw.possible_map _).mp h
  obtain ⟨n, hn, hdraw⟩ := (FiniteLaw.possible_bind _).mp hdraw
  obtain ⟨heads, -, rfl⟩ := (FiniteLaw.possible_map _).mp hdraw
  rw [encode]
  split_ifs
  · have hn := FiniteLaw.possible_uniform.mp hn
    have hlt := r.maxIndex.toNat_lt
    rw [UInt32.le_iff_toNat_le, UInt32.toNat_ofNat_of_lt' (by rw [UInt32.size]; omega)]
    exact Nat.le_of_lt_succ hn
  · exact Std.min_le_left

/-! ### What the result tells about the index -/

/-- The largest ratio of the probabilities of a result for two indices. -/
def privacyFactor : ℚ := 1 + (1 - r.p.value) * (r.maxIndex.toNat + 1 : ℕ) / r.p.value

theorem average_nonneg {f : UInt32 → ℚ} (hf : ∀ response, 0 ≤ f response) : 0 ≤ r.average f := by
  refine div_nonneg (List.sum_nonneg fun x hx => ?_) (Nat.cast_nonneg _)
  obtain ⟨n, -, rfl⟩ := List.mem_map.mp hx
  exact hf _

/-- The value at one of the indices is at most the sum of the values. -/
theorem le_mul_average {f : UInt32 → ℚ} (hf : ∀ response, 0 ≤ f response) {response : UInt32}
    (hresponse : response ≤ r.maxIndex) :
    f response ≤ (r.maxIndex.toNat + 1 : ℕ) * r.average f := by
  have hpos : ((r.maxIndex.toNat + 1 : ℕ) : ℚ) ≠ 0 := Nat.cast_ne_zero.mpr (Nat.succ_ne_zero _)
  rw [average, mul_div_cancel₀ _ hpos]
  refine List.single_le_sum (fun x hx => ?_) _ (List.mem_map.mpr ⟨response.toNat, ?_, ?_⟩)
  · obtain ⟨n, -, rfl⟩ := List.mem_map.mp hx
    exact hf _
  · exact List.mem_range.mpr (Nat.lt_succ_of_le (UInt32.le_iff_toNat_le.mp hresponse))
  · rw [UInt32.ofNat_toNat]

/-- The probability of a result that is one of the indices. -/
theorem prob_law_eq {response : UInt32} (hresponse : response ≤ r.maxIndex) :
    (r.law index).prob (· = response) =
      r.p.value / (r.maxIndex.toNat + 1 : ℕ) +
        (1 - r.p.value) * if min r.maxIndex index = response then 1 else 0 := by
  have hlt : response.toNat < r.maxIndex.toNat + 1 :=
    Nat.lt_succ_of_le (UInt32.le_iff_toNat_le.mp hresponse)
  have hsum : (List.range (r.maxIndex.toNat + 1)).map
      (fun n => if UInt32.ofNat n = response then (1 : ℚ) else 0) =
        (List.range (r.maxIndex.toNat + 1)).map fun n => if n = response.toNat then 1 else 0 := by
    refine List.map_congr_left fun n hn => ?_
    have hn := List.mem_range.mp hn
    have hmax := r.maxIndex.toNat_lt
    have hiff : UInt32.ofNat n = response ↔ n = response.toNat := by
      rw [← UInt32.toNat_inj, UInt32.toNat_ofNat_of_lt' (by rw [UInt32.size]; omega)]
    simp only [hiff]
  rw [FiniteLaw.prob, expect_law, average, hsum, FiniteLaw.sum_range_eq hlt, mul_one_div]

/-- The laws of two indices are within the privacy factor of each other. -/
theorem within_law (hp : 0 < r.p.value) {c : ℚ} (hc : r.privacyFactor ≤ c) (index index' : UInt32) :
    FiniteLaw.Within c (r.law index) (r.law index') := by
  intro f hf
  have hp' : 0 ≤ 1 - r.p.value := sub_nonneg.mpr r.p.le_one
  have haverage := r.average_nonneg hf
  have hone : 0 ≤ c := le_trans (by rw [privacyFactor]; positivity) hc
  calc (r.law index).expect f
      = r.p.value * r.average f + (1 - r.p.value) * f (min r.maxIndex index) := r.expect_law index f
    _ ≤ r.p.value * r.average f +
        (1 - r.p.value) * ((r.maxIndex.toNat + 1 : ℕ) * r.average f) := by
      gcongr
      exact r.le_mul_average hf Std.min_le_left
    _ = r.privacyFactor * (r.p.value * r.average f) := by
      rw [privacyFactor]
      field_simp
    _ ≤ c * (r.p.value * r.average f) :=
      mul_le_mul_of_nonneg_right hc (mul_nonneg hp.le haverage)
    _ ≤ c * (r.law index').expect f := by
      rw [expect_law]
      gcongr
      exact le_add_of_nonneg_right (mul_nonneg hp' (hf _))

/-- The index 0 is returned for itself with the privacy factor of the probability for another one. -/
theorem prob_law_zero_eq (hp : 0 < r.p.value) {index : UInt32} (hindex : index ≠ 0)
    (hle : index ≤ r.maxIndex) :
    (r.law 0).prob (· = 0) = r.privacyFactor * (r.law index).prob (· = 0) := by
  have hcount : (0 : ℚ) < (r.maxIndex.toNat + 1 : ℕ) := Nat.cast_pos.mpr (Nat.succ_pos _)
  rw [prob_law_eq r 0 UInt32.zero_le, prob_law_eq r index UInt32.zero_le,
    min_eq_of_le UInt32.zero_le, min_eq_of_le hle, if_pos rfl, if_neg hindex, mul_one, mul_zero,
    add_zero, privacyFactor]
  field_simp

theorem prob_law_zero_pos (hp : 0 < r.p.value) : 0 < (r.law index).prob (· = 0) := by
  have hcount : (0 : ℚ) < (r.maxIndex.toNat + 1 : ℕ) := Nat.cast_pos.mpr (Nat.succ_pos _)
  rw [prob_law_eq r index UInt32.zero_le]
  refine add_pos_of_pos_of_nonneg (div_pos hp hcount) (mul_nonneg (sub_nonneg.mpr r.p.le_one) ?_)
  split_ifs <;> norm_num

end ResponseRandomizer

/-! ### The estimator -/

/-- `FrequencyEstimator`, with a rational number for the probability. -/
structure FrequencyEstimator where
  maxIndex : UInt32
  p : ℚ

namespace FrequencyEstimator

/-- Adds to one of the counters, which are of type `uint64_t`. -/
def addTo (rawFrequencies : List ℕ) (index count : ℕ) : Option (List ℕ) :=
  if index < rawFrequencies.length then
    some (rawFrequencies.modify index fun raw => (raw + count) % 2 ^ 64)
  else none

/-- `GetDebiasedFrequencies`, in rational numbers, without the rounding of `double`. -/
def getDebiasedFrequencies (e : FrequencyEstimator) (rawFrequencies : List ℕ) (inputSize : ℕ) :
    Option (List ℚ) :=
  let shift := inputSize * e.p / (e.maxIndex + 1).toNat
  let scale := 1 - e.p
  (List.range (e.maxIndex.toNat + 1)).mapM fun i =>
    rawFrequencies[i]?.map fun raw : ℕ => (raw - shift) / scale

/-- The loop of `GetFrequenciesFromIndices`. -/
def countIndices (maxIndex : UInt32) (indices : List UInt32) (rawFrequencies : List ℕ) :
    Option (List ℕ) :=
  indices.foldlM (fun raw index => if index ≤ maxIndex then addTo raw index.toNat 1 else some raw)
    rawFrequencies

/-- `GetFrequenciesFromIndices`. -/
def getFrequenciesFromIndices (e : FrequencyEstimator) (indices : List UInt32) :
    Option (List ℚ) := do
  let raw ← countIndices e.maxIndex indices (List.replicate (e.maxIndex + 1).toNat 0)
  e.getDebiasedFrequencies raw indices.length

/-- The loop over one histogram of `GetFrequenciesFromHistograms`: the frequencies and the size of
the input. -/
def addHistogram (maxIndex : UInt32) (state : List ℕ × ℕ) (histogram : List ℕ) :
    Option (List ℕ × ℕ) :=
  (List.range (maxIndex.toNat + 1)).foldlM (fun state i => do
    let count ← histogram[i]?
    let raw ← addTo state.1 i count
    return (raw, (state.2 + count) % 2 ^ 64)) state

/-- `GetFrequenciesFromHistograms`. -/
def getFrequenciesFromHistograms (e : FrequencyEstimator) (histograms : List (List ℕ)) :
    Option (List ℚ) := do
  let state ← histograms.foldlM (addHistogram e.maxIndex)
    (List.replicate (e.maxIndex + 1).toNat 0, 0)
  e.getDebiasedFrequencies state.1 state.2

/-! ### The frequencies -/

variable {e : FrequencyEstimator} {maxIndex : UInt32}

theorem toNat_maxIndex_add_one (hmax : maxIndex ≠ -1) :
    (maxIndex + 1).toNat = maxIndex.toNat + 1 := by
  have hne : maxIndex.toNat ≠ 2 ^ 32 - 1 := fun h => hmax (UInt32.toNat.inj h)
  have hlt := maxIndex.toNat_lt
  have hone : (1 : UInt32).toNat = 1 := rfl
  rw [UInt32.toNat_add, hone]
  exact Nat.mod_eq_of_lt (by omega)

/-- Adding to one of the counters. -/
theorem addTo_eq {numIndices index : ℕ} (hindex : index < numIndices) (f : ℕ → ℕ) (count : ℕ) :
    addTo ((List.range numIndices).map fun i => f i % 2 ^ 64) index count =
      some ((List.range numIndices).map fun i =>
        (f i + if i = index then count else 0) % 2 ^ 64) := by
  rw [addTo, if_pos (by rwa [List.length_map, List.length_range])]
  refine congrArg some (List.ext_getElem (by simp) fun i hi hi' => ?_)
  rw [List.getElem_modify, List.getElem_map, List.getElem_map, List.getElem_range]
  split_ifs with h h'
  · exact Nat.mod_add_mod _ _ _
  · exact absurd h.symm h'
  · exact absurd (Eq.symm ‹_›) h
  · rfl

theorem mapM_eq_some_map {α β : Type} {f : α → Option β} {g : α → β} {l : List α}
    (h : ∀ a ∈ l, f a = some (g a)) : l.mapM f = some (l.map g) := by
  induction l with
  | nil => rfl
  | cons a l ih =>
    obtain ⟨ha, hl⟩ := List.forall_mem_cons.mp h
    rw [List.mapM_cons, ha, ih hl]
    rfl

/-- The estimates from some frequencies. -/
theorem getDebiasedFrequencies_eq (hmax : e.maxIndex ≠ -1) (f : ℕ → ℕ) (inputSize : ℕ) :
    e.getDebiasedFrequencies ((List.range (e.maxIndex.toNat + 1)).map f) inputSize =
      some ((List.range (e.maxIndex.toNat + 1)).map fun i =>
        ((f i : ℚ) - inputSize * e.p / (e.maxIndex.toNat + 1 : ℕ)) / (1 - e.p)) := by
  rw [getDebiasedFrequencies, toNat_maxIndex_add_one hmax]
  refine mapM_eq_some_map fun i hi => ?_
  rw [List.getElem?_map, List.getElem?_range (List.mem_range.mp hi)]
  rfl

/-- The loop over the indices counts each of them. -/
theorem countIndices_eq (indices : List UInt32) (f : ℕ → ℕ) :
    countIndices maxIndex indices ((List.range (maxIndex.toNat + 1)).map fun i => f i % 2 ^ 64) =
      some ((List.range (maxIndex.toNat + 1)).map fun i =>
        (f i + indices.count (UInt32.ofNat i)) % 2 ^ 64) := by
  induction indices generalizing f with
  | nil => rfl
  | cons index indices ih =>
    have hfits := maxIndex.toNat_lt
    have hkey (i : ℕ) (hi : i < maxIndex.toNat + 1) :
        i = index.toNat ↔ index = UInt32.ofNat i := by
      rw [← UInt32.toNat_inj, UInt32.toNat_ofNat_of_lt' (by rw [UInt32.size]; omega), eq_comm]
    rw [countIndices, List.foldlM_cons]
    by_cases hle : index ≤ maxIndex
    · rw [if_pos hle, addTo_eq (Nat.lt_succ_of_le (UInt32.le_iff_toNat_le.mp hle)),
        Option.bind_eq_bind, Option.bind_some]
      refine (ih _).trans (congrArg some (List.map_congr_left fun i hi => ?_))
      have hi := hkey i (List.mem_range.mp hi)
      rw [List.count_cons, beq_eq_decide, Nat.add_assoc, Nat.add_comm (ite _ _ _)]
      simp only [hi, decide_eq_true_eq]
    · rw [if_neg hle, Option.bind_eq_bind, Option.bind_some]
      refine (ih f).trans (congrArg some (List.map_congr_left fun i hi => ?_))
      have hi := List.mem_range.mp hi
      have hne : ¬ index = UInt32.ofNat i := by
        rw [← hkey i hi]
        rw [UInt32.le_iff_toNat_le] at hle
        omega
      rw [List.count_cons, beq_eq_decide, decide_eq_false hne]
      simp

/-- The counters of some indices start at 0. -/
theorem replicate_zero_eq (hmax : maxIndex ≠ -1) : List.replicate (maxIndex + 1).toNat 0 =
    (List.range (maxIndex.toNat + 1)).map fun _ => 0 % 2 ^ 64 := by
  rw [toNat_maxIndex_add_one hmax, List.map_const', List.length_range, Nat.zero_mod]

/-- The estimates from indices, which are not more than a counter can count. -/
theorem getFrequenciesFromIndices_eq (hmax : e.maxIndex ≠ -1) {indices : List UInt32}
    (hsize : indices.length < 2 ^ 64) :
    e.getFrequenciesFromIndices indices =
      some ((List.range (e.maxIndex.toNat + 1)).map fun i =>
        ((indices.count (UInt32.ofNat i) : ℚ) -
          indices.length * e.p / (e.maxIndex.toNat + 1 : ℕ)) / (1 - e.p)) := by
  rw [getFrequenciesFromIndices, replicate_zero_eq hmax, countIndices_eq, Option.bind_eq_bind,
    Option.bind_some, getDebiasedFrequencies_eq hmax]
  have hcount (i : ℕ) : (0 + indices.count (UInt32.ofNat i)) % 2 ^ 64 =
      indices.count (UInt32.ofNat i) := by
    rw [Nat.zero_add, Nat.mod_eq_of_lt (List.count_le_length.trans_lt hsize)]
  simp only [hcount]

/-- The number of indices that a histogram counts. -/
def numCounted (maxIndex : UInt32) (histogram : List ℕ) : ℕ :=
  ((List.range (maxIndex.toNat + 1)).map fun i => histogram.getD i 0).sum

/-- The loop over one histogram adds its counts. -/
theorem addHistogram_eq {histogram : List ℕ} (hlength : histogram.length = maxIndex.toNat + 1)
    (f : ℕ → ℕ) (inputSize : ℕ) :
    addHistogram maxIndex
      ((List.range (maxIndex.toNat + 1)).map fun i => f i % 2 ^ 64, inputSize % 2 ^ 64) histogram =
      some ((List.range (maxIndex.toNat + 1)).map fun i => (f i + histogram.getD i 0) % 2 ^ 64,
        (inputSize + numCounted maxIndex histogram) % 2 ^ 64) := by
  -- The frequencies and the size of the input after some of the indices.
  have hloop (k : ℕ) (hk : k ≤ maxIndex.toNat + 1) :
      (List.range k).foldlM (fun (state : List ℕ × ℕ) i => do
        let count ← histogram[i]?
        let raw ← addTo state.1 i count
        return (raw, (state.2 + count) % 2 ^ 64))
          ((List.range (maxIndex.toNat + 1)).map fun i => f i % 2 ^ 64, inputSize % 2 ^ 64) =
      some ((List.range (maxIndex.toNat + 1)).map
          fun i => (f i + if i < k then histogram.getD i 0 else 0) % 2 ^ 64,
        (inputSize + ((List.range k).map fun i => histogram.getD i 0).sum) % 2 ^ 64) := by
    induction k with
    | zero => simp
    | succ k ih =>
      have hget : histogram[k]? = some (histogram.getD k 0) := by
        rw [List.getD_eq_getElem?_getD, List.getElem?_eq_getElem (by omega), Option.getD_some]
      rw [List.range_succ (n := k), List.foldlM_append, ih (by omega), Option.bind_eq_bind, Option.bind_some,
        List.foldlM_cons, hget, Option.bind_eq_bind, Option.bind_eq_bind, Option.bind_some,
        addTo_eq (by omega), Option.bind_eq_bind, Option.bind_some]
      refine congrArg some (Prod.ext (List.map_congr_left fun i hi => ?_) ?_)
      · by_cases hik : i = k
        · subst hik
          simp
        · have hiff : i < k ↔ i < k + 1 := by omega
          simp only [if_neg hik, Nat.add_zero, hiff]
      · simp [Nat.mod_add_mod, Nat.add_assoc]
  rw [addHistogram, hloop _ le_rfl]
  refine congrArg some (Prod.ext (List.map_congr_left fun i hi => ?_) rfl)
  rw [if_pos (List.mem_range.mp hi)]

/-- The loop over the histograms adds their counts. -/
theorem foldlM_addHistogram {histograms : List (List ℕ)}
    (h : ∀ histogram ∈ histograms, histogram.length = maxIndex.toNat + 1) (f : ℕ → ℕ)
    (inputSize : ℕ) :
    histograms.foldlM (addHistogram maxIndex)
      ((List.range (maxIndex.toNat + 1)).map fun i => f i % 2 ^ 64, inputSize % 2 ^ 64) =
      some ((List.range (maxIndex.toNat + 1)).map
          fun i => (f i + (histograms.map fun histogram => histogram.getD i 0).sum) % 2 ^ 64,
        (inputSize + (histograms.map (numCounted maxIndex)).sum) % 2 ^ 64) := by
  induction histograms generalizing f inputSize with
  | nil => rfl
  | cons histogram histograms ih =>
    obtain ⟨hlength, hrest⟩ := List.forall_mem_cons.mp h
    rw [List.foldlM_cons, addHistogram_eq hlength, Option.bind_eq_bind, Option.bind_some, ih hrest]
    simp only [List.map_cons, List.sum_cons, Nat.add_assoc]

/-- One of the counts of a histogram is at most their sum. -/
theorem getD_le_numCounted (histogram : List ℕ) {i : ℕ} (hi : i < maxIndex.toNat + 1) :
    histogram.getD i 0 ≤ numCounted maxIndex histogram :=
  List.single_le_sum (fun _ _ => Nat.zero_le _) _
    (List.mem_map.mpr ⟨i, List.mem_range.mpr hi, rfl⟩)

/-- The estimates from histograms, whose counts sum up to what a counter can count. -/
theorem getFrequenciesFromHistograms_eq (hmax : e.maxIndex ≠ -1) {histograms : List (List ℕ)}
    (h : ∀ histogram ∈ histograms, histogram.length = e.maxIndex.toNat + 1)
    (hsize : (histograms.map (numCounted e.maxIndex)).sum < 2 ^ 64) :
    e.getFrequenciesFromHistograms histograms =
      some ((List.range (e.maxIndex.toNat + 1)).map fun i =>
        (((histograms.map fun histogram => histogram.getD i 0).sum : ℕ) -
          ((histograms.map (numCounted e.maxIndex)).sum : ℕ) * e.p /
            (e.maxIndex.toNat + 1 : ℕ)) / (1 - e.p)) := by
  have hcount (i : ℕ) (hi : i ∈ List.range (e.maxIndex.toNat + 1)) :
      (0 + (histograms.map fun histogram => histogram.getD i 0).sum) % 2 ^ 64 =
        (histograms.map fun histogram => histogram.getD i 0).sum := by
    rw [Nat.zero_add]
    refine Nat.mod_eq_of_lt (lt_of_le_of_lt (List.sum_le_sum fun histogram _ => ?_) hsize)
    exact getD_le_numCounted histogram (List.mem_range.mp hi)
  have hloop := foldlM_addHistogram h (fun _ => 0) 0
  rw [Nat.zero_add, Nat.mod_eq_of_lt hsize, List.map_congr_left hcount] at hloop
  rw [getFrequenciesFromHistograms, replicate_zero_eq hmax]
  exact (congrArg (Option.bind · _) hloop).trans (getDebiasedFrequencies_eq hmax _ _)

end FrequencyEstimator

/-! ### The estimates are unbiased -/

/-- The law of what some clients return, each with draws of its own. -/
def responsesLaw (r : ResponseRandomizer) (indices : List UInt32) : FiniteLaw (List UInt32) :=
  .sequence (indices.map r.law)

/-- An entry of a vector of estimates, which is 0 where there is none. -/
def estimateOf (frequencies : Option (List ℚ)) (i : ℕ) : ℚ := (frequencies.getD []).getD i 0

theorem count_eq_sum (l : List UInt32) (a : UInt32) :
    (l.count a : ℚ) = (l.map fun b => if b = a then 1 else 0).sum := by
  induction l with
  | nil => rfl
  | cons b l ih =>
    rw [List.count_cons, List.map_cons, List.sum_cons, ← ih, beq_eq_decide]
    push_cast
    simp only [decide_eq_true_eq]
    ring

theorem sum_range_ite_eq {M : Type} [AddCommMonoid M] (w : ℕ → M) (m n : ℕ) :
    ((List.range n).map fun i => if i = m then w i else 0).sum = if m < n then w m else 0 := by
  induction n with
  | zero => rfl
  | succ n ih =>
    rw [List.sum_range_succ, ih]
    by_cases h : n = m
    · subst h
      simp
    · have hiff : m < n ↔ m < n + 1 := by omega
      rw [if_neg h, add_zero]
      simp only [hiff]

/-- The counts of some indices, weighted by their values, are the sum of the values. -/
theorem sum_count_mul (maxIndex : UInt32) (w : UInt32 → ℚ) (indices : List UInt32) :
    ((List.range (maxIndex.toNat + 1)).map fun i =>
      (indices.count (UInt32.ofNat i) : ℚ) * w (UInt32.ofNat i)).sum =
      (indices.map fun index => if index ≤ maxIndex then w index else 0).sum := by
  induction indices with
  | nil => simp
  | cons index indices ih =>
    have hfits := maxIndex.toNat_lt
    have hone : ((List.range (maxIndex.toNat + 1)).map fun i =>
        if i = index.toNat then w (UInt32.ofNat i) else 0).sum =
          if index ≤ maxIndex then w index else 0 := by
      rw [sum_range_ite_eq, UInt32.ofNat_toNat]
      simp only [UInt32.le_iff_toNat_le, Nat.lt_succ_iff]
    rw [List.map_cons, List.sum_cons, ← ih, ← hone, ← List.sum_map_add]
    refine congrArg List.sum (List.map_congr_left fun i hi => ?_)
    have hi := List.mem_range.mp hi
    have hkey : index = UInt32.ofNat i ↔ i = index.toNat := by
      rw [← UInt32.toNat_inj, UInt32.toNat_ofNat_of_lt' (by rw [UInt32.size]; omega), eq_comm]
    rw [List.count_cons, beq_eq_decide]
    simp only [decide_eq_true_eq, hkey]
    push_cast
    split_ifs <;> ring

/-- The frequency of a sum over independent responses. -/
theorem expect_count_responsesLaw (r : ResponseRandomizer) (indices : List UInt32) {i : ℕ}
    (hi : i ≤ r.maxIndex.toNat) :
    (responsesLaw r indices).expect (fun responses => (responses.count (UInt32.ofNat i) : ℚ)) =
      indices.length * r.p.value / (r.maxIndex.toNat + 1 : ℕ) +
        (1 - r.p.value) * (indices.map (min r.maxIndex)).count (UInt32.ofNat i) := by
  have hlt := r.maxIndex.toNat_lt
  have hle : UInt32.ofNat i ≤ r.maxIndex := by
    rw [UInt32.le_iff_toNat_le, UInt32.toNat_ofNat_of_lt' (by rw [UInt32.size]; omega)]
    exact hi
  simp only [count_eq_sum, responsesLaw, FiniteLaw.expect_sequence_sum, List.map_map]
  induction indices with
  | nil => simp
  | cons index indices ih =>
    have hone := r.prob_law_eq index hle
    rw [FiniteLaw.prob] at hone
    rw [List.map_cons, List.sum_cons, List.map_cons, List.sum_cons, ih, Function.comp_apply, hone,
      List.length_cons, Function.comp_apply]
    push_cast
    ring

/-- **The estimates are unbiased** in exact arithmetic: the expectation of the estimate for an index is
the number of clients that encode it, where an index that is too large counts as the largest one. -/
theorem expect_getFrequenciesFromIndices (r : ResponseRandomizer) (hp : r.p.value < 1)
    (hmax : r.maxIndex ≠ -1) {indices : List UInt32} (hsize : indices.length < 2 ^ 64) {i : ℕ}
    (hi : i ≤ r.maxIndex.toNat) :
    (responsesLaw r indices).expect (fun responses => estimateOf
      ((FrequencyEstimator.mk r.maxIndex r.p.value).getFrequenciesFromIndices responses) i) =
      (indices.map (min r.maxIndex)).count (UInt32.ofNat i) := by
  have hscale : 1 - r.p.value ≠ 0 := (sub_pos.mpr hp).ne'
  have hread (responses : List UInt32) (h : (responsesLaw r indices).Possible responses) :
      estimateOf ((FrequencyEstimator.mk r.maxIndex r.p.value).getFrequenciesFromIndices
        responses) i =
      1 / (1 - r.p.value) * ((responses.count (UInt32.ofNat i) : ℚ) -
        indices.length * r.p.value / (r.maxIndex.toNat + 1 : ℕ)) := by
    have hlength : responses.length = indices.length := by
      rw [← (FiniteLaw.possible_sequence.mp h).length_eq, List.length_map]
    rw [FrequencyEstimator.getFrequenciesFromIndices_eq hmax (hlength ▸ hsize), estimateOf,
      Option.getD_some, List.getD_eq_getElem?_getD, List.getElem?_map, List.getElem?_range (Nat.lt_succ_of_le hi),
      Option.map_some, Option.getD_some, hlength, one_div_mul_eq_div]
  rw [FiniteLaw.expect_congr _ hread, FiniteLaw.expect_mul_left, FiniteLaw.expect_sub,
    FiniteLaw.expect_const, expect_count_responsesLaw r indices hi]
  field_simp
  ring

/-- The indices 0, 5 and 1 with the indices from 0 to 2 and a fair coin. -/
theorem expect_getFrequenciesFromIndices_two :
    (responsesLaw ⟨2, 1 / 2, by norm_num, by norm_num⟩ [0, 5, 1]).expect (fun responses => estimateOf
      ((FrequencyEstimator.mk 2 (1 / 2)).getFrequenciesFromIndices responses) 2) = 1 := by
  have hcount : (([0, 5, 1] : List UInt32).map (min 2)).count (UInt32.ofNat 2) = 1 := by decide
  have h := expect_getFrequenciesFromIndices ⟨2, 1 / 2, by norm_num, by norm_num⟩ (by norm_num)
    (by decide) (by decide : ([0, 5, 1] : List UInt32).length < 2 ^ 64) (i := 2) (by decide)
  rw [hcount] at h
  exact_mod_cast h

end Cobalt.Algorithms
