import Mathlib.Algebra.BigOperators.Ring.Finset
import Mathlib.Algebra.Order.BigOperators.Group.List
import Mathlib.Algebra.Order.Field.Rat
import Mathlib.Data.List.Nodup
import Mathlib.Tactic.Linarith
import Cobalt.Lib.MachineInt

/-!
# Histogram encoders by two-dimensional RAPPOR

A histogram has a bit for each pair of a bucket and a count of it that is not zero. The bit of a
pair is set if the bucket has that count, clipped to a largest one. Both encoders flip the bits with
a probability `p` and return the pairs whose bits are set. `TwoDimRapporHistogramEncoder` does so
for a bit vector of each bucket, `SinglePassTwoDimRapporHistogramEncoder` for one bit vector. The
estimator of a sum of histograms counts the bits of each pair, removes the expected noise, and clips
the estimate to the number of bit vectors.

A count, a bucket index and a number of participants are natural numbers. The number of bit vectors
that `TwoDimRapporHistogramSumEstimator` computes is a product of type `uint64_t`, which wraps.
Values of type `double` are rational numbers. A result `none` stands for a loop that does not end.

## Main definitions

* `TwoDimRappor.encode`, `SinglePassTwoDimRappor.encode`: the encoders.
* `TwoDimRappor.computeSum`, `SinglePassTwoDimRappor.computeSum`: the estimators.
* `ExactWithoutNoise`: what they are to do for `p = 0`.

## Main results

* `encodeAll_of_noiseless`: without noise both encoders return the same pairs.
* `computeSum_bucket`: without noise an estimator sums the numbers of histograms with each count,
  clipped to the number of bit vectors.
* `exactWithoutNoise_iff`: for which histograms the sums are exact.
-/

namespace Cobalt.Algorithms

/-! ### The encoders -/

/-- The distributions that the encoders draw from, where `σ` is the state of a bit generator. -/
structure Sampler (σ : Type) where
  /-- `BinomialDistribution(gen, num_trials, p).Sample()`. -/
  binomial : ℕ → ℚ → σ → ℕ × σ
  /-- `BernoulliDistribution(gen, p).Sample()`. -/
  bernoulli : ℚ → σ → Bool × σ

/-- Samples of a certain event: one of probability 0 does not occur, and one of probability 1
occurs in every trial. -/
structure Sampler.Certain {σ : Type} (sampler : Sampler σ) : Prop where
  binomial_zero : ∀ n s, (sampler.binomial n 0 s).1 = 0
  binomial_one : ∀ n s, (sampler.binomial n 1 s).1 = n
  bernoulli_zero : ∀ s, (sampler.bernoulli 0 s).1 = false
  bernoulli_one : ∀ s, (sampler.bernoulli 1 s).1 = true

/-- The values of a loop variable of type `uint64_t` from `first` to `last` inclusive. The loop does
not end if every value of the type is at most `last`. -/
def countsTo (first last : ℕ) : Option (List ℕ) :=
  if last < 2 ^ 64 - 1 then some (List.range' first (last + 1 - first)) else none

/-- `clipped_histogram`, which is read for the buckets only. -/
def clipped {numBuckets : ℕ} (maxCount : ℕ) (histogram : Vector ℕ numBuckets) (bucketIndex : ℕ) :
    ℕ :=
  min (histogram[bucketIndex]?.getD 0) maxCount

/-- The pairs of a bucket and a count, in the order of the loops over both. -/
def bitIds (numBuckets : ℕ) (counts : List ℕ) : List (ℕ × ℕ) :=
  (List.range numBuckets).flatMap fun bucketIndex => counts.map fun count => (bucketIndex, count)

section Encode

variable {σ : Type} {numBuckets : ℕ}

/-- A loop over pairs that appends a number of copies of each. -/
def encodeBits (copies : ℕ × ℕ → σ → ℕ × σ) : List (ℕ × ℕ) → σ → List (ℕ × ℕ) × σ
  | [], s => ([], s)
  | bit :: bits, s =>
    let encodedCount := copies bit s
    let rest := encodeBits copies bits encodedCount.2
    (List.replicate encodedCount.1 bit ++ rest.1, rest.2)

/-- `TwoDimRapporHistogramEncoder::Encode`. -/
def TwoDimRappor.encode (sampler : Sampler σ) (maxCount : ℕ) (p : ℚ)
    (histogram : Vector ℕ numBuckets) (s : σ) : Option (List (ℕ × ℕ) × σ) :=
  (countsTo 1 maxCount).map fun counts =>
    encodeBits (fun bit s =>
      if bit.2 = clipped maxCount histogram bit.1 then
        let zeroToOne := sampler.binomial (U32.sub numBuckets 1) p s
        let oneToOne := sampler.bernoulli (1 - p) zeroToOne.2
        (zeroToOne.1 + oneToOne.1.toNat, oneToOne.2)
      else sampler.binomial numBuckets p s) (bitIds numBuckets counts) s

/-- `SinglePassTwoDimRapporHistogramEncoder::Encode`. -/
def SinglePassTwoDimRappor.encode (sampler : Sampler σ) (maxCount : ℕ) (p : ℚ)
    (histogram : Vector ℕ numBuckets) (s : σ) : Option (List (ℕ × ℕ) × σ) :=
  (countsTo 1 maxCount).map fun counts =>
    encodeBits (fun bit s =>
      let flip := sampler.bernoulli p s
      (if decide (bit.2 = clipped maxCount histogram bit.1) != flip.1 then 1 else 0, flip.2))
      (bitIds numBuckets counts) s

/-- The encodings of some histograms, one after the other. -/
def encodeAll (encode : Vector ℕ numBuckets → σ → Option (List (ℕ × ℕ) × σ)) :
    List (Vector ℕ numBuckets) → σ → Option (List (List (ℕ × ℕ)))
  | [], _ => some []
  | histogram :: histograms, s => do
    let encoded ← encode histogram s
    let rest ← encodeAll encode histograms encoded.2
    return encoded.1 :: rest

end Encode

/-! ### The estimators -/

/-- `raw_bit_counts`. -/
def rawBitCounts (encodedHistograms : List (List (ℕ × ℕ))) (bit : ℕ × ℕ) : ℕ :=
  encodedHistograms.flatten.count bit % 2 ^ 64

/-- `estimated_bit_count`, for a number of bit vectors. -/
def estimatedBitCount (p numBitvectors : ℚ) (rawCount : ℕ) : ℚ :=
  let estimate := (rawCount - p * numBitvectors) / (1 - 2 * p)
  let estimate := if estimate < 0 then 0 else estimate
  if numBitvectors < estimate then numBitvectors else estimate

/-- The loops of both estimators, for a number of bit vectors. -/
def computeSum (numBuckets maxCount : ℕ) (p numBitvectors : ℚ)
    (encodedHistograms : List (List (ℕ × ℕ))) : Option (List ℚ) :=
  (countsTo 0 maxCount).map fun counts =>
    (List.range numBuckets).map fun bucketIndex =>
      (counts.map fun (count : ℕ) => count *
        estimatedBitCount p numBitvectors (rawBitCounts encodedHistograms (bucketIndex, count))).sum

/-- `num_bitvectors`, a product of type `uint64_t`. -/
def numBitvectors (numBuckets numParticipants : ℕ) : ℕ := numParticipants * numBuckets % 2 ^ 64

/-- `TwoDimRapporHistogramSumEstimator::ComputeSum`. -/
def TwoDimRappor.computeSum (numBuckets maxCount : ℕ) (p : ℚ)
    (encodedHistograms : List (List (ℕ × ℕ))) (numParticipants : ℕ) : Option (List ℚ) :=
  Algorithms.computeSum numBuckets maxCount p (numBitvectors numBuckets numParticipants)
    encodedHistograms

/-- `SinglePassTwoDimRapporHistogramSumEstimator::ComputeSum`. -/
def SinglePassTwoDimRappor.computeSum (numBuckets maxCount : ℕ) (p : ℚ)
    (encodedHistograms : List (List (ℕ × ℕ))) (numParticipants : ℕ) : Option (List ℚ) :=
  Algorithms.computeSum numBuckets maxCount p numParticipants encodedHistograms

/-! ### What the encoders and the estimators are to do -/

/-- The sum of the clipped counts of a bucket. -/
def trueSum {numBuckets : ℕ} (maxCount : ℕ) (histograms : List (Vector ℕ numBuckets))
    (bucketIndex : ℕ) : ℕ :=
  (histograms.map fun histogram => clipped maxCount histogram bucketIndex).sum

/-- Without noise the sums are exact: both encoders return the same pairs, from any states of
their generators, and both estimators return the sums of the clipped counts. -/
def ExactWithoutNoise {σ : Type} {numBuckets : ℕ} (sampler : Sampler σ) (maxCount : ℕ)
    (histograms : List (Vector ℕ numBuckets)) (gen gen' : σ) : Prop :=
  ∃ encoded,
    encodeAll (TwoDimRappor.encode sampler maxCount 0) histograms gen = some encoded ∧
    encodeAll (SinglePassTwoDimRappor.encode sampler maxCount 0) histograms gen' =
      some encoded ∧
    TwoDimRappor.computeSum numBuckets maxCount 0 encoded histograms.length =
      some ((List.range numBuckets).map fun b => (trueSum maxCount histograms b : ℚ)) ∧
    SinglePassTwoDimRappor.computeSum numBuckets maxCount 0 encoded histograms.length =
      some ((List.range numBuckets).map fun b => (trueSum maxCount histograms b : ℚ))

/-! ### Encodings without noise -/

variable {σ : Type} {sampler : Sampler σ} {numBuckets maxCount : ℕ} 
  {histograms : List (Vector ℕ numBuckets)}

/-- The pairs of a histogram. -/
def pairsOf (maxCount : ℕ) (histogram : Vector ℕ numBuckets) : List (ℕ × ℕ) :=
  (bitIds numBuckets (List.range' 1 maxCount)).filter fun bit =>
    bit.2 = clipped maxCount histogram bit.1

/-- A loop that appends one copy of the pairs that satisfy a predicate. -/
theorem encodeBits_fst_of_forall {copies : ℕ × ℕ → σ → ℕ × σ} {pred : ℕ × ℕ → Prop}
    [DecidablePred pred] (hcopies : ∀ bit s, (copies bit s).1 = if pred bit then 1 else 0)
    (bits : List (ℕ × ℕ)) (s : σ) :
    (encodeBits copies bits s).1 = bits.filter fun bit => pred bit := by
  induction bits generalizing s with
  | nil => rfl
  | cons bit bits ih =>
    simp only [encodeBits, ih, hcopies]
    rw [List.filter_cons]
    by_cases h : pred bit
    · rw [if_pos h, if_pos (decide_eq_true h), List.replicate_one, List.singleton_append]
    · rw [if_neg h, if_neg (by simpa using h), List.replicate_zero, List.nil_append]

theorem countsTo_of_lt {first last : ℕ} (h : last < 2 ^ 64 - 1) :
    countsTo first last = some (List.range' first (last + 1 - first)) :=
  if_pos h

theorem TwoDimRappor.encode_of_certain (h : sampler.Certain) (hmax : maxCount < 2 ^ 64 - 1)
    (histogram : Vector ℕ numBuckets) (s : σ) :
    ∃ s', TwoDimRappor.encode sampler maxCount 0 histogram s =
      some (pairsOf maxCount histogram, s') := by
  rw [TwoDimRappor.encode, countsTo_of_lt hmax, Option.map_some, Nat.add_sub_cancel]
  refine ⟨_, congrArg some (Prod.ext ?_ rfl)⟩
  refine encodeBits_fst_of_forall (fun bit s => ?_) _ s
  split_ifs
  · simp only [h.binomial_zero, sub_zero, h.bernoulli_one, Bool.toNat_true]
  · exact h.binomial_zero _ _

theorem SinglePassTwoDimRappor.encode_of_certain (h : sampler.Certain)
    (hmax : maxCount < 2 ^ 64 - 1) (histogram : Vector ℕ numBuckets) (s : σ) :
    ∃ s', SinglePassTwoDimRappor.encode sampler maxCount 0 histogram s =
      some (pairsOf maxCount histogram, s') := by
  rw [SinglePassTwoDimRappor.encode, countsTo_of_lt hmax, Option.map_some, Nat.add_sub_cancel]
  refine ⟨_, congrArg some (Prod.ext ?_ rfl)⟩
  refine encodeBits_fst_of_forall (fun bit s => ?_) _ s
  simp [h.bernoulli_zero]

/-- The encodings of some histograms, if an encoding does not depend on the generator. -/
theorem encodeAll_of_forall {encode : Vector ℕ numBuckets → σ → Option (List (ℕ × ℕ) × σ)}
    {pairs : Vector ℕ numBuckets → List (ℕ × ℕ)}
    (hencode : ∀ histogram s, ∃ s', encode histogram s = some (pairs histogram, s'))
    (histograms : List (Vector ℕ numBuckets)) (s : σ) :
    encodeAll encode histograms s = some (histograms.map pairs) := by
  induction histograms generalizing s with
  | nil => rfl
  | cons histogram histograms ih =>
    obtain ⟨s', hs'⟩ := hencode histogram s
    rw [encodeAll, hs', Option.bind_eq_bind, Option.bind_some, ih s']
    rfl

/-! ### The numbers of the pairs -/

theorem mem_bitIds {counts : List ℕ} {b c : ℕ} :
    (b, c) ∈ bitIds numBuckets counts ↔ b < numBuckets ∧ c ∈ counts := by
  simp [bitIds]

theorem nodup_bitIds {counts : List ℕ} (h : counts.Nodup) : (bitIds numBuckets counts).Nodup :=
  List.nodup_range.product h

/-- A pair is in the encoding of a histogram once if the bucket has the count. -/
theorem count_pairsOf {b c : ℕ} (hb : b < numBuckets) (hc : 0 < c) (histogram : Vector ℕ numBuckets) :
    (pairsOf maxCount histogram).count (b, c) =
      if clipped maxCount histogram b = c then 1 else 0 := by
  rw [pairsOf]
  split_ifs with h
  · have hset : decide ((b, c).2 = clipped maxCount histogram (b, c).1) = true :=
      decide_eq_true h.symm
    rw [List.count_filter (l := bitIds numBuckets (List.range' 1 maxCount)) hset]
    refine List.count_eq_one_of_mem (nodup_bitIds List.nodup_range') ?_
    have hle : c ≤ maxCount := h ▸ Nat.min_le_right _ _
    exact mem_bitIds.mpr ⟨hb, List.mem_range'_1.mpr ⟨hc, by omega⟩⟩
  · refine List.count_eq_zero.mpr fun hmem => h ?_
    exact (of_decide_eq_true (List.mem_filter.mp hmem).2).symm

/-- The number of histograms whose bucket has a count. -/
def numWithCount (maxCount : ℕ) (histograms : List (Vector ℕ numBuckets)) (b c : ℕ) : ℕ :=
  histograms.countP fun histogram => clipped maxCount histogram b = c

theorem numWithCount_cons (histogram : Vector ℕ numBuckets) (histograms : List (Vector ℕ numBuckets)) (b c : ℕ) :
    numWithCount maxCount (histogram :: histograms) b c =
      numWithCount maxCount histograms b c + if clipped maxCount histogram b = c then 1 else 0 := by
  rw [numWithCount, List.countP_cons, numWithCount]
  simp only [decide_eq_true_eq]

/-- The bits of a pair are counted once for each histogram whose bucket has the count. -/
theorem rawBitCounts_pairsOf {b c : ℕ} (hb : b < numBuckets) (hc : 0 < c)
    (hlength : histograms.length < 2 ^ 64) :
    rawBitCounts (histograms.map (pairsOf maxCount)) (b, c) =
      numWithCount maxCount histograms b c := by
  have hcount : (histograms.map (pairsOf maxCount)).flatten.count (b, c) =
      numWithCount maxCount histograms b c := by
    clear hlength
    induction histograms with
    | nil => rfl
    | cons histogram histograms ih =>
      rw [List.map_cons, List.flatten_cons, List.count_append, ih, count_pairsOf hb hc,
        numWithCount_cons, Nat.add_comm]
  have hle : numWithCount maxCount histograms b c ≤ histograms.length := List.countP_le_length
  rw [rawBitCounts, hcount, Nat.mod_eq_of_lt (hle.trans_lt hlength)]

/-- Without noise an estimate is the number of bits, clipped to the number of bit vectors. -/
theorem estimatedBitCount_zero (numBitvectors rawCount : ℕ) :
    estimatedBitCount 0 numBitvectors rawCount = (min rawCount numBitvectors : ℕ) := by
  have hnonneg : ¬ (rawCount : ℚ) < 0 := not_lt.mpr (Nat.cast_nonneg _)
  simp only [estimatedBitCount, zero_mul, mul_zero, sub_zero, div_one, if_neg hnonneg,
    Nat.cast_lt]
  split_ifs with h
  · rw [Nat.min_eq_right h.le]
  · rw [Nat.min_eq_left (Nat.le_of_not_lt h)]

/-- The estimate of a bucket sums the numbers of histograms with each count, clipped to the
number of bit vectors. -/
theorem computeSum_pairsOf (hmax : maxCount < 2 ^ 64 - 1) (hlength : histograms.length < 2 ^ 64)
    (numBitvectors : ℕ) :
    computeSum numBuckets maxCount 0 numBitvectors
        (histograms.map (pairsOf maxCount)) =
      some ((List.range numBuckets).map fun b => ((((List.range (maxCount + 1)).map fun c =>
        c * min (numWithCount maxCount histograms b c) numBitvectors).sum : ℕ) : ℚ)) := by
  rw [computeSum, countsTo_of_lt hmax, Option.map_some, Nat.sub_zero, ← List.range_eq_range']
  refine congrArg some (List.map_congr_left fun b hb => ?_)
  rw [Nat.cast_list_sum, List.map_map]
  refine congrArg List.sum (List.map_congr_left fun c _ => ?_)
  rw [estimatedBitCount_zero, ← Nat.cast_mul]
  obtain rfl | hc := Nat.eq_zero_or_pos c
  · rw [Nat.zero_mul, Function.comp_apply, Nat.zero_mul]
  · rw [rawBitCounts_pairsOf (List.mem_range.mp hb) hc hlength]
    rfl

/-- Among the numbers below a bound, one is equal to a given number. -/
theorem sum_range_mul_ite_eq (x n : ℕ) :
    ((List.range n).map fun c => c * if x = c then 1 else 0).sum = if x < n then x else 0 := by
  induction n with
  | zero => rfl
  | succ n ih =>
    rw [List.range_succ, List.map_append, List.sum_append, ih, List.map_singleton,
      List.sum_singleton]
    split_ifs <;> omega

/-- The sum of the clipped counts is the sum over the counts, of the numbers of histograms. -/
theorem sum_numWithCount (histograms : List (Vector ℕ numBuckets)) (b : ℕ) :
    ((List.range (maxCount + 1)).map fun c => c * numWithCount maxCount histograms b c).sum =
      trueSum maxCount histograms b := by
  induction histograms with
  | nil => simp [numWithCount, trueSum]
  | cons histogram histograms ih =>
    have hlt : clipped maxCount histogram b < maxCount + 1 :=
      Nat.lt_succ_of_le (Nat.min_le_right _ _)
    simp only [numWithCount_cons, Nat.mul_add]
    rw [List.sum_map_add, ih, sum_range_mul_ite_eq, if_pos hlt, trueSum, trueSum, List.map_cons, List.sum_cons,
      Nat.add_comm]

/-! ### For which histograms the sums are exact -/

/-- A clipped sum of multiples is the sum if no number that counts is clipped. -/
theorem sum_mul_min_eq_iff (k : ℕ → ℕ) (bound n : ℕ) :
    ((List.range n).map fun c => c * min (k c) bound).sum =
        ((List.range n).map fun c => c * k c).sum ↔
      ∀ c < n, 0 < c → k c ≤ bound := by
  have hle (n : ℕ) : ((List.range n).map fun c => c * min (k c) bound).sum ≤
      ((List.range n).map fun c => c * k c).sum :=
    List.sum_le_sum fun c _ => Nat.mul_le_mul_left c (Nat.min_le_left _ _)
  induction n with
  | zero => simp
  | succ n ih =>
    have hlast : n * min (k n) bound ≤ n * k n := Nat.mul_le_mul_left n (Nat.min_le_left _ _)
    have hlast_iff : n * min (k n) bound = n * k n ↔ (0 < n → k n ≤ bound) := by
      rw [mul_eq_mul_left_iff, min_eq_left_iff]
      omega
    simp only [List.range_succ, List.map_append, List.sum_append, List.map_singleton,
      List.sum_singleton]
    have hrest := hle n
    constructor
    · intro hsum c hc
      obtain hc | rfl := Nat.lt_succ_iff_lt_or_eq.mp hc
      · exact ih.mp (by omega) c hc
      · exact hlast_iff.mp (by omega)
    · intro hfits
      rw [ih.mpr fun c hc => hfits c (hc.trans (Nat.lt_succ_self n)),
        hlast_iff.mpr (hfits n (Nat.lt_succ_self n))]

/-- No count is that of a bucket in more histograms than there are. -/
theorem numWithCount_le (b c : ℕ) : numWithCount maxCount histograms b c ≤ histograms.length :=
  List.countP_le_length

/-- No bucket has a count above the largest one. -/
theorem numWithCount_eq_zero {b c : ℕ} (hc : maxCount < c) :
    numWithCount maxCount histograms b c = 0 := by
  refine List.countP_eq_zero.mpr fun histogram _ hcount => ?_
  have hle : clipped maxCount histogram b ≤ maxCount := Nat.min_le_right _ _
  exact absurd (of_decide_eq_true hcount ▸ hle) (Nat.not_le.mpr hc)

/-- The encodings without noise are the pairs of the histograms. -/
theorem exactWithoutNoise_iff_computeSum (h : sampler.Certain) (hmax : maxCount < 2 ^ 64 - 1)
    (hlength : histograms.length < 2 ^ 64) (gen gen' : σ) :
    ExactWithoutNoise sampler maxCount histograms gen gen' ↔
      TwoDimRappor.computeSum numBuckets maxCount 0 (histograms.map (pairsOf maxCount))
        histograms.length =
      some ((List.range numBuckets).map fun b => (trueSum maxCount histograms b : ℚ)) := by
  have hencode := encodeAll_of_forall (TwoDimRappor.encode_of_certain h hmax) histograms gen
  have hencode' := encodeAll_of_forall (SinglePassTwoDimRappor.encode_of_certain h hmax)
    histograms gen'
  constructor
  · rintro ⟨encoded, hencoded, -, hsum, -⟩
    rw [hencode] at hencoded
    rwa [Option.some.inj hencoded]
  · intro hsum
    refine ⟨_, hencode, hencode', hsum, ?_⟩
    rw [SinglePassTwoDimRappor.computeSum, computeSum_pairsOf hmax hlength]
    refine congrArg some (List.map_congr_left fun b _ => congrArg Nat.cast ?_)
    rw [← sum_numWithCount]
    exact (sum_mul_min_eq_iff _ _ _).mpr fun c _ _ => numWithCount_le b c

/-- The sums of the estimator with the number of bit vectors are exact if that number is at
least the number of histograms with each count. -/
theorem TwoDimRappor.computeSum_eq_iff (hmax : maxCount < 2 ^ 64 - 1)
    (hlength : histograms.length < 2 ^ 64) :
    TwoDimRappor.computeSum numBuckets maxCount 0 (histograms.map (pairsOf maxCount))
        histograms.length =
      some ((List.range numBuckets).map fun b => (trueSum maxCount histograms b : ℚ)) ↔
      ∀ b < numBuckets, ∀ c, 0 < c →
        numWithCount maxCount histograms b c ≤ numBitvectors numBuckets histograms.length := by
  rw [TwoDimRappor.computeSum, computeSum_pairsOf hmax hlength, Option.some_inj, List.map_inj_left]
  refine forall_congr' fun b => ?_
  rw [List.mem_range, Nat.cast_inj, ← sum_numWithCount, sum_mul_min_eq_iff]
  refine imp_congr_right fun _ => ⟨fun hfits c hc => ?_, fun hfits c _ => hfits c⟩
  by_cases hlt : c < maxCount + 1
  · exact hfits c hlt hc
  · rw [numWithCount_eq_zero (Nat.lt_of_succ_le (Nat.le_of_not_lt hlt))]
    exact Nat.zero_le _

/-- **For which histograms the sums are exact**: those in which no bucket has the same count more
often than the number of bit vectors, as it is computed in 64 bits. This is so whenever the number
of bit vectors fits. -/
theorem exactWithoutNoise_iff (h : sampler.Certain) (hmax : maxCount < 2 ^ 64 - 1)
    (hlength : histograms.length < 2 ^ 64) (gen gen' : σ) :
    (ExactWithoutNoise sampler maxCount histograms gen gen' ↔
      ∀ b < numBuckets, ∀ c, 0 < c →
        numWithCount maxCount histograms b c ≤ numBitvectors numBuckets histograms.length) ∧
    (histograms.length * numBuckets < 2 ^ 64 →
      ExactWithoutNoise sampler maxCount histograms gen gen') := by
  have hiff := (exactWithoutNoise_iff_computeSum h hmax hlength gen gen').trans
    (TwoDimRappor.computeSum_eq_iff hmax hlength)
  refine ⟨hiff, fun hfits => hiff.mpr fun b hb c _ => (numWithCount_le b c).trans ?_⟩
  rw [numBitvectors, Nat.mod_eq_of_lt hfits]
  exact Nat.le_mul_of_pos_right _ (Nat.zero_lt_of_lt hb)

/-- A sampler for events that are certain or impossible. -/
def certainSampler : Sampler Unit where
  binomial numTrials p s := (if p = 1 then numTrials else 0, s)
  bernoulli p s := (p = 1, s)

theorem certain_certainSampler : certainSampler.Certain where
  binomial_zero := by simp [certainSampler]
  binomial_one := by simp [certainSampler]
  bernoulli_zero := by simp [certainSampler]
  bernoulli_one := by simp [certainSampler]

/-- Three histograms of two buckets, with counts that are zero, clipped or of a single bucket. -/
theorem exactWithoutNoise_iff_three :
    certainSampler.Certain ∧
      ExactWithoutNoise certainSampler 3 [#v[1, 5], #v[1, 0], #v[0, 0]] () () := by
  refine ⟨certain_certainSampler, ?_⟩
  exact (exactWithoutNoise_iff certain_certainSampler (by decide) (by decide) () ()).2 (by decide)

/-- With `2 ^ 31` buckets and `2 ^ 33` histograms the number of bit vectors is computed as 0. -/
theorem not_exactWithoutNoise_of_wrap :
    ¬ ExactWithoutNoise certainSampler 1
      (Vector.replicate (2 ^ 31) 1 :: List.replicate (2 ^ 33 - 1) (Vector.replicate (2 ^ 31) 0))
      () () := by
  have hlength : (Vector.replicate (2 ^ 31) 1 ::
      List.replicate (2 ^ 33 - 1) (Vector.replicate (2 ^ 31) 0)).length = 2 ^ 33 := by
    rw [List.length_cons, List.length_replicate, Nat.sub_add_cancel (by decide)]
  have hlt : 2 ^ 33 < 2 ^ 64 := by decide
  rw [exactWithoutNoise_iff_computeSum certain_certainSampler (by decide) (hlength.trans_lt hlt),
    TwoDimRappor.computeSum_eq_iff (by decide) (hlength.trans_lt hlt)]
  intro hfits
  have hone := hfits 0 (by decide) 1 Nat.one_pos
  have hclipped : clipped 1 (Vector.replicate (2 ^ 31) 1) 0 = 1 := by
    rw [clipped, Vector.getElem?_replicate, if_pos (by decide)]
    rfl
  have hzero : numBitvectors (2 ^ 31) (2 ^ 33) = 0 := by decide
  rw [numWithCount_cons, if_pos hclipped, hlength, hzero] at hone
  omega

end Cobalt.Algorithms
