import Cobalt.Algorithms.IntegerSum
import Mathlib.Algebra.BigOperators.Ring.Finset
import Mathlib.Algebra.Order.BigOperators.GroupWithZero.List
import Mathlib.Data.Vector.Basic

/-!
# Sums of encoded histograms

A histogram has a count for each of some buckets. A `BucketWiseHistogramEncoder` encodes the count of
each bucket as an integer, and an `OccurrenceWiseHistogramEncoder` encodes the bucket of each counted
occurrence by randomized response and returns the histogram of the results. An estimator for each of
them estimates the sum of the histograms of some clients.

The counts of an encoded histogram wrap, as numbers of type `uint64_t`, and the estimates are
computed in rational numbers, without the rounding of `double`. A result `none` stands for an access
outside of a vector and for undefined behavior.

## Main definitions

* `BucketWiseHistogramEncoder.law`, `OccurrenceWiseHistogramEncoder.law`: the laws of the encoders.
* `BucketWiseHistogramSumEstimator.computeSum`, `OccurrenceWiseHistogramSumEstimator.computeSum`: the
  estimators.

## Main results

* `within_bucketWise_law_iff`: how much an encoded histogram tells about the histogram.
* `expect_bucketWise_computeSum`, `expect_occurrenceWise_computeSum`: the sums are unbiased in exact
  arithmetic.
-/

namespace Cobalt.Algorithms

/-! ### The bucket-wise encoder -/

/-- The law of `BucketWiseHistogramEncoder::Encode`. -/
def BucketWiseHistogramEncoder.law (e : IntegerEncoder) (r : ResponseRandomizer) {numBuckets : ℕ}
    (histogram : Vector Int64 numBuckets) : FiniteLaw (Option (List UInt32)) :=
  (FiniteLaw.sequence (histogram.toList.map (e.law r))).map fun encoded => encoded.mapM id

/-- `BucketWiseHistogramSumEstimator::ComputeSum`. -/
def BucketWiseHistogramSumEstimator.computeSum (numBuckets : ℕ) (e : IntegerSumEstimator)
    (encodedHistograms : List (List UInt32)) : Option (List ℚ) :=
  (List.range numBuckets).mapM fun index => do
    let encodedCounts ← encodedHistograms.mapM fun encoded => encoded[index]?
    e.computeSum encodedCounts

variable {minInt maxInt : Int64} {partitions : UInt32} {r : ResponseRandomizer} {numBuckets : ℕ}

/-- The counts of a histogram are not below the range of the encoder. -/
def CountsFrom (minInt : Int64) (histogram : Vector Int64 numBuckets) : Prop :=
  ∀ count ∈ histogram.toList, minInt ≤ count

/-- All buckets with one count. -/
theorem countsFrom_replicate {count : Int64} (h : minInt ≤ count) :
    CountsFrom minInt (Vector.replicate numBuckets count) := by
  intro count' hmem
  rw [Vector.toList_replicate] at hmem
  rwa [List.eq_of_mem_replicate hmem]

/-- The encodings of a histogram in which all buckets are encoded as the index 0. -/
def allZero (encoded : Option (List UInt32)) : ℚ :=
  (encoded.map fun indices => (indices.map fun index => if index = 0 then 1 else 0).prod).getD 0

theorem allZero_nonneg (encoded : Option (List UInt32)) : 0 ≤ allZero encoded := by
  cases encoded with
  | none => exact le_rfl
  | some indices =>
    refine List.prod_nonneg fun x hx => ?_
    obtain ⟨index, -, rfl⟩ := List.mem_map.mp hx
    split_ifs <;> norm_num

/-- The probability that all buckets are encoded as the index 0, if all have one count. -/
theorem expect_allZero_replicate (h : DividesEvenly minInt maxInt partitions)
    (hne : partitions ≠ -1) {count : Int64} (hcount : minInt ≤ count) {index : UInt32}
    (hlaw : ∀ f : Option UInt32 → ℚ, ((encoderOf minInt maxInt partitions).law r count).expect f =
      (r.law index).expect fun response => f (some response)) :
    (BucketWiseHistogramEncoder.law (encoderOf minInt maxInt partitions) r
      (Vector.replicate numBuckets count)).expect allZero =
        (r.law index).prob (· = 0) ^ numBuckets := by
  have hvals : ∀ val ∈ List.replicate numBuckets count, minInt ≤ val := by
    intro val hval
    rwa [List.eq_of_mem_replicate hval]
  have hread (encoded : List (Option UInt32))
      (hpossible : (FiniteLaw.sequence ((List.replicate numBuckets count).map
        ((encoderOf minInt maxInt partitions).law r))).Possible encoded) :
      allZero (encoded.mapM id) =
        (encoded.map fun response => if response = some 0 then 1 else 0).prod := by
    have hsome := h.isSome_of_possible_sequence hne hvals hpossible
    rw [mapM_id_eq_some 0 hsome, allZero, Option.map_some, Option.getD_some, List.map_map]
    refine congrArg List.prod (List.map_congr_left fun response hmem => ?_)
    obtain ⟨index, rfl⟩ := Option.isSome_iff_exists.mp (hsome response hmem)
    simp
  rw [BucketWiseHistogramEncoder.law, Vector.toList_replicate, FiniteLaw.expect_map,
    FiniteLaw.expect_congr _ hread, FiniteLaw.expect_sequence_prod, List.map_replicate,
    List.map_replicate, List.prod_replicate, hlaw, FiniteLaw.prob]
  simp only [Option.some.injEq]

/-- **How much an encoded histogram tells about the histogram.** The laws of the encodings of two
histograms are within the power of the privacy factor of each other, and within no smaller one. -/
theorem within_bucketWise_law_iff (h : DividesEvenly minInt maxInt partitions)
    (hne : partitions ≠ -1) (hr : r.maxIndex = partitions) (hp : 0 < r.p.value) {c : ℚ} :
    (∀ histogram histogram' : Vector Int64 numBuckets, CountsFrom minInt histogram →
      CountsFrom minInt histogram' →
        FiniteLaw.Within c
          (BucketWiseHistogramEncoder.law (encoderOf minInt maxInt partitions) r histogram)
          (BucketWiseHistogramEncoder.law (encoderOf minInt maxInt partitions) r histogram')) ↔
      (1 + (1 - r.p.value) * (partitions.toNat + 1 : ℕ) / r.p.value) ^ numBuckets ≤ c := by
  have hfactor : r.privacyFactor =
      1 + (1 - r.p.value) * (partitions.toNat + 1 : ℕ) / r.p.value := by
    rw [ResponseRandomizer.privacyFactor, hr]
  have hnonneg : 0 ≤ r.privacyFactor := by
    have hp' := sub_nonneg.mpr r.p.le_one
    rw [ResponseRandomizer.privacyFactor]
    positivity
  rw [← hfactor]
  constructor
  · intro hwithin
    have hmax : minInt ≤ maxInt := Int64.le_iff_toInt_le.mpr h.lt.le
    have hlast : partitions ≤ r.maxIndex := hr ▸ UInt32.le_refl _
    have hpartitions : partitions ≠ 0 := by
      rintro rfl
      exact absurd h.pos (by decide)
    -- The histograms whose buckets are all at one end of the range reach the factor.
    have hends := hwithin (Vector.replicate numBuckets minInt) (Vector.replicate numBuckets maxInt)
      (countsFrom_replicate (Int64.le_refl _)) (countsFrom_replicate hmax) allZero allZero_nonneg
    rw [expect_allZero_replicate h hne (Int64.le_refl _) (h.expect_law_minInt hne),
      expect_allZero_replicate h hne hmax (h.expect_law_maxInt hne),
      r.prob_law_zero_eq hp hpartitions hlast, mul_pow] at hends
    exact le_of_mul_le_mul_right hends (pow_pos (r.prob_law_zero_pos partitions hp) _)
  · intro hc histogram histogram' hcounts hcounts'
    have hlaws : List.Forall₂ (FiniteLaw.Within r.privacyFactor)
        (histogram.toList.map ((encoderOf minInt maxInt partitions).law r))
        (histogram'.toList.map ((encoderOf minInt maxInt partitions).law r)) := by
      refine List.forall₂_iff_get.mpr ⟨by simp, fun i hi hi' => ?_⟩
      rw [List.get_eq_getElem, List.get_eq_getElem, List.getElem_map, List.getElem_map]
      exact h.within_law hne hp le_rfl (hcounts _ (List.getElem_mem _))
        (hcounts' _ (List.getElem_mem _))
    have hsequence := FiniteLaw.Within.sequence hnonneg hlaws
    rw [List.length_map, Vector.length_toList] at hsequence
    exact (hsequence.mono hc).map fun encoded => encoded.mapM id

/-- Two buckets with counts from 0 to 10, the boundaries 0, 5 and 10, and a fair coin. -/
theorem within_bucketWise_law_iff_ten :
    FiniteLaw.Within 16
      (BucketWiseHistogramEncoder.law (encoderOf 0 10 2) ⟨2, 1 / 2, by norm_num, by norm_num⟩ #v[7, 0])
      (BucketWiseHistogramEncoder.law (encoderOf 0 10 2) ⟨2, 1 / 2, by norm_num, by norm_num⟩
        #v[3, 10]) := by
  have h : DividesEvenly 0 10 2 := ⟨by decide, by decide, by decide, by decide⟩
  have hcounts (count count' : Int64) (hcount : 0 ≤ count) (hcount' : 0 ≤ count') :
      CountsFrom 0 #v[count, count'] :=
    List.forall_mem_cons.mpr ⟨hcount, List.forall_mem_singleton.mpr hcount'⟩
  refine (within_bucketWise_law_iff h (by decide) rfl (by norm_num)).mpr ?_ _ _
    (hcounts 7 0 (by decide) (by decide)) (hcounts 3 10 (by decide) (by decide))
  have htwo : (2 : UInt32).toNat = 2 := rfl
  rw [htwo]
  norm_num

/-- What the clients encode for one bucket. -/
def bucketOf (index : ℕ) (encoded : Option (List UInt32)) : Option UInt32 :=
  encoded.bind fun indices => indices[index]?

/-- The encoding of one bucket has the law of an encoded integer. -/
theorem sameExpectations_bucketOf (h : DividesEvenly minInt maxInt partitions)
    (hne : partitions ≠ -1) {histogram : Vector Int64 numBuckets}
    (hcounts : CountsFrom minInt histogram) {index : ℕ} (hindex : index < numBuckets) :
    FiniteLaw.SameExpectations
      ((BucketWiseHistogramEncoder.law (encoderOf minInt maxInt partitions) r histogram).map
        (bucketOf index))
      ((encoderOf minInt maxInt partitions).law r histogram[index]) := by
  intro f
  have hlength : index < (histogram.toList.map ((encoderOf minInt maxInt partitions).law
      r)).length := by
    rwa [List.length_map, Vector.length_toList]
  have hread (encoded : List (Option UInt32))
      (hpossible : (FiniteLaw.sequence (histogram.toList.map
        ((encoderOf minInt maxInt partitions).law r))).Possible encoded) :
      f (bucketOf index (encoded.mapM id)) = f (encoded.getD index none) := by
    have hsome := h.isSome_of_possible_sequence hne hcounts hpossible
    have hlt : index < encoded.length := (FiniteLaw.possible_sequence.mp hpossible).length_eq ▸ hlength
    obtain ⟨count, hcount⟩ := Option.isSome_iff_exists.mp (hsome _ (List.getElem_mem hlt))
    rw [mapM_id_eq_some 0 hsome, bucketOf, Option.bind_some, List.getElem?_map,
      List.getElem?_eq_getElem hlt, List.getD_eq_getElem _ _ hlt, hcount, Option.map_some,
      Option.getD_some]
  rw [BucketWiseHistogramEncoder.law, FiniteLaw.expect_map, FiniteLaw.expect_map,
    FiniteLaw.expect_congr _ hread, FiniteLaw.expect_sequence_getD hlength, List.getElem_map,
    Vector.getElem_toList]

/-- The clients return a list of indices, one for each bucket. -/
theorem exists_indices_of_possible (h : DividesEvenly minInt maxInt partitions)
    (hne : partitions ≠ -1) {histogram : Vector Int64 numBuckets}
    (hcounts : CountsFrom minInt histogram) {encoded : Option (List UInt32)}
    (hpossible : (BucketWiseHistogramEncoder.law (encoderOf minInt maxInt partitions) r
      histogram).Possible encoded) : ∃ indices, encoded = some indices ∧ indices.length = numBuckets := by
  obtain ⟨responses, hresponses, rfl⟩ := (FiniteLaw.possible_map _).mp hpossible
  refine ⟨_, mapM_id_eq_some 0 (h.isSome_of_possible_sequence hne hcounts hresponses), ?_⟩
  rw [List.length_map, ← (FiniteLaw.possible_sequence.mp hresponses).length_eq, List.length_map,
    Vector.length_toList]

/-- The sum for a bucket is estimated from the encodings of that bucket. -/
theorem estimateOf_bucketWise_computeSum (h : DividesEvenly minInt maxInt partitions)
    (hne : partitions ≠ -1) (hr : r.maxIndex = partitions) (boundarySum : Int64)
    {encoded : List (Option (List UInt32))}
    (hencoded : ∀ o ∈ encoded, ∃ indices, o = some indices ∧ indices.length = numBuckets)
    (hsize : encoded.length < 2 ^ 64) {index : ℕ} (hindex : index < numBuckets) :
    estimateOf ((encoded.mapM id).bind (BucketWiseHistogramSumEstimator.computeSum numBuckets
      (estimatorOf minInt maxInt partitions boundarySum r.p.value))) index =
        estimatedSum (estimatorOf minInt maxInt partitions boundarySum r.p.value)
          (encoded.map (bucketOf index)) := by
  have hsome : ∀ o ∈ encoded, o.isSome := by
    intro o ho
    obtain ⟨indices, rfl, -⟩ := hencoded o ho
    rfl
  have hcolumn (i : ℕ) (hi : i < numBuckets) :
      ((encoded.map fun o => o.getD []).mapM fun indices => indices[i]?) =
        some (encoded.map fun o => (bucketOf i o).getD 0) := by
    rw [FrequencyEstimator.mapM_eq_some_map (g := fun indices => (indices[i]?).getD 0)]
    · rw [List.map_map]
      refine congrArg some (List.map_congr_left fun o ho => ?_)
      obtain ⟨indices, rfl, -⟩ := hencoded o ho
      rfl
    · intro indices hindices
      obtain ⟨o, ho, rfl⟩ := List.mem_map.mp hindices
      obtain ⟨indices, rfl, hlength⟩ := hencoded o ho
      rw [Option.getD_some, List.getElem?_eq_getElem (hlength ▸ hi), Option.getD_some]
  have hbuckets (i : ℕ) (hi : i < numBuckets) :
      ∀ response ∈ encoded.map (bucketOf i), response.isSome := by
    intro response hmem
    obtain ⟨o, ho, rfl⟩ := List.mem_map.mp hmem
    obtain ⟨indices, rfl, hlength⟩ := hencoded o ho
    rw [bucketOf, Option.bind_some, List.getElem?_eq_getElem (hlength ▸ hi), Option.isSome_some]
  have hsum (i : ℕ) (hi : i ∈ List.range numBuckets) :
      (do
        let encodedCounts ← (encoded.map fun o => o.getD []).mapM fun indices => indices[i]?
        (estimatorOf minInt maxInt partitions boundarySum r.p.value).computeSum encodedCounts) =
      some (estimatedSum (estimatorOf minInt maxInt partitions boundarySum r.p.value)
        (encoded.map (bucketOf i))) := by
    have hi := List.mem_range.mp hi
    rw [hcolumn i hi, Option.bind_eq_bind, Option.bind_some, estimatedSum,
      mapM_id_eq_some 0 (hbuckets i hi), Option.bind_some, List.map_map, Function.comp_def,
      h.computeSum_eq hne hr boundarySum (by rwa [List.length_map]), Option.getD_some]
  rw [mapM_id_eq_some [] hsome, Option.bind_some, BucketWiseHistogramSumEstimator.computeSum,
    FrequencyEstimator.mapM_eq_some_map hsum, estimateOf, Option.getD_some,
    List.getD_eq_getElem?_getD, List.getElem?_map, List.getElem?_range hindex, Option.map_some,
    Option.getD_some]

/-- **The bucket-wise sums are unbiased** in exact arithmetic: the expectation of the estimate for a
bucket is the sum of the counts of the clients, where a count above the range counts as the upper end
of the range. -/
theorem expect_bucketWise_computeSum (h : DividesEvenly minInt maxInt partitions)
    (hne : partitions ≠ -1) (hr : r.maxIndex = partitions) (hp : r.p.value < 1)
    {e : IntegerSumEstimator}
    (hnew : IntegerSumEstimator.new minInt maxInt partitions r.p.value = some e)
    {histograms : List (Vector Int64 numBuckets)}
    (hcounts : ∀ histogram ∈ histograms, CountsFrom minInt histogram)
    (hsize : histograms.length < 2 ^ 64) {index : ℕ} (hindex : index < numBuckets) :
    (FiniteLaw.sequence (histograms.map (BucketWiseHistogramEncoder.law
      (encoderOf minInt maxInt partitions) r))).expect
        (fun encoded => estimateOf
          ((encoded.mapM id).bind (BucketWiseHistogramSumEstimator.computeSum numBuckets e)) index) =
      (histograms.map fun histogram => (clamped maxInt histogram[index] : ℚ)).sum := by
  obtain ⟨boundarySum, rfl⟩ := h.eq_estimatorOf_of_new hne hnew
  have hread (encoded : List (Option (List UInt32)))
      (hpossible : (FiniteLaw.sequence (histograms.map (BucketWiseHistogramEncoder.law
        (encoderOf minInt maxInt partitions) r))).Possible encoded) :=
    estimateOf_bucketWise_computeSum h hne hr boundarySum (fun o ho => by
      obtain ⟨law, hlaw, hpossible⟩ := FiniteLaw.exists_possible_of_mem hpossible ho
      obtain ⟨histogram, hmem, rfl⟩ := List.mem_map.mp hlaw
      exact exists_indices_of_possible h hne (hcounts histogram hmem) hpossible)
      (by rwa [← (FiniteLaw.possible_sequence.mp hpossible).length_eq, List.length_map]) hindex
  have hbuckets : List.Forall₂ FiniteLaw.SameExpectations
      (((histograms.map (BucketWiseHistogramEncoder.law (encoderOf minInt maxInt partitions) r))).map
        (FiniteLaw.map (bucketOf index)))
      ((histograms.map fun histogram => histogram[index]).map
        ((encoderOf minInt maxInt partitions).law r)) := by
    refine List.forall₂_iff_get.mpr ⟨by simp, fun i hi hi' => ?_⟩
    simp only [List.get_eq_getElem, List.getElem_map]
    exact sameExpectations_bucketOf h hne (hcounts _ (List.getElem_mem _)) hindex
  have hvals : ∀ val ∈ histograms.map fun histogram => histogram[index], minInt ≤ val := by
    intro val hval
    obtain ⟨histogram, hmem, rfl⟩ := List.mem_map.mp hval
    exact hcounts histogram hmem _ (Vector.mem_toList_iff.mpr (Vector.getElem_mem hindex))
  have hcolumn := FiniteLaw.sameExpectations_map_sequence
    (histograms.map (BucketWiseHistogramEncoder.law (encoderOf minInt maxInt partitions) r))
    (bucketOf index) (estimatedSum (estimatorOf minInt maxInt partitions boundarySum r.p.value))
  rw [FiniteLaw.expect_map] at hcolumn
  rw [FiniteLaw.expect_congr _ hread, hcolumn, FiniteLaw.SameExpectations.sequence hbuckets,
    h.expect_estimatedSum hne hr hp boundarySum hvals (by rwa [List.length_map]), List.map_map,
    Function.comp_def]

/-- Two clients with two buckets, counts from 0 to 10, and a fair coin. -/
theorem expect_bucketWise_computeSum_ten :
    ∃ e, IntegerSumEstimator.new 0 10 2 (1 / 2) = some e ∧
      (FiniteLaw.sequence ([#v[(7 : Int64), 0], #v[12, 3]].map (BucketWiseHistogramEncoder.law
        (encoderOf 0 10 2) ⟨2, 1 / 2, by norm_num, by norm_num⟩))).expect
          (fun encoded => estimateOf
            ((encoded.mapM id).bind (BucketWiseHistogramSumEstimator.computeSum 2 e)) 0) = 17 := by
  have h : DividesEvenly 0 10 2 := ⟨by decide, by decide, by decide, by decide⟩
  have hnew : IntegerSumEstimator.new 0 10 2 (1 / 2) =
      some (estimatorOf 0 10 2 15 (1 / 2)) := by
    have hsum : getBoundarySum (boundariesOf 0 10 2) = some 15 := by decide
    rw [IntegerSumEstimator.new, h.populateBoundaries_eq (by decide), Option.bind_eq_bind,
      Option.bind_some, hsum]
    rfl
  have hcounts (count count' : Int64) (hcount : 0 ≤ count) (hcount' : 0 ≤ count') :
      CountsFrom 0 #v[count, count'] :=
    List.forall_mem_cons.mpr ⟨hcount, List.forall_mem_singleton.mpr hcount'⟩
  have hhistograms : ∀ histogram ∈ [#v[(7 : Int64), 0], #v[12, 3]], CountsFrom 0 histogram :=
    List.forall_mem_cons.mpr ⟨hcounts 7 0 (by decide) (by decide),
      List.forall_mem_singleton.mpr (hcounts 12 3 (by decide) (by decide))⟩
  refine ⟨_, hnew, (expect_bucketWise_computeSum h (by decide) rfl (by norm_num) hnew hhistograms
    (by norm_num) (by decide : 0 < 2)).trans ?_⟩
  have hclamped : clamped 10 7 = 7 ∧ clamped 10 12 = 10 := by decide
  norm_num [hclamped.1, hclamped.2]

/-! ### The occurrence-wise encoder -/

/-- The bucket indices that `OccurrenceWiseHistogramEncoder::Encode` encodes, in the order of its
loops. -/
def occurrences (maxCount : ℕ) (histogram : List ℕ) : List UInt32 :=
  (List.range histogram.length).flatMap fun i =>
    List.replicate (min (histogram.getD i 0) maxCount) (UInt32.ofNat i)

/-- The histogram of what the randomizer returns, with counters of type `uint64_t`. -/
def tally (numBuckets : UInt32) (responses : List UInt32) : Option (List ℕ) :=
  responses.foldlM (fun encoded response => FrequencyEstimator.addTo encoded response.toNat 1)
    (List.replicate numBuckets.toNat 0)

/-- The randomizer of the constructor. -/
def OccurrenceWiseHistogramEncoder.randomizer (numBuckets : UInt32) (p : FiniteLaw.Probability) :
    ResponseRandomizer where
  maxIndex := numBuckets - 1
  p := p

/-- The law of `OccurrenceWiseHistogramEncoder::Encode`. -/
def OccurrenceWiseHistogramEncoder.law (numBuckets : UInt32) (maxCount : ℕ)
    (p : FiniteLaw.Probability) (histogram : List ℕ) : FiniteLaw (Option (List ℕ)) :=
  (responsesLaw (randomizer numBuckets p) (occurrences maxCount histogram)).map (tally numBuckets)

/-- `OccurrenceWiseHistogramSumEstimator::ComputeSum`. -/
def OccurrenceWiseHistogramSumEstimator.computeSum (numBuckets : UInt32) (p : ℚ)
    (encodedHistograms : List (List ℕ)) : Option (List ℚ) :=
  (FrequencyEstimator.mk (numBuckets - 1) p).getFrequenciesFromHistograms encodedHistograms

section Occurrences

variable {numBuckets : UInt32} {maxCount : ℕ} {p : FiniteLaw.Probability}

/-- The largest index of some buckets. -/
theorem toNat_numBuckets_sub_one (h : 0 < numBuckets.toNat) :
    (numBuckets - 1).toNat + 1 = numBuckets.toNat := by
  have hone : (1 : UInt32).toNat = 1 := rfl
  rw [UInt32.toNat_sub_of_le _ _ (by rw [UInt32.le_iff_toNat_le, hone]; exact h), hone]
  omega

/-- How often a bucket is encoded: its count, clipped to the largest one. -/
theorem count_occurrences {histogram : List ℕ} (hlength : histogram.length ≤ UInt32.size) {i : ℕ}
    (hi : i < histogram.length) :
    (occurrences maxCount histogram).count (UInt32.ofNat i) =
      min (histogram.getD i 0) maxCount := by
  have hone (j : ℕ) (hj : j ∈ List.range histogram.length) :
      (List.replicate (min (histogram.getD j 0) maxCount) (UInt32.ofNat j)).count (UInt32.ofNat i) =
        if j = i then min (histogram.getD j 0) maxCount else 0 := by
    have hj := List.mem_range.mp hj
    have hkey : UInt32.ofNat j = UInt32.ofNat i ↔ j = i := by
      rw [← UInt32.toNat_inj, UInt32.toNat_ofNat_of_lt' (by omega),
        UInt32.toNat_ofNat_of_lt' (by omega)]
    rw [List.count_replicate, beq_eq_decide]
    simp only [decide_eq_true_eq, hkey]
  rw [occurrences, List.count_flatMap, Function.comp_def, List.map_congr_left hone,
    sum_range_ite_eq, if_pos hi]

/-- The number of occurrences is the sum of the clipped counts. -/
theorem length_occurrences (histogram : List ℕ) :
    (occurrences maxCount histogram).length = (histogram.map (min · maxCount)).sum := by
  have hcounts : (List.range histogram.length).map (fun i => min (histogram.getD i 0) maxCount) =
      histogram.map (min · maxCount) := by
    refine List.ext_getElem (by simp) fun i hi hi' => ?_
    rw [List.getElem_map, List.getElem_map, List.getElem_range, List.getD_eq_getElem _ _ (by
      rwa [List.length_map] at hi')]
  rw [occurrences, List.length_flatMap, ← hcounts]
  simp only [List.length_replicate]

theorem le_of_mem_occurrences {histogram : List ℕ} (hlength : histogram.length = numBuckets.toNat)
    (hpos : 0 < numBuckets.toNat) {index : UInt32} (h : index ∈ occurrences maxCount histogram) :
    index ≤ numBuckets - 1 := by
  obtain ⟨i, hi, hmem⟩ := List.mem_flatMap.mp h
  have hi := List.mem_range.mp hi
  have hfits := numBuckets.toNat_lt
  have hlast := toNat_numBuckets_sub_one hpos
  rw [List.eq_of_mem_replicate hmem, UInt32.le_iff_toNat_le,
    UInt32.toNat_ofNat_of_lt' (by rw [UInt32.size]; omega)]
  omega

/-- The histogram of the results counts each of them, if they are not more than a counter can
count. -/
theorem tally_eq (hpos : 0 < numBuckets.toNat) {responses : List UInt32}
    (h : ∀ response ∈ responses, response ≤ numBuckets - 1) (hsize : responses.length < 2 ^ 64) :
    tally numBuckets responses =
      some ((List.range ((numBuckets - 1).toNat + 1)).map fun i =>
        responses.count (UInt32.ofNat i)) := by
  have hzero : List.replicate numBuckets.toNat 0 =
      (List.range ((numBuckets - 1).toNat + 1)).map fun _ => 0 % 2 ^ 64 := by
    rw [toNat_numBuckets_sub_one hpos, List.map_const', List.length_range, Nat.zero_mod]
  have hloop (raw : List ℕ) :
      responses.foldlM (fun encoded response => FrequencyEstimator.addTo encoded response.toNat 1)
        raw = FrequencyEstimator.countIndices (numBuckets - 1) responses raw := by
    clear hsize
    induction responses generalizing raw with
    | nil => rfl
    | cons response responses ih =>
      obtain ⟨hle, hrest⟩ := List.forall_mem_cons.mp h
      rw [FrequencyEstimator.countIndices, List.foldlM_cons, List.foldlM_cons, if_pos hle]
      exact congrArg _ (funext fun raw => ih hrest raw)
  have hcount (i : ℕ) : (0 + responses.count (UInt32.ofNat i)) % 2 ^ 64 =
      responses.count (UInt32.ofNat i) := by
    rw [Nat.zero_add, Nat.mod_eq_of_lt (List.count_le_length.trans_lt hsize)]
  rw [tally, hloop, hzero, FrequencyEstimator.countIndices_eq]
  simp only [hcount]

/-- The counts of the results sum up to the number of results. -/
theorem sum_count_eq_length {responses : List UInt32} {maxIndex : UInt32}
    (h : ∀ response ∈ responses, response ≤ maxIndex) :
    ((List.range (maxIndex.toNat + 1)).map fun i => responses.count (UInt32.ofNat i)).sum =
      responses.length := by
  have hsum := sum_count_mul maxIndex (fun _ => 1) responses
  have hones : (responses.map fun index => if index ≤ maxIndex then (1 : ℚ) else 0) =
      responses.map fun _ => 1 :=
    List.map_congr_left fun response hmem => if_pos (h response hmem)
  rw [hones, List.map_const', List.sum_replicate, nsmul_one] at hsum
  simp only [mul_one] at hsum
  have hcast := Nat.cast_list_sum (R := ℚ)
    ((List.range (maxIndex.toNat + 1)).map fun i => responses.count (UInt32.ofNat i))
  rw [List.map_map, Function.comp_def, hsum] at hcast
  exact_mod_cast hcast

/-- The number of indices in the histogram of some results. -/
theorem numCounted_counts {responses : List UInt32} {maxIndex : UInt32}
    (h : ∀ response ∈ responses, response ≤ maxIndex) :
    FrequencyEstimator.numCounted maxIndex
      ((List.range (maxIndex.toNat + 1)).map fun i => responses.count (UInt32.ofNat i)) =
        responses.length := by
  rw [FrequencyEstimator.numCounted, ← sum_count_eq_length h]
  refine congrArg List.sum (List.map_congr_left fun j hj => ?_)
  rw [List.getD_eq_getElem?_getD, List.getElem?_map, List.getElem?_range (List.mem_range.mp hj),
    Option.map_some, Option.getD_some]

/-- The randomizer returns buckets, one for each occurrence. -/
theorem of_possible_responsesLaw {indices responses : List UInt32}
    (h : (responsesLaw r indices).Possible responses) :
    responses.length = indices.length ∧ ∀ response ∈ responses, response ≤ r.maxIndex := by
  refine ⟨?_, fun response hmem => ?_⟩
  · rw [← (FiniteLaw.possible_sequence.mp h).length_eq, List.length_map]
  · obtain ⟨law, hlaw, hresponse⟩ := FiniteLaw.exists_possible_of_mem h hmem
    obtain ⟨index, -, rfl⟩ := List.mem_map.mp hlaw
    exact r.le_of_possible_law index hresponse

/-- What an encoded histogram adds to the estimate for a bucket, up to the scale. -/
def occurrenceValue (maxIndex : UInt32) (p : ℚ) (i : ℕ) (encoded : Option (List ℕ)) : ℚ :=
  (((encoded.getD []).getD i 0 : ℕ) : ℚ) -
    (FrequencyEstimator.numCounted maxIndex (encoded.getD []) : ℕ) * p / (maxIndex.toNat + 1 : ℕ)

theorem sum_occurrenceValue (maxIndex : UInt32) (p : ℚ) (i : ℕ) (encoded : List (Option (List ℕ))) :
    (encoded.map (occurrenceValue maxIndex p i)).sum =
      ((encoded.map fun o => (o.getD []).getD i 0).sum : ℕ) -
        ((encoded.map fun o => FrequencyEstimator.numCounted maxIndex (o.getD [])).sum : ℕ) * p /
          (maxIndex.toNat + 1 : ℕ) := by
  induction encoded with
  | nil => simp
  | cons o encoded ih =>
    rw [List.map_cons, List.sum_cons, ih, occurrenceValue, List.map_cons, List.sum_cons,
      List.map_cons, List.sum_cons]
    push_cast
    ring

/-- What an encoded histogram adds to the estimate on average: the clipped count. -/
theorem expect_occurrenceValue (hpos : 0 < numBuckets.toNat) {histogram : List ℕ}
    (hlength : histogram.length = numBuckets.toNat)
    (hsize : (occurrences maxCount histogram).length < 2 ^ 64) {i : ℕ} (hi : i < numBuckets.toNat) :
    (OccurrenceWiseHistogramEncoder.law numBuckets maxCount p histogram).expect
      (occurrenceValue (numBuckets - 1) p.value i) =
        (1 - p.value) * (min (histogram.getD i 0) maxCount : ℕ) := by
  have hlast := toNat_numBuckets_sub_one hpos
  have hfits := numBuckets.toNat_lt
  have hread (responses : List UInt32)
      (h : (responsesLaw (OccurrenceWiseHistogramEncoder.randomizer numBuckets p)
        (occurrences maxCount histogram)).Possible responses) :
      occurrenceValue (numBuckets - 1) p.value i (tally numBuckets responses) =
        (responses.count (UInt32.ofNat i) : ℚ) -
          (occurrences maxCount histogram).length * p.value /
            ((numBuckets - 1).toNat + 1 : ℕ) := by
    obtain ⟨hlen, hle⟩ := of_possible_responsesLaw h
    have hle : ∀ response ∈ responses, response ≤ numBuckets - 1 := hle
    rw [tally_eq hpos hle (hlen ▸ hsize), occurrenceValue, Option.getD_some, numCounted_counts hle,
      hlen, List.getD_eq_getElem?_getD, List.getElem?_map, List.getElem?_range (by omega),
      Option.map_some, Option.getD_some]
  have hmin : (occurrences maxCount histogram).map (min (numBuckets - 1)) =
      occurrences maxCount histogram := by
    refine (List.map_congr_left fun index hmem => ?_).trans (List.map_id _)
    exact (ResponseRandomizer.min_eq_of_le (r := OccurrenceWiseHistogramEncoder.randomizer
      numBuckets p) (le_of_mem_occurrences hlength hpos hmem))
  have hcount := expect_count_responsesLaw (OccurrenceWiseHistogramEncoder.randomizer numBuckets p)
    (occurrences maxCount histogram) (Nat.le_of_lt_succ (hlast.symm ▸ hi))
  rw [OccurrenceWiseHistogramEncoder.randomizer, hmin, count_occurrences (by rw [UInt32.size]; omega)
    (by omega)] at hcount
  rw [OccurrenceWiseHistogramEncoder.law, FiniteLaw.expect_map, FiniteLaw.expect_congr _ hread,
    FiniteLaw.expect_sub, FiniteLaw.expect_const, OccurrenceWiseHistogramEncoder.randomizer, hcount]
  ring

/-- The encodings of some histograms have a count for each bucket, and one for each occurrence. -/
theorem exists_counts_of_possible (hpos : 0 < numBuckets.toNat) {histograms : List (List ℕ)}
    (hsize : (histograms.map fun histogram => (occurrences maxCount histogram).length).sum < 2 ^ 64)
    {encoded : List (Option (List ℕ))}
    (h : (FiniteLaw.sequence (histograms.map (OccurrenceWiseHistogramEncoder.law numBuckets maxCount
      p))).Possible encoded) :
    ∃ counts : List (List ℕ), encoded = counts.map some ∧
      (∀ histogram ∈ counts, histogram.length = (numBuckets - 1).toNat + 1) ∧
      (counts.map (FrequencyEstimator.numCounted (numBuckets - 1))).sum =
        (histograms.map fun histogram => (occurrences maxCount histogram).length).sum := by
  have hall := FiniteLaw.possible_sequence.mp h
  clear h
  induction histograms generalizing encoded with
  | nil =>
    cases hall
    exact ⟨[], rfl, by simp, rfl⟩
  | cons histogram histograms ih =>
    rw [List.map_cons] at hall
    obtain ⟨o, encoded', ho, hall', rfl⟩ := List.forall₂_cons_left_iff.mp hall
    rw [List.map_cons, List.sum_cons] at hsize
    obtain ⟨counts, rfl, hlengths, hsum⟩ := ih (by omega) hall'
    obtain ⟨responses, hresponses, rfl⟩ := (FiniteLaw.possible_map _).mp ho
    obtain ⟨hlen, hle⟩ := of_possible_responsesLaw hresponses
    have hle : ∀ response ∈ responses, response ≤ numBuckets - 1 := hle
    refine ⟨((List.range ((numBuckets - 1).toNat + 1)).map fun i =>
      responses.count (UInt32.ofNat i)) :: counts, ?_, List.forall_mem_cons.mpr ⟨?_, hlengths⟩, ?_⟩
    · rw [tally_eq hpos hle (by omega), List.map_cons]
    · rw [List.length_map, List.length_range]
    · rw [List.map_cons, List.sum_cons, List.map_cons, List.sum_cons, hsum]
      exact congrArg (· + _) ((numCounted_counts hle).trans hlen)

/-- **The occurrence-wise sums are unbiased** in exact arithmetic, if the counters do not wrap: the
expectation of the estimate for a bucket is the sum of the counts of the clients, each clipped to the
largest count. -/
theorem expect_occurrenceWise_computeSum (hpos : 0 < numBuckets.toNat) (hp : p.value < 1)
    {histograms : List (List ℕ)}
    (hlength : ∀ histogram ∈ histograms, histogram.length = numBuckets.toNat)
    (hsize : (histograms.map fun histogram => (histogram.map (min · maxCount)).sum).sum < 2 ^ 64)
    {i : ℕ} (hi : i < numBuckets.toNat) :
    (FiniteLaw.sequence (histograms.map (OccurrenceWiseHistogramEncoder.law numBuckets maxCount
      p))).expect (fun encoded => estimateOf ((encoded.mapM id).bind
        (OccurrenceWiseHistogramSumEstimator.computeSum numBuckets p.value)) i) =
      (histograms.map fun histogram => ((min (histogram.getD i 0) maxCount : ℕ) : ℚ)).sum := by
  simp only [← length_occurrences] at hsize
  have hlast := toNat_numBuckets_sub_one hpos
  have hfits := numBuckets.toNat_lt
  have hscale : 1 - p.value ≠ 0 := (sub_pos.mpr hp).ne'
  have hmax : numBuckets - 1 ≠ -1 := by
    intro h
    have hone : (-1 : UInt32).toNat = 2 ^ 32 - 1 := rfl
    rw [h, hone] at hlast
    omega
  have hread (encoded : List (Option (List ℕ)))
      (hpossible : (FiniteLaw.sequence (histograms.map (OccurrenceWiseHistogramEncoder.law numBuckets
        maxCount p))).Possible encoded) :
      estimateOf ((encoded.mapM id).bind
        (OccurrenceWiseHistogramSumEstimator.computeSum numBuckets p.value)) i =
      1 / (1 - p.value) * (encoded.map (occurrenceValue (numBuckets - 1) p.value i)).sum := by
    obtain ⟨counts, rfl, hlengths, hsum⟩ := exists_counts_of_possible hpos hsize hpossible
    have hfrequencies : i < (numBuckets - 1).toNat + 1 := by omega
    have hsome : ∀ o ∈ counts.map some, o.isSome := by simp
    rw [mapM_id_eq_some [] hsome, Option.bind_some,
      OccurrenceWiseHistogramSumEstimator.computeSum, List.map_map, Function.comp_def]
    simp only [Option.getD_some, List.map_id']
    rw [FrequencyEstimator.getFrequenciesFromHistograms_eq hmax hlengths (hsum ▸ hsize), estimateOf,
      Option.getD_some, List.getD_eq_getElem?_getD, List.getElem?_map,
      List.getElem?_range hfrequencies, Option.map_some, Option.getD_some, sum_occurrenceValue,
      List.map_map, List.map_map, one_div_mul_eq_div]
    rfl
  have hone : (histograms.map fun histogram =>
      (OccurrenceWiseHistogramEncoder.law numBuckets maxCount p histogram).expect
        (occurrenceValue (numBuckets - 1) p.value i)) =
      histograms.map fun histogram =>
        (1 - p.value) * (min (histogram.getD i 0) maxCount : ℕ) :=
    List.map_congr_left fun histogram hmem =>
      expect_occurrenceValue hpos (hlength histogram hmem)
        ((List.single_le_sum (fun _ _ => Nat.zero_le _) _
          (List.mem_map.mpr ⟨histogram, hmem, rfl⟩)).trans_lt hsize) hi
  rw [FiniteLaw.expect_congr _ hread, FiniteLaw.expect_mul_left, FiniteLaw.expect_sequence_sum,
    List.map_map, Function.comp_def, hone, List.sum_map_mul_left, ← mul_assoc,
    one_div_mul_cancel hscale, one_mul]

/-- Two clients with three buckets, at most four occurrences in each, and a fair coin. -/
theorem expect_occurrenceWise_computeSum_three :
    (FiniteLaw.sequence ([[6, 0, 1], [2, 3, 0]].map (OccurrenceWiseHistogramEncoder.law 3 4
      ⟨1 / 2, by norm_num, by norm_num⟩))).expect (fun encoded => estimateOf ((encoded.mapM id).bind
        (OccurrenceWiseHistogramSumEstimator.computeSum 3 (1 / 2))) 0) = 6 := by
  have hlength : ∀ histogram ∈ [[6, 0, 1], [2, 3, 0]], histogram.length = (3 : UInt32).toNat :=
    List.forall_mem_cons.mpr ⟨rfl, List.forall_mem_singleton.mpr rfl⟩
  have hpos : 0 < (3 : UInt32).toNat := by decide
  refine (expect_occurrenceWise_computeSum hpos (by norm_num) hlength (by decide) hpos).trans ?_
  norm_num

end Occurrences

end Cobalt.Algorithms
