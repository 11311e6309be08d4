import Cobalt.Algorithms.IntegerEncoder
import Cobalt.Algorithms.RandomizedResponse
import Mathlib.Tactic.LinearCombination

/-!
# The sum of encoded integers

Clients encode integers by an `IntegerEncoder`, whose draws are a Bernoulli draw for the rounding and
those of its `ResponseRandomizer`. From the indices an `IntegerSumEstimator` estimates the sum of the
integers. A Bernoulli draw with a number that is not a probability is undefined behavior, for which
the law of the encoder has the result `none`. The sum is computed in rational numbers, without the
rounding of `double`.

## Main definitions

* `IntegerEncoder.law`: the law of the encoder.
* `IntegerSumEstimator.computeSum`: the estimator.

## Main results

* `DividesEvenly.exists_isRounding`: the rounding is right on average.
* `DividesEvenly.within_law`: how much an encoded integer tells about the integer.
* `DividesEvenly.expect_estimatedSum`: the estimated sum is unbiased in exact arithmetic.
-/

namespace Cobalt.Algorithms

open FiniteLaw (Probability)

/-! ### The encoder -/

/-- The law of `Encode`: the sample of `RandomRound`, if it makes a draw, and then those of the
randomizer. -/
def IntegerEncoder.law (e : IntegerEncoder) (r : ResponseRandomizer) (val : Int64) :
    FiniteLaw (Option UInt32) :=
  match (e.getLeftIndex val).bind (e.draw val) with
  | some (some pos) =>
    if h : 0 ≤ pos ∧ pos ≤ 1 then
      (FiniteLaw.bernoulli ⟨pos, h.1, h.2⟩).bind fun up => r.draws.map fun draw =>
        e.encode (fun _ => if up then 1 else 0) (r.encode draw.1 draw.2) val
    else .pure none
  | _ => r.draws.map fun draw => e.encode (fun _ => 0) (r.encode draw.1 draw.2) val

/-! ### The estimator -/

/-- `GetBoundarySum`; a sum that overflows is undefined behavior. -/
def getBoundarySum (boundaries : List Int64) : Option Int64 :=
  boundaries.foldlM (fun sum b => signed64 (sum.toInt + b.toInt)) 0

/-- `IntegerSumEstimator`. -/
structure IntegerSumEstimator where
  boundaries : List Int64
  boundarySum : Int64
  frequencyEstimator : FrequencyEstimator

namespace IntegerSumEstimator

/-- The constructor. -/
def new (minInt maxInt : Int64) (partitions : UInt32) (p : ℚ) : Option IntegerSumEstimator := do
  let boundaries ← populateBoundaries minInt maxInt partitions
  let boundarySum ← getBoundarySum boundaries
  return ⟨boundaries, boundarySum, ⟨partitions, p⟩⟩

/-- `ComputeSum`, in rational numbers, without the rounding of `double`. -/
def computeSum (e : IntegerSumEstimator) (encodedVals : List UInt32) : Option ℚ := do
  let frequencies ← e.frequencyEstimator.getFrequenciesFromIndices encodedVals
  (List.range frequencies.length).foldlM (fun sum index => do
    let frequency ← frequencies[index]?
    let boundary ← e.boundaries[index]?
    return sum + frequency * boundary.toInt) 0

end IntegerSumEstimator

/-! ### The rounding -/

variable {minInt maxInt val : Int64} {partitions : UInt32} {r : ResponseRandomizer}

/-- The value of a boundary. -/
def boundaryValue (minInt maxInt : Int64) (partitions index : UInt32) : ℚ :=
  (minInt.toInt + index.toNat * stepOf minInt maxInt partitions : ℤ)

/-- An integer, or the upper end of the range if it is above it. -/
def clamped (maxInt val : Int64) : ℤ := min val.toInt maxInt.toInt

/-- A rounding: a law of the index of a boundary, such that the encoder encodes the index, and
the boundary has the value of the integer on average. -/
structure IsRounding (minInt maxInt : Int64) (partitions : UInt32) (r : ResponseRandomizer)
    (val : Int64) (roundLaw : FiniteLaw UInt32) : Prop where
  expect_law : ∀ f : Option UInt32 → ℚ, ((encoderOf minInt maxInt partitions).law r val).expect f =
    roundLaw.expect fun index => (r.law index).expect fun response => f (some response)
  le : ∀ index, roundLaw.Possible index → index ≤ partitions
  expect_value :
    roundLaw.expect (boundaryValue minInt maxInt partitions) = clamped maxInt val

/-- The value of the last boundary. -/
theorem DividesEvenly.boundaryValue_last (h : DividesEvenly minInt maxInt partitions) :
    boundaryValue minInt maxInt partitions partitions = maxInt.toInt := by
  rw [boundaryValue, h.mul_stepOf, add_sub_cancel]

/-- An integer at the upper end of the range or above it is the last boundary. -/
theorem DividesEvenly.isRounding_last (h : DividesEvenly minInt maxInt partitions)
    (hleft : (encoderOf minInt maxInt partitions).getLeftIndex val = some partitions)
    (hle : minInt.toInt + partitions.toNat * stepOf minInt maxInt partitions ≤ val.toInt) :
    IsRounding minInt maxInt partitions r val (.pure partitions) := by
  have hdraw : (encoderOf minInt maxInt partitions).draw val partitions = some none := by
    rw [IntegerEncoder.draw, if_pos (length_encoderOf minInt maxInt partitions).symm]
  refine ⟨fun f => ?_, fun index hindex => ?_, ?_⟩
  · rw [FiniteLaw.expect_pure, IntegerEncoder.law, hleft, Option.bind_some, hdraw,
      ResponseRandomizer.law, FiniteLaw.expect_map, FiniteLaw.expect_map]
    refine congrArg _ (funext fun draw => congrArg f ?_)
    rw [IntegerEncoder.encode, hleft, Option.bind_eq_bind, Option.bind_some,
      IntegerEncoder.randomRound, hdraw]
    simp
  · rw [FiniteLaw.possible_pure.mp hindex]
    exact UInt32.le_refl _
  · rw [FiniteLaw.expect_pure, h.boundaryValue_last, clamped]
    rw [h.mul_stepOf] at hle
    rw [min_eq_right (by omega)]

/-- An integer in a part is rounded up with the probability that is its position in the part. -/
theorem DividesEvenly.isRounding_inner (h : DividesEvenly minInt maxInt partitions) {left : UInt32}
    (hleft : (encoderOf minInt maxInt partitions).getLeftIndex val = some left)
    (hinner : left.toNat < partitions.toNat)
    (hlt : val.toInt < minInt.toInt + (left.toNat + 1) * stepOf minInt maxInt partitions)
    (pos : Probability)
    (hdraw : (encoderOf minInt maxInt partitions).draw val left = some (some pos.value))
    (hpos : pos.value * stepOf minInt maxInt partitions =
      val.toInt - (minInt.toInt + left.toNat * stepOf minInt maxInt partitions)) :
    IsRounding minInt maxInt partitions r val
      ((FiniteLaw.bernoulli pos).map fun up => if up then left + 1 else left) := by
  have hnext : (left + 1).toNat = left.toNat + 1 := by
    have hlt' := partitions.toNat_lt
    refine toNat_add_one fun hmax => ?_
    have hmax' : (-1 : UInt32).toNat = 2 ^ 32 - 1 := rfl
    rw [hmax, hmax'] at hinner
    omega
  refine ⟨fun f => ?_, fun index hindex => ?_, ?_⟩
  · rw [IntegerEncoder.law, hleft, Option.bind_some, hdraw]
    simp only [dif_pos (And.intro pos.nonneg pos.le_one), FiniteLaw.expect_bind,
      FiniteLaw.expect_map]
    refine congrArg _ (funext fun up => ?_)
    rw [ResponseRandomizer.law, FiniteLaw.expect_map]
    refine congrArg _ (funext fun draw => congrArg f ?_)
    rw [IntegerEncoder.encode, hleft, Option.bind_eq_bind, Option.bind_some,
      IntegerEncoder.randomRound, hdraw]
    cases up <;> simp
  · obtain ⟨up, -, rfl⟩ := (FiniteLaw.possible_map _).mp hindex
    rw [UInt32.le_iff_toNat_le]
    split_ifs <;> omega
  · have hmul := (h.mul_stepOf_le (Nat.succ_le_of_lt hinner)).2
    rw [FiniteLaw.expect_map, FiniteLaw.expect_bernoulli, if_pos rfl, if_neg Bool.false_ne_true,
      boundaryValue, boundaryValue, hnext, clamped, min_eq_left (by push_cast at hmul; linarith)]
    push_cast
    linear_combination hpos

/-- **The encoder rounds every integer from the lower end of the range on.** -/
theorem DividesEvenly.exists_isRounding (h : DividesEvenly minInt maxInt partitions)
    (hne : partitions ≠ -1) (hval : minInt ≤ val) :
    ∃ roundLaw, IsRounding minInt maxInt partitions r val roundLaw := by
  have hstep := h.stepOf_pos
  have hstep_le := h.stepOf_le
  have hrange := h.width_lt
  obtain ⟨left, hleft, hle, rfl | ⟨hinner, hlt⟩⟩ := h.exists_part hne hval
  · exact ⟨_, h.isRounding_last hleft hle⟩
  have hstep' : (0 : ℚ) < stepOf minInt maxInt partitions := Int.cast_pos.mpr hstep
  have hpart : val.toInt - (minInt.toInt + left.toNat * stepOf minInt maxInt partitions) <
      stepOf minInt maxInt partitions := by linarith
  have hdraw : (encoderOf minInt maxInt partitions).draw val left = _ := h.draw_eq hne hinner
  rw [signed64_of_le (by omega) (by omega), Option.map_some] at hdraw
  refine ⟨_, h.isRounding_inner hleft hinner hlt ⟨_, ?_, ?_⟩ hdraw ?_⟩
  · exact div_nonneg (Int.cast_nonneg (by omega)) hstep'.le
  · rw [div_le_one hstep']
    exact Int.cast_le.mpr hpart.le
  · rw [div_mul_cancel₀ _ hstep'.ne']
    push_cast
    rfl

/-! ### What an encoded integer tells about the integer -/

/-- The ends of the range are encoded as the first and the last index. -/
theorem DividesEvenly.expect_law_minInt (h : DividesEvenly minInt maxInt partitions)
    (hne : partitions ≠ -1) (f : Option UInt32 → ℚ) :
    ((encoderOf minInt maxInt partitions).law r minInt).expect f =
      (r.law 0).expect fun response => f (some response) := by
  have hstep := h.stepOf_pos
  have hpos := h.pos
  obtain ⟨left, hleft, hle, hpart⟩ := h.exists_part hne (Int64.le_refl minInt)
  have hzero : left.toNat = 0 := by
    refine Nat.lt_one_iff.mp (h.lt_of_boundary_le hle ?_)
    push_cast
    linarith
  obtain rfl : left = 0 := UInt32.toNat.inj hzero
  have hinner : (0 : UInt32).toNat < partitions.toNat := h.pos
  have hdraw : (encoderOf minInt maxInt partitions).draw minInt 0 = _ := h.draw_eq hne hinner
  rw [hzero, Nat.cast_zero, Int.zero_mul, Int.add_zero, Int.sub_self, signed64_of_le (by decide)
    (by decide), Option.map_some, Int.cast_zero, zero_div] at hdraw
  have hrounding : IsRounding minInt maxInt partitions r minInt _ :=
    h.isRounding_inner hleft hinner (by rw [hzero]; push_cast; linarith) ⟨0, le_rfl, zero_le_one⟩
      hdraw (by rw [hzero]; push_cast; ring)
  rw [hrounding.expect_law, FiniteLaw.expect_map, FiniteLaw.expect_bernoulli, zero_mul, zero_add,
    sub_zero, one_mul, if_neg Bool.false_ne_true]

theorem DividesEvenly.expect_law_maxInt (h : DividesEvenly minInt maxInt partitions)
    (hne : partitions ≠ -1) (f : Option UInt32 → ℚ) :
    ((encoderOf minInt maxInt partitions).law r maxInt).expect f =
      (r.law partitions).expect fun response => f (some response) := by
  have hlt := h.lt
  have hmul := h.mul_stepOf
  obtain ⟨left, hleft, hle, rfl | ⟨hinner, hlt'⟩⟩ :=
    h.exists_part hne (Int64.le_iff_toInt_le.mpr hlt.le)
  · rw [(h.isRounding_last hleft hle).expect_law, FiniteLaw.expect_pure]
  · have hupper := (h.mul_stepOf_le (Nat.succ_le_of_lt hinner)).2
    push_cast at hupper
    linarith

/-- How much an encoded integer tells about the integer. The rounding adds nothing to what the
randomizer tells. -/
theorem DividesEvenly.within_law (h : DividesEvenly minInt maxInt partitions)
    (hne : partitions ≠ -1) (hp : 0 < r.p.value) {c : ℚ} (hc : r.privacyFactor ≤ c)
    {val val' : Int64} (hval : minInt ≤ val) (hval' : minInt ≤ val') :
    FiniteLaw.Within c ((encoderOf minInt maxInt partitions).law r val)
      ((encoderOf minInt maxInt partitions).law r val') := by
  obtain ⟨roundLaw, hround⟩ := h.exists_isRounding (r := r) hne hval
  obtain ⟨roundLaw', hround'⟩ := h.exists_isRounding (r := r) hne hval'
  have hbind : FiniteLaw.Within c (roundLaw.bind fun index => (r.law index).map some)
      (roundLaw'.bind fun index => (r.law index).map some) :=
    .bind fun index index' => (r.within_law hp hc index index').map some
  intro f hf
  have hf := hbind f hf
  simp only [FiniteLaw.expect_bind, FiniteLaw.expect_map] at hf
  rwa [hround.expect_law, hround'.expect_law]

/-! ### The sum -/

/-- The value that an encoded index adds to the sum. -/
def indexValue (minInt maxInt : Int64) (partitions index : UInt32) : ℚ :=
  if index ≤ partitions then boundaryValue minInt maxInt partitions index else 0

/-- The estimator of a range that is divided evenly. -/
def estimatorOf (minInt maxInt : Int64) (partitions : UInt32) (boundarySum : Int64) (p : ℚ) :
    IntegerSumEstimator :=
  ⟨boundariesOf minInt maxInt partitions, boundarySum, ⟨partitions, p⟩⟩

/-- The loop of `ComputeSum`. -/
theorem foldlM_sum_mul {frequencies : List ℚ} {boundaries : List Int64} {f g : ℕ → ℚ} {n : ℕ}
    (hf : ∀ i < n, frequencies[i]? = some (f i))
    (hg : ∀ i < n, ∃ b, boundaries[i]? = some b ∧ (b.toInt : ℚ) = g i) :
    ((List.range n).foldlM (fun sum index => do
      let frequency ← frequencies[index]?
      let boundary ← boundaries[index]?
      return sum + frequency * boundary.toInt) (0 : ℚ)) =
      some ((List.range n).map fun i => f i * g i).sum := by
  induction n with
  | zero => rfl
  | succ n ih =>
    obtain ⟨b, hb, hval⟩ := hg n n.lt_succ_self
    rw [List.range_succ, List.foldlM_append, ih (fun i hi => hf i (by omega)) fun i hi =>
      hg i (by omega), Option.bind_eq_bind, Option.bind_some, List.foldlM_cons, hf n n.lt_succ_self,
      hb, List.map_append, List.sum_append, List.map_singleton, List.sum_singleton, ← hval]
    rfl

/-- The estimated sum: the values of the indices less what the randomizer adds on average. -/
theorem DividesEvenly.computeSum_eq (h : DividesEvenly minInt maxInt partitions)
    (hne : partitions ≠ -1) (hr : r.maxIndex = partitions) (boundarySum : Int64)
    {indices : List UInt32} (hsize : indices.length < 2 ^ 64) :
    (estimatorOf minInt maxInt partitions boundarySum r.p.value).computeSum indices =
      some (1 / (1 - r.p.value) * ((indices.map (indexValue minInt maxInt partitions)).sum -
        indices.length * (r.p.value * r.average (indexValue minInt maxInt partitions)))) := by
  have hlength : (boundariesOf minInt maxInt partitions).length = partitions.toNat + 1 :=
    length_encoderOf minInt maxInt partitions
  have hboundary (i : ℕ) (hi : i < partitions.toNat + 1) :
      ∃ b, (boundariesOf minInt maxInt partitions)[i]? = some b ∧
        (b.toInt : ℚ) = boundaryValue minInt maxInt partitions (UInt32.ofNat i) := by
    have hfits := partitions.toNat_lt
    refine ⟨_, List.getElem?_eq_getElem (by omega), ?_⟩
    rw [boundaryValue, UInt32.toNat_ofNat_of_lt' (by rw [UInt32.size]; omega),
      ← h.toInt_getElem (by rw [length_encoderOf]; omega)]
    rfl
  have hfrequency (i : ℕ) (hi : i < partitions.toNat + 1) :
      ((List.range (partitions.toNat + 1)).map fun i => ((indices.count (UInt32.ofNat i) : ℚ) -
        indices.length * r.p.value / (partitions.toNat + 1 : ℕ)) / (1 - r.p.value))[i]? =
      some (((indices.count (UInt32.ofNat i) : ℚ) -
        indices.length * r.p.value / (partitions.toNat + 1 : ℕ)) / (1 - r.p.value)) := by
    rw [List.getElem?_map, List.getElem?_range hi, Option.map_some]
  have haverage : r.average (indexValue minInt maxInt partitions) =
      ((List.range (partitions.toNat + 1)).map fun i =>
        boundaryValue minInt maxInt partitions (UInt32.ofNat i)).sum /
          (partitions.toNat + 1 : ℕ) := by
    rw [ResponseRandomizer.average, hr]
    refine congrArg (· / _) (congrArg List.sum (List.map_congr_left fun i hi => ?_))
    have hi := List.mem_range.mp hi
    have hfits := partitions.toNat_lt
    rw [indexValue, if_pos]
    rw [UInt32.le_iff_toNat_le, UInt32.toNat_ofNat_of_lt' (by rw [UInt32.size]; omega)]
    omega
  have hsplit (i : ℕ) : ((indices.count (UInt32.ofNat i) : ℚ) -
      indices.length * r.p.value / (partitions.toNat + 1 : ℕ)) / (1 - r.p.value) *
        boundaryValue minInt maxInt partitions (UInt32.ofNat i) =
      1 / (1 - r.p.value) * (indices.count (UInt32.ofNat i) *
          boundaryValue minInt maxInt partitions (UInt32.ofNat i)) +
        -(indices.length * r.p.value / (partitions.toNat + 1 : ℕ) / (1 - r.p.value)) *
          boundaryValue minInt maxInt partitions (UInt32.ofNat i) := by ring
  have hvalues : (indices.map (indexValue minInt maxInt partitions)).sum =
      ((List.range (partitions.toNat + 1)).map fun i => (indices.count (UInt32.ofNat i) : ℚ) *
        boundaryValue minInt maxInt partitions (UInt32.ofNat i)).sum :=
    (sum_count_mul partitions (boundaryValue minInt maxInt partitions) indices).symm
  rw [IntegerSumEstimator.computeSum, estimatorOf,
    FrequencyEstimator.getFrequenciesFromIndices_eq hne hsize, Option.bind_eq_bind, Option.bind_some,
    List.length_map, List.length_range, foldlM_sum_mul hfrequency hboundary, haverage,
    hvalues]
  simp only [hsplit, List.sum_map_add, List.sum_map_mul_left]
  exact congrArg some (by ring)

/-- The sum that is estimated from what some clients encode. -/
def estimatedSum (e : IntegerSumEstimator) (encoded : List (Option UInt32)) : ℚ :=
  ((encoded.mapM id).bind e.computeSum).getD 0

/-- What an encoded integer adds to the sum. -/
def encodedValue (minInt maxInt : Int64) (partitions : UInt32) (response : Option UInt32) : ℚ :=
  (response.map (indexValue minInt maxInt partitions)).getD 0

namespace IsRounding

variable {roundLaw : FiniteLaw UInt32} (hround : IsRounding minInt maxInt partitions r val roundLaw)

include hround

/-- The encoder returns an index. -/
theorem isSome_of_possible {response : Option UInt32}
    (h : ((encoderOf minInt maxInt partitions).law r val).Possible response) :
    response.isSome := by
  by_contra hnone
  have hpos : 0 < FiniteLaw.prob _ fun o : Option UInt32 => ¬ o.isSome :=
    (FiniteLaw.prob_pos_iff _).mpr ⟨response, h, hnone⟩
  rw [FiniteLaw.prob, hround.expect_law] at hpos
  simp [FiniteLaw.expect_const] at hpos

/-- What an encoded integer adds to the sum on average. -/
theorem expect_encodedValue (hr : r.maxIndex = partitions) :
    ((encoderOf minInt maxInt partitions).law r val).expect (encodedValue minInt maxInt partitions) =
      r.p.value * r.average (indexValue minInt maxInt partitions) +
        (1 - r.p.value) * clamped maxInt val := by
  have hindex (index : UInt32) (h : roundLaw.Possible index) :
      ((r.law index).expect fun response => encodedValue minInt maxInt partitions (some response)) =
        r.p.value * r.average (indexValue minInt maxInt partitions) +
          (1 - r.p.value) * boundaryValue minInt maxInt partitions index := by
    have hle := hround.le index h
    have hmin : min r.maxIndex index = index := ResponseRandomizer.min_eq_of_le (hr ▸ hle)
    have hlaw := r.expect_law index (indexValue minInt maxInt partitions)
    rw [hmin] at hlaw
    exact hlaw.trans (by rw [indexValue, if_pos hle])
  rw [hround.expect_law, FiniteLaw.expect_congr _ hindex, FiniteLaw.expect_add,
    FiniteLaw.expect_const, FiniteLaw.expect_mul_left, hround.expect_value]

end IsRounding

/-- The encoder returns indices. -/
theorem DividesEvenly.isSome_of_possible_sequence (h : DividesEvenly minInt maxInt partitions)
    (hne : partitions ≠ -1) {vals : List Int64} (hvals : ∀ val ∈ vals, minInt ≤ val)
    {encoded : List (Option UInt32)}
    (hpossible : (FiniteLaw.sequence (vals.map ((encoderOf minInt maxInt partitions).law
      r))).Possible encoded) : ∀ response ∈ encoded, response.isSome := by
  intro response hmem
  obtain ⟨law, hlaw, hresponse⟩ := FiniteLaw.exists_possible_of_mem hpossible hmem
  obtain ⟨val, hval, rfl⟩ := List.mem_map.mp hlaw
  obtain ⟨roundLaw, hround⟩ := h.exists_isRounding (r := r) hne (hvals val hval)
  exact hround.isSome_of_possible hresponse

/-- The indices of clients that all return one. -/
theorem mapM_id_eq_some {α : Type} (default : α) {responses : List (Option α)}
    (h : ∀ response ∈ responses, response.isSome) :
    responses.mapM id = some (responses.map fun response => response.getD default) :=
  FrequencyEstimator.mapM_eq_some_map fun response hmem => by
    obtain ⟨index, rfl⟩ := Option.isSome_iff_exists.mp (h response hmem)
    rfl

/-- The sum that is estimated if all integers are encoded. -/
theorem DividesEvenly.estimatedSum_eq (h : DividesEvenly minInt maxInt partitions)
    (hne : partitions ≠ -1) (hr : r.maxIndex = partitions) (boundarySum : Int64)
    {encoded : List (Option UInt32)} (hencoded : ∀ response ∈ encoded, response.isSome)
    (hsize : encoded.length < 2 ^ 64) :
    estimatedSum (estimatorOf minInt maxInt partitions boundarySum r.p.value) encoded =
      1 / (1 - r.p.value) * ((encoded.map (encodedValue minInt maxInt partitions)).sum -
        encoded.length * (r.p.value * r.average (indexValue minInt maxInt partitions))) := by
  have hvalues : (encoded.map fun response => response.getD 0).map
      (indexValue minInt maxInt partitions) =
        encoded.map (encodedValue minInt maxInt partitions) := by
    rw [List.map_map]
    refine List.map_congr_left fun response hmem => ?_
    obtain ⟨index, rfl⟩ := Option.isSome_iff_exists.mp (hencoded response hmem)
    rfl
  rw [estimatedSum, mapM_id_eq_some 0 hencoded, Option.bind_some,
    h.computeSum_eq hne hr boundarySum (by rwa [List.length_map]), hvalues, List.length_map,
    Option.getD_some]

/-- The estimator that the constructor makes. -/
theorem DividesEvenly.eq_estimatorOf_of_new (h : DividesEvenly minInt maxInt partitions)
    (hne : partitions ≠ -1) {p : ℚ} {e : IntegerSumEstimator}
    (hnew : IntegerSumEstimator.new minInt maxInt partitions p = some e) :
    ∃ boundarySum, e = estimatorOf minInt maxInt partitions boundarySum p := by
  rw [IntegerSumEstimator.new, h.populateBoundaries_eq hne, Option.bind_eq_bind,
    Option.bind_some] at hnew
  obtain ⟨boundarySum, -, hnew⟩ := Option.bind_eq_some_iff.mp hnew
  exact ⟨boundarySum, (Option.some.inj hnew).symm⟩

/-- The estimated sum is unbiased in exact arithmetic: its expectation is the sum of the integers
of the clients, where an integer above the range counts as the upper end of the range. -/
theorem DividesEvenly.expect_estimatedSum (h : DividesEvenly minInt maxInt partitions)
    (hne : partitions ≠ -1) (hr : r.maxIndex = partitions) (hp : r.p.value < 1)
    (boundarySum : Int64) {vals : List Int64} (hvals : ∀ val ∈ vals, minInt ≤ val)
    (hsize : vals.length < 2 ^ 64) :
    (FiniteLaw.sequence (vals.map ((encoderOf minInt maxInt partitions).law r))).expect
      (estimatedSum (estimatorOf minInt maxInt partitions boundarySum r.p.value)) =
        (vals.map fun val => (clamped maxInt val : ℚ)).sum := by
  have hscale : 1 - r.p.value ≠ 0 := (sub_pos.mpr hp).ne'
  have hread (encoded : List (Option UInt32))
      (hpossible : (FiniteLaw.sequence (vals.map ((encoderOf minInt maxInt partitions).law
        r))).Possible encoded) :
      estimatedSum (estimatorOf minInt maxInt partitions boundarySum r.p.value) encoded =
        1 / (1 - r.p.value) * ((encoded.map (encodedValue minInt maxInt partitions)).sum -
          vals.length * (r.p.value * r.average (indexValue minInt maxInt partitions))) := by
    have hlength : encoded.length = vals.length := by
      rw [← (FiniteLaw.possible_sequence.mp hpossible).length_eq, List.length_map]
    rw [← hlength]
    exact h.estimatedSum_eq hne hr boundarySum
      (h.isSome_of_possible_sequence hne hvals hpossible) (hlength ▸ hsize)
  have hsum : (vals.map fun val => ((encoderOf minInt maxInt partitions).law r val).expect
      (encodedValue minInt maxInt partitions)).sum =
        vals.length * (r.p.value * r.average (indexValue minInt maxInt partitions)) +
          (1 - r.p.value) * (vals.map fun val => (clamped maxInt val : ℚ)).sum := by
    rw [← List.sum_map_mul_left]
    have hone (val : Int64) (hval : val ∈ vals) :
        ((encoderOf minInt maxInt partitions).law r val).expect
          (encodedValue minInt maxInt partitions) =
          r.p.value * r.average (indexValue minInt maxInt partitions) +
            (1 - r.p.value) * clamped maxInt val := by
      obtain ⟨roundLaw, hround⟩ := h.exists_isRounding (r := r) hne (hvals val hval)
      exact hround.expect_encodedValue hr
    rw [List.map_congr_left hone, List.sum_map_add, List.map_const', List.sum_replicate,
      nsmul_eq_mul]
  rw [FiniteLaw.expect_congr _ hread, FiniteLaw.expect_mul_left, FiniteLaw.expect_sub,
    FiniteLaw.expect_const, FiniteLaw.expect_sequence_sum, List.map_map, Function.comp_def, hsum,
    add_sub_cancel_left, ← mul_assoc, one_div_mul_cancel hscale, one_mul]

end Cobalt.Algorithms
