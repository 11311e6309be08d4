import Cobalt.Algorithms.RandomBits
import Mathlib.Analysis.Real.Sqrt

/-!
# The estimates of Basic RAPPOR

From the counts of the bits the analyzer estimates how often each category was encoded, and the
standard error of the estimate. Here the observations are those of some clients, each of which
encodes its value with words of its own. Although the bits of one observation share words, the
estimate of each category is correct on average up to the rounding of the two thresholds, and the
square of the standard error is on average the variance of the estimate.

The source computes with numbers of type `double`. Here they are rational numbers, and all arithmetic
is exact, without the rounding of floating point. The standard error is a square root that is divided
by `|q - p|`; the model has its square.

## Main definitions

* `BasicRapporAnalyzer.analyze`: the estimates.
* `BasicRapporAnalyzer.stdError`: the standard error as a real number.
* `clientsLaw`, `analysisOf`: the observations of some clients and their analysis.

## Main results

* `BasicRapporAnalyzer.sq_stdError`: the model has the square of the standard error.
* `expect_countEstimate`: the expectation of an estimate.
* `abs_expect_countEstimate_sub_le`: the estimates are unbiased up to the rounding.
* `variance_countEstimate`: the expectation of the square of the standard error is the variance.
-/

namespace Cobalt.Algorithms

/-- `CategoryResult`, with the square of `std_error`. -/
structure CategoryResult where
  category : ValuePart
  countEstimate : ℚ
  stdErrorSquared : ℚ

namespace BasicRapporAnalyzer

/-- The result of a category with some count, in rational numbers, without the rounding of
`double`. -/
def categoryResult (p q N : ℚ) (category : ValuePart) (Y : ℚ) : CategoryResult where
  category := category
  countEstimate := (Y - p * N) / (q - p)
  stdErrorSquared := (Y * (1 - (q + p)) + N * p * q) / (q - p) ^ 2

/-- `Analyze`; a configuration that is not valid has no categories. -/
def analyze (a : BasicRapporAnalyzer) : List CategoryResult :=
  match a.config with
  | none => []
  | some config =>
    config.categories.zipIdx.map fun c =>
      categoryResult config.prob0Becomes1 config.prob1Stays1 a.numObservations c.1
        (a.categoryCounts.getD c.2 0)

/-- `std_error`, as it is computed, in real numbers. -/
noncomputable def stdError (p q N Y : ℝ) : ℝ := √(Y * (1 - (q + p)) + N * p * q) / |q - p|

/-- The radicand is not negative: a category is counted at most once in each observation. -/
theorem sq_stdError {p q N Y : ℚ} (hp : 0 ≤ p ∧ p ≤ 1) (hq : 0 ≤ q ∧ q ≤ 1) (hY : 0 ≤ Y)
    (hle : Y ≤ N) (category : ValuePart) :
    stdError p q N Y ^ 2 = ((categoryResult p q N category Y).stdErrorSquared : ℝ) := by
  have hradicand : 0 ≤ Y * (1 - (q + p)) + N * p * q := by
    have hset := mul_nonneg (mul_nonneg hY (sub_nonneg.mpr hp.2)) (sub_nonneg.mpr hq.2)
    have hunset := mul_nonneg (mul_nonneg (sub_nonneg.mpr hle) hp.1) hq.1
    linarith
  rw [stdError, div_pow, sq_abs, Real.sq_sqrt (by exact_mod_cast hradicand), categoryResult]
  push_cast
  rfl

end BasicRapporAnalyzer

/-! ### The observations of some clients -/

/-- What a client sends: an observation that was encoded without an error. -/
def sent : Option (RapporStatus × List UInt8) → Option (List UInt8)
  | some (.ok, data) => some data
  | _ => none

/-- The bit of a category in what a client sends. -/
def sentBit (i : ℕ) (observation : Option (RapporStatus × List UInt8)) : ℚ :=
  if (sent observation).any fun data => bitSet data i then 1 else 0

/-- The law of what some clients encode, each of them one value with its own words. -/
def clientsLaw (serialize : ValuePart → List UInt8) (config : BasicRapporConfig)
    (clientSecret : List UInt8) (numBytes : ℕ) (values : List ValuePart) :
    FiniteLaw (List (Option (RapporStatus × List UInt8))) :=
  .sequence (values.map (observationLaw serialize config clientSecret numBytes))

/-- The analysis of what some clients send. -/
def analysisOf (serialize : ValuePart → List UInt8) (config : BasicRapporConfig)
    (observations : List (Option (RapporStatus × List UInt8))) : List CategoryResult :=
  (((BasicRapporAnalyzer.new serialize config).addObservations (observations.filterMap sent)).map
    BasicRapporAnalyzer.analyze).getD []

/-- What is read of the result of a category, which is 0 where there is none. -/
def resultOf (read : CategoryResult → ℚ) (i : ℕ) (results : List CategoryResult) : ℚ :=
  (results[i]?.map read).getD 0

variable {serialize : ValuePart → List UInt8} {config : BasicRapporConfig}
  {validator : RapporConfigValidator} {value : ValuePart}

/-- Observations of the right length are all counted. -/
theorem BasicRapporAnalyzer.IsFor.addObservations_of_length {a : BasicRapporAnalyzer}
    (h : a.IsFor validator) (hfits : validator.numBits < 2 ^ 64) {observations : List (List UInt8)}
    (hobservations : ∀ data ∈ observations, data.length = numBytesOf validator.numBits) :
    ∃ a', a.addObservations observations = some a' ∧ a'.IsFor validator ∧
      a'.numObservations = a.numObservations + observations.length ∧
      ∀ i < validator.numBits, (a'.categoryCounts.getD i 0 : ℚ) = a.categoryCounts.getD i 0 +
        (observations.map fun data => if bitSet data i then (1 : ℚ) else 0).sum := by
  induction observations generalizing a with
  | nil => exact ⟨a, rfl, h, rfl, fun i _ => by simp⟩
  | cons data observations ih =>
    obtain ⟨hdata, hrest⟩ := List.forall_mem_cons.mp hobservations
    obtain ⟨a₁, hadd, hfor, hnum, -, hcounts⟩ := h.addObservation_of_length hfits hdata
    obtain ⟨a₂, hadds, hfor', hnum', hcounts'⟩ := ih hfor hrest
    refine ⟨a₂, ?_, hfor', ?_, fun i hi => ?_⟩
    · rw [BasicRapporAnalyzer.addObservations, List.foldlM_cons, hadd]
      exact hadds
    · rw [hnum', hnum, List.length_cons]
      omega
    · rw [hcounts' i hi, hcounts i hi, List.map_cons, List.sum_cons]
      push_cast
      ring

/-- An observation that a client sends, of the right length. -/
def GoodObservation (numBytes : ℕ) (observation : Option (RapporStatus × List UInt8)) : Prop :=
  ∃ data, observation = some (.ok, data) ∧ data.length = numBytes

/-- The analysis of good observations has an estimate for each category. -/
theorem getElem?_analysisOf (hserialize : Function.Injective serialize)
    (hnew : RapporConfigValidator.new serialize config = some validator)
    {observations : List (Option (RapporStatus × List UInt8))}
    (hgood : ∀ o ∈ observations, GoodObservation (numBytesOf validator.numBits) o) {i : ℕ}
    (hi : i < validator.categories.length) :
    (analysisOf serialize config observations)[i]? = some (BasicRapporAnalyzer.categoryResult
      config.prob0Becomes1 config.prob1Stays1 observations.length validator.categories[i]
      (observations.map (sentBit i)).sum) := by
  obtain ⟨hp, hq, hbits, -, -⟩ := RapporConfigValidator.of_new hserialize hnew
  have hfor := BasicRapporAnalyzer.isFor_new hnew
  -- What the clients send are the byte strings of all observations.
  have hsent : (observations.filterMap sent).length = observations.length ∧
      (∀ data ∈ observations.filterMap sent, data.length = numBytesOf validator.numBits) ∧
      (observations.filterMap sent).map (fun data => if bitSet data i then (1 : ℚ) else 0) =
        observations.map (sentBit i) := by
    clear hfor
    induction observations with
    | nil => exact ⟨rfl, fun _ h => absurd h List.not_mem_nil, rfl⟩
    | cons o observations ih =>
      obtain ⟨⟨data, rfl, hdata⟩, hrest⟩ := List.forall_mem_cons.mp hgood
      obtain ⟨hlength, hall, hmap⟩ := ih hrest
      rw [List.filterMap_cons_some (f := sent) rfl]
      refine ⟨congrArg Nat.succ hlength, List.forall_mem_cons.mpr ⟨hdata, hall⟩, ?_⟩
      rw [List.map_cons, List.map_cons, hmap]
      rfl
  obtain ⟨a, hadds, hfor', hnum, hcounts⟩ :=
    hfor.addObservations_of_length (by omega) hsent.2.1
  have hzero : ((BasicRapporAnalyzer.new serialize config).categoryCounts.getD i 0 : ℚ) = 0 := by
    rw [BasicRapporAnalyzer.new, hnew]
    simp
  have hcount := hcounts i hi
  rw [hzero, zero_add, hsent.2.2] at hcount
  have hnum : a.numObservations = observations.length := by
    rw [hnum, hsent.1]
    exact Nat.zero_add _
  rw [analysisOf, hadds, Option.map_some, Option.getD_some, BasicRapporAnalyzer.analyze,
    hfor'.config]
  simp only [List.getElem?_map, List.getElem?_zipIdx, List.getElem?_eq_getElem hi, Option.map_some,
    hcount, hnum, hp, hq, Nat.zero_add]

/-! ### The estimate of a category -/

/-- The threshold is the closest one. -/
theorem abs_effective_sub_le {p : ℚ} (hp : 0 ≤ p) : |effective p - p| ≤ 1 / 2 ^ 33 := by
  have hfloor : 0 ≤ ⌊p * numWords + 1 / 2⌋ := Int.floor_nonneg.mpr (by positivity)
  have hcast : (threshold p : ℚ) = ⌊p * numWords + 1 / 2⌋ := by
    rw [threshold]
    exact_mod_cast congrArg (Int.cast (R := ℚ)) (Int.toNat_of_nonneg hfloor)
  have hle := Int.floor_le (p * numWords + 1 / 2 : ℚ)
  have hlt := Int.lt_floor_add_one (p * numWords + 1 / 2 : ℚ)
  have hwords : (numWords : ℚ) = 2 ^ 32 := by norm_num [numWords]
  rw [effective, hcast, hwords, abs_le]
  rw [hwords] at hle hlt
  constructor
  · rw [le_sub_iff_add_le, le_div_iff₀ (by norm_num)]
    linarith
  · rw [sub_le_iff_le_add, div_le_iff₀ (by norm_num)]
    linarith

theorem abs_mul_le {n x b : ℚ} (hn : 0 ≤ n) (hx : |x| ≤ b) : |n * x| ≤ n * b := by
  rw [abs_mul, abs_of_nonneg hn]
  exact mul_le_mul_of_nonneg_left hx hn

theorem resultOf_eq {read : CategoryResult → ℚ} {i : ℕ} {results : List CategoryResult}
    {result : CategoryResult} (h : results[i]? = some result) :
    resultOf read i results = read result := by
  rw [resultOf, h, Option.map_some, Option.getD_some]

theorem variance_sentBit (law : FiniteLaw (Option (RapporStatus × List UInt8))) (i : ℕ) :
    law.variance (sentBit i) = law.expect (sentBit i) * (1 - law.expect (sentBit i)) :=
  law.variance_indicator _

section Estimate

variable (hserialize : Function.Injective serialize)
  (hnew : RapporConfigValidator.new serialize config = some validator)
  {clientSecret : List UInt8} (hsecret : clientSecret ≠ [])

include hserialize hnew hsecret

/-- What the clients encode are good observations. -/
theorem goodObservation_of_possible (hvalue : value ∈ validator.categories)
    {o : Option (RapporStatus × List UInt8)}
    (ho : (observationLaw serialize config clientSecret (numBytesOf validator.numBits)
      value).Possible o) :
    GoodObservation (numBytesOf validator.numBits) o := by
  obtain ⟨words, -, rfl⟩ := (FiniteLaw.possible_map _).mp ho
  obtain ⟨data, hencode, hlength, -⟩ :=
    encode_twoMasks hnew hsecret hserialize hvalue words.1 words.2 []
  exact ⟨data, hencode, hlength⟩

/-- The bit of a category in the observation of a value is set with the effective probability. -/
theorem expect_sentBit (hvalue : value ∈ validator.categories) {i : ℕ}
    (hi : i < validator.categories.length) :
    (observationLaw serialize config clientSecret (numBytesOf validator.numBits) value).expect
      (sentBit i) = if value = validator.categories[i] then effective config.prob1Stays1
        else effective config.prob0Becomes1 := by
  obtain ⟨hp, hq, -⟩ := RapporConfigValidator.probabilities_of_new hnew
  obtain ⟨-, -, -, hnodup, -⟩ := RapporConfigValidator.of_new hserialize hnew
  have hindex : i = validator.categories.idxOf value ↔ value = validator.categories[i] := by
    constructor
    · rintro rfl
      exact (List.getElem_idxOf hi).symm
    · rintro rfl
      exact (hnodup.idxOf_getElem i hi).symm
  have hbit (words : List UInt32 × List UInt32) : sentBit i ((rapporEncoderOf serialize config
      clientSecret words.1 words.2).encode serialize value []) =
        if (if value = validator.categories[i] then
            wordBit config.prob1Stays1 words.2 (numBytesOf validator.numBits) i
          else wordBit config.prob0Becomes1 words.1 (numBytesOf validator.numBits) i) then 1
        else 0 := by
    obtain ⟨data, hencode, -, hbits⟩ :=
      encode_twoMasks hnew hsecret hserialize hvalue words.1 words.2 []
    rw [hencode, sentBit, sent, Option.any_some, hbits i hi]
    simp only [hindex]
  rw [observationLaw, FiniteLaw.expect_map]
  simp only [hbit]
  split_ifs with hcategory
  · exact (expect_masksLaw_snd _ fun words =>
      if wordBit config.prob1Stays1 words (numBytesOf validator.numBits) i then 1 else 0).trans
        (expect_wordBit hq.2 hi)
  · exact (expect_masksLaw_fst _ fun words =>
      if wordBit config.prob0Becomes1 words (numBytesOf validator.numBits) i then 1 else 0).trans
        (expect_wordBit hp.2 hi)

variable {values : List ValuePart} (hvalues : ∀ value ∈ values, value ∈ validator.categories)
  {i : ℕ} (hi : i < validator.categories.length)

include hvalues

/-- What the clients send determines the result of a category. -/
theorem getElem?_analysisOf_of_possible {observations : List (Option (RapporStatus × List UInt8))}
    (h : (clientsLaw serialize config clientSecret (numBytesOf validator.numBits) values).Possible
      observations) :
    (analysisOf serialize config observations)[i]? = some (BasicRapporAnalyzer.categoryResult
      config.prob0Becomes1 config.prob1Stays1 values.length validator.categories[i]
      (observations.map (sentBit i)).sum) := by
  have hlength : observations.length = values.length := by
    rw [← (FiniteLaw.possible_sequence.mp h).length_eq, List.length_map]
  rw [← hlength]
  refine getElem?_analysisOf hserialize hnew (fun o ho => ?_) hi
  obtain ⟨law, hlaw, hpossible⟩ := FiniteLaw.exists_possible_of_mem h ho
  obtain ⟨value, hvalue, rfl⟩ := List.mem_map.mp hlaw
  exact goodObservation_of_possible hserialize hnew hsecret (hvalues value hvalue) hpossible

/-- The number of set bits of a category is expected to be that of the clients that encode the
category times the effective `q`, and that of the others times the effective `p`. -/
theorem expect_sum_sentBit :
    (clientsLaw serialize config clientSecret (numBytesOf validator.numBits) values).expect
      (fun observations => (observations.map (sentBit i)).sum) =
        values.count validator.categories[i] * effective config.prob1Stays1 +
          (values.length - values.count validator.categories[i]) *
            effective config.prob0Becomes1 := by
  rw [clientsLaw, FiniteLaw.expect_sequence_sum, List.map_map]
  induction values with
  | nil => simp
  | cons value values ih =>
    obtain ⟨hvalue, hrest⟩ := List.forall_mem_cons.mp hvalues
    rw [List.map_cons, List.sum_cons, ih hrest, Function.comp_apply,
      expect_sentBit hserialize hnew hsecret hvalue hi, List.count_cons, List.length_cons]
    by_cases h : value = validator.categories[i]
    · rw [if_pos h, h, beq_self_eq_true, if_pos rfl]
      push_cast
      ring
    · rw [if_neg h, if_neg (by simpa using h)]
      push_cast
      ring

/-- The variance of the number of set bits of a category. -/
theorem variance_sum_sentBit :
    (clientsLaw serialize config clientSecret (numBytesOf validator.numBits) values).variance
      (fun observations => (observations.map (sentBit i)).sum) =
        values.count validator.categories[i] *
            (effective config.prob1Stays1 * (1 - effective config.prob1Stays1)) +
          (values.length - values.count validator.categories[i]) *
            (effective config.prob0Becomes1 * (1 - effective config.prob0Becomes1)) := by
  rw [clientsLaw, FiniteLaw.variance_sequence_sum, List.map_map]
  induction values with
  | nil => simp
  | cons value values ih =>
    obtain ⟨hvalue, hrest⟩ := List.forall_mem_cons.mp hvalues
    rw [List.map_cons, List.sum_cons, ih hrest, Function.comp_apply, variance_sentBit,
      expect_sentBit hserialize hnew hsecret hvalue hi, List.count_cons, List.length_cons]
    by_cases h : value = validator.categories[i]
    · rw [if_pos h, h, beq_self_eq_true, if_pos rfl]
      push_cast
      ring
    · rw [if_neg h, if_neg (by simpa using h)]
      push_cast
      ring

/-- The expectation of an estimate. -/
theorem expect_countEstimate :
    (clientsLaw serialize config clientSecret (numBytesOf validator.numBits) values).expect
      (fun observations =>
        resultOf CategoryResult.countEstimate i (analysisOf serialize config observations)) =
      (values.count validator.categories[i] * effective config.prob1Stays1 +
        (values.length - values.count validator.categories[i]) * effective config.prob0Becomes1 -
          config.prob0Becomes1 * values.length) / (config.prob1Stays1 - config.prob0Becomes1) := by
  have hread (observations : List (Option (RapporStatus × List UInt8)))
      (h : (clientsLaw serialize config clientSecret (numBytesOf validator.numBits)
        values).Possible observations) :
      resultOf CategoryResult.countEstimate i (analysisOf serialize config observations) =
        1 / (config.prob1Stays1 - config.prob0Becomes1) *
          ((observations.map (sentBit i)).sum - config.prob0Becomes1 * values.length) :=
    (resultOf_eq (getElem?_analysisOf_of_possible hserialize hnew hsecret hvalues hi h)).trans
      (one_div_mul_eq_div _ _).symm
  rw [FiniteLaw.expect_congr _ hread, FiniteLaw.expect_mul_left, FiniteLaw.expect_sub,
    FiniteLaw.expect_const, expect_sum_sentBit hserialize hnew hsecret hvalues hi,
    one_div_mul_eq_div]

/-- **The estimates are unbiased up to the rounding of the thresholds**, in exact arithmetic: the
expectation of the estimate of a category differs from the number of clients that encode it by at
most `N / (2^33 |q - p|)`, and not at all if `p` and `q` are multiples of `1/2^32`. -/
theorem abs_expect_countEstimate_sub_le :
    |(clientsLaw serialize config clientSecret (numBytesOf validator.numBits) values).expect
        (fun observations =>
          resultOf CategoryResult.countEstimate i (analysisOf serialize config observations)) -
      values.count validator.categories[i]| ≤
        values.length / (2 ^ 33 * |config.prob1Stays1 - config.prob0Becomes1|) ∧
    (effective config.prob0Becomes1 = config.prob0Becomes1 →
      effective config.prob1Stays1 = config.prob1Stays1 →
      (clientsLaw serialize config clientSecret (numBytesOf validator.numBits) values).expect
        (fun observations =>
          resultOf CategoryResult.countEstimate i (analysisOf serialize config observations)) =
        values.count validator.categories[i]) := by
  obtain ⟨hp, hq, hne⟩ := RapporConfigValidator.probabilities_of_new hnew
  have hdivisor : config.prob1Stays1 - config.prob0Becomes1 ≠ 0 := sub_ne_zero.mpr hne.symm
  have hcount : (values.count validator.categories[i] : ℚ) ≤ values.length := by
    exact_mod_cast List.count_le_length
  have hexpect := expect_countEstimate hserialize hnew hsecret hvalues hi
  have hbias := hexpect.trans (b := _) (c := values.count validator.categories[i] +
    (values.count validator.categories[i] * (effective config.prob1Stays1 - config.prob1Stays1) +
      (values.length - values.count validator.categories[i]) *
        (effective config.prob0Becomes1 - config.prob0Becomes1)) /
          (config.prob1Stays1 - config.prob0Becomes1)) (by field_simp; ring)
  rw [hbias]
  constructor
  · have hrounding := (abs_add_le _ _).trans (add_le_add
      (abs_mul_le (Nat.cast_nonneg (values.count validator.categories[i]))
        (abs_effective_sub_le hq.1))
      (abs_mul_le (sub_nonneg.mpr hcount) (abs_effective_sub_le hp.1)))
    rw [add_sub_cancel_left, abs_div, ← div_div]
    refine div_le_div_of_nonneg_right (hrounding.trans_eq ?_) (abs_nonneg _)
    ring
  · intro hp' hq'
    rw [hp', hq', sub_self, sub_self, mul_zero, mul_zero, add_zero, zero_div, add_zero]

include hi in
/-- **The square of the standard error is on average the variance of the estimate** in exact
arithmetic, if `p` and `q` are multiples of `1/2^32`. -/
theorem variance_countEstimate (hp : effective config.prob0Becomes1 = config.prob0Becomes1)
    (hq : effective config.prob1Stays1 = config.prob1Stays1) :
    (clientsLaw serialize config clientSecret (numBytesOf validator.numBits) values).variance
        (fun observations =>
          resultOf CategoryResult.countEstimate i (analysisOf serialize config observations)) =
      (clientsLaw serialize config clientSecret (numBytesOf validator.numBits) values).expect
        (fun observations =>
          resultOf CategoryResult.stdErrorSquared i (analysisOf serialize config observations)) := by
  obtain ⟨-, -, hne⟩ := RapporConfigValidator.probabilities_of_new hnew
  have hdivisor : config.prob1Stays1 - config.prob0Becomes1 ≠ 0 := sub_ne_zero.mpr hne.symm
  have hestimate (observations : List (Option (RapporStatus × List UInt8)))
      (h : (clientsLaw serialize config clientSecret (numBytesOf validator.numBits)
        values).Possible observations) :
      resultOf CategoryResult.countEstimate i (analysisOf serialize config observations) =
        1 / (config.prob1Stays1 - config.prob0Becomes1) * (observations.map (sentBit i)).sum +
          -(config.prob0Becomes1 * values.length / (config.prob1Stays1 - config.prob0Becomes1)) := by
    rw [resultOf_eq (getElem?_analysisOf_of_possible hserialize hnew hsecret hvalues hi h),
      BasicRapporAnalyzer.categoryResult]
    ring
  have herror (observations : List (Option (RapporStatus × List UInt8)))
      (h : (clientsLaw serialize config clientSecret (numBytesOf validator.numBits)
        values).Possible observations) :
      resultOf CategoryResult.stdErrorSquared i (analysisOf serialize config observations) =
        (1 - (config.prob1Stays1 + config.prob0Becomes1)) /
            (config.prob1Stays1 - config.prob0Becomes1) ^ 2 * (observations.map (sentBit i)).sum +
          values.length * config.prob0Becomes1 * config.prob1Stays1 /
            (config.prob1Stays1 - config.prob0Becomes1) ^ 2 := by
    rw [resultOf_eq (getElem?_analysisOf_of_possible hserialize hnew hsecret hvalues hi h),
      BasicRapporAnalyzer.categoryResult]
    ring
  rw [FiniteLaw.variance_congr _ hestimate, FiniteLaw.variance_affine,
    variance_sum_sentBit hserialize hnew hsecret hvalues hi, FiniteLaw.expect_congr _ herror,
    FiniteLaw.expect_add, FiniteLaw.expect_mul_left, FiniteLaw.expect_const,
    expect_sum_sentBit hserialize hnew hsecret hvalues hi, hp, hq]
  field_simp
  ring

end Estimate

/-- Three clients that encode the categories 0, 3 and 0 of ten. -/
theorem abs_expect_countEstimate_sub_le_ten :
    (clientsLaw serializeToString tenCategories [7] 2
        [.indexValue 0, .indexValue 3, .indexValue 0]).expect (fun observations =>
      resultOf CategoryResult.countEstimate 0 (analysisOf serializeToString tenCategories
        observations)) = 2 := by
  obtain ⟨validator, hnew, hcategories, hbytes⟩ := exists_tenCategories
  have hvalues : ∀ value ∈ [ValuePart.indexValue 0, .indexValue 3, .indexValue 0],
      value ∈ validator.categories := by
    rw [hcategories]
    decide
  have hi : 0 < validator.categories.length := by
    rw [hcategories]
    decide
  have hcount : validator.categories[0] = .indexValue 0 := by
    simp only [hcategories]
    rfl
  have h := (abs_expect_countEstimate_sub_le serializeToString_injective hnew
    (List.cons_ne_nil 7 []) hvalues hi).2 effective_tenCategories.1 effective_tenCategories.2
  have htwo : [ValuePart.indexValue 0, .indexValue 3, .indexValue 0].count (.indexValue 0) = 2 := by
    decide
  rw [hbytes, hcount, htwo] at h
  exact_mod_cast h

/-- The estimate of the same clients for the category 3. -/
theorem variance_countEstimate_ten :
    (clientsLaw serializeToString tenCategories [7] 2
        [.indexValue 0, .indexValue 3, .indexValue 0]).variance (fun observations =>
      resultOf CategoryResult.countEstimate 3 (analysisOf serializeToString tenCategories
        observations)) =
    (clientsLaw serializeToString tenCategories [7] 2
        [.indexValue 0, .indexValue 3, .indexValue 0]).expect (fun observations =>
      resultOf CategoryResult.stdErrorSquared 3 (analysisOf serializeToString tenCategories
        observations)) := by
  obtain ⟨validator, hnew, hcategories, hbytes⟩ := exists_tenCategories
  have hvalues : ∀ value ∈ [ValuePart.indexValue 0, .indexValue 3, .indexValue 0],
      value ∈ validator.categories := by
    rw [hcategories]
    decide
  have hi : 3 < validator.categories.length := by
    rw [hcategories]
    decide
  have h := variance_countEstimate serializeToString_injective hnew (List.cons_ne_nil 7 []) hvalues
    hi effective_tenCategories.1 effective_tenCategories.2
  rwa [hbytes] at h

end Cobalt.Algorithms
