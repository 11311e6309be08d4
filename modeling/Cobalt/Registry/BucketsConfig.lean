import Mathlib.Algebra.Order.Ring.Int
import Mathlib.Data.Int.ConditionallyCompleteOrder
import Mathlib.Data.List.Basic
import Mathlib.Data.Set.Defs
import Mathlib.Tactic.Linarith
import Cobalt.Lib.MachineInt

/-!
# Integer buckets

A histogram over integers is kept by bucket. The registry describes the buckets by a message
`IntegerBuckets`, which its parser validates, and an `IntegerBucketConfig` made of the message holds
the floors of the buckets and finds the bucket of a value.

The values have the types of the source: `std::int64_t` is `Int64` and `std::uint32_t` is `UInt32`.
The arithmetic on an unsigned type wraps. The source computes the floor of a linear bucket with the
product of two values of type `std::uint32_t`, which wraps before it is added to a value of 64 bits,
and the number of floors with a sum of that type.

## Main definitions

* `IntegerBuckets`, `validateIntBuckets`: the message and its validation.
* `IntegerBucketConfig.createFromProto`: the buckets of a message.
* `IntegerBucketConfig.bucketIndex`, `IntegerBucketConfig.bucketFloor`.
* `IntegerBucketConfig.bucket`: the documented interval of a bucket.

## Main results

* `IntegerBucketConfig.bucketIndex_spec`: a value is in one bucket only, the one that is found.
* `IntegerBuckets.boundariesAsDocumented_iff`: for which messages the floors are the documented
  boundaries.
-/

namespace Cobalt.Config

/-- `ExponentialIntegerBuckets`. -/
structure ExponentialIntegerBuckets where
  floor : Int64
  numBuckets : UInt32
  initialStep : UInt32
  stepMultiplier : UInt32
  deriving DecidableEq, Repr

/-- `LinearIntegerBuckets`. -/
structure LinearIntegerBuckets where
  floor : Int64
  numBuckets : UInt32
  stepSize : UInt32
  deriving DecidableEq, Repr

/-- `IntegerBuckets`: the `oneof` field `buckets`. -/
inductive IntegerBuckets
  | bucketsNotSet
  | exponential (e : ExponentialIntegerBuckets)
  | linear (l : LinearIntegerBuckets)
  deriving DecidableEq, Repr

/-- `validateIntBuckets`. -/
def validateIntBuckets : IntegerBuckets → Except String Unit
  | .linear l =>
    if l.numBuckets < 1 then
      .error "Linear bucket must set a num_buckets greater than or equal to 1."
    else if l.stepSize < 1 then
      .error "Linear bucket must set a step_size greater than or equal to 1."
    else .ok ()
  | .exponential e =>
    if e.numBuckets < 1 then
      .error "Exponential bucket must set a num_buckets greater than or equal to 1."
    else if e.initialStep < 1 then
      .error "Exponential bucket must set an InitialStep greater than or equal to 1."
    else if e.stepMultiplier < 1 then
      .error "Exponential bucket must set a step_multiplier greater than or equal to 1."
    else .ok ()
  | .bucketsNotSet =>
    .error "int_config must define either a linear or exponential bucket definition."

/-- `IntegerBucketConfig`. The constructor is private, and every vector of floors that it is given
has a size of type `std::uint32_t`. -/
structure IntegerBucketConfig where
  floors : List Int64
  size_lt : floors.length < 2 ^ 32

namespace IntegerBucketConfig

/-- `floors_[i]`; the source reads it only for an index of the vector. -/
def floorAt (c : IntegerBucketConfig) (i : ℕ) : Int64 := c.floors.getD i 0

/-- `BucketIndex`: the underflow bucket, or the first of the others whose interval holds the value,
or the overflow bucket. -/
def bucketIndex (c : IntegerBucketConfig) (val : Int64) : ℕ :=
  if val < c.floorAt 0 then 0
  else
    ((List.range' 1 (c.floors.length - 1)).find? fun i =>
      c.floorAt (i - 1) ≤ val ∧ val < c.floorAt i).getD (U32.ofNat c.floors.length)

/-- `UnderflowBucket`. -/
def underflowBucket (_ : IntegerBucketConfig) : ℕ := 0

/-- `OverflowBucket`. -/
def overflowBucket (c : IntegerBucketConfig) : ℕ := U32.ofNat c.floors.length

/-- `BucketFloor`. -/
def bucketFloor (c : IntegerBucketConfig) (index : ℕ) : Int64 :=
  if 0 < index ∧ index ≤ c.floors.length then c.floorAt (index - 1) else Int64.minValue

/-- The documented interval of a bucket: from `INT64_MIN` to the first floor, from one floor to the
next, from the last floor to `INT64_MAX`. -/
def bucket (c : IntegerBucketConfig) (i : ℕ) : Set Int64 :=
  if i = 0 then {v | Int64.minValue ≤ v ∧ v < c.floorAt 0}
  else if i = c.floors.length then
    {v | c.floorAt (c.floors.length - 1) ≤ v ∧ v ≤ Int64.maxValue}
  else {v | c.floorAt (i - 1) ≤ v ∧ v < c.floorAt i}

/-! ### The bucket of a value -/

variable {c : IntegerBucketConfig} {i j : ℕ} {v w : Int64}

@[simp] theorem ofNat_length (c : IntegerBucketConfig) :
    U32.ofNat c.floors.length = c.floors.length :=
  U32.ofNat_of_lt c.size_lt

@[simp] theorem overflowBucket_eq (c : IntegerBucketConfig) :
    c.overflowBucket = c.floors.length :=
  c.ofNat_length

theorem getElem?_eq_some_floorAt (hi : i < c.floors.length) :
    c.floors[i]? = some (c.floorAt i) := by
  rw [floorAt, List.getElem?_eq_getElem hi, List.getElem_eq_getD 0]

theorem floorAt_mono (hsorted : c.floors.Pairwise (· ≤ ·)) (hij : i ≤ j)
    (hj : j < c.floors.length) : c.floorAt i ≤ c.floorAt j := by
  have hi : i < c.floors.length := hij.trans_lt hj
  obtain hlt | rfl := Nat.lt_or_eq_of_le hij
  · have hle := List.pairwise_iff_getElem.mp hsorted i j hi hj hlt
    rwa [List.getElem_eq_getD 0, List.getElem_eq_getD 0] at hle
  · exact Int64.le_refl _

/-- A value of a bucket that is not the underflow bucket is at least the floor before it. -/
theorem floorAt_le_of_mem_bucket (hi : 0 < i) (hv : v ∈ c.bucket i) : c.floorAt (i - 1) ≤ v := by
  rw [bucket, if_neg hi.ne'] at hv
  split_ifs at hv with hlast
  · rw [hlast]
    exact hv.1
  · exact hv.1

/-- A value of a bucket that is not the overflow bucket is below the floor after it. -/
theorem lt_floorAt_of_mem_bucket (hi : i < c.floors.length) (hv : v ∈ c.bucket i) :
    v < c.floorAt i := by
  rw [bucket] at hv
  split_ifs at hv with hfirst hlast
  · rw [hfirst]
    exact hv.2
  · omega
  · exact hv.2

/-- The buckets are in the order of their values. -/
theorem le_of_mem_bucket (hsorted : c.floors.Pairwise (· ≤ ·)) (hi : i ≤ c.overflowBucket)
    (hv : v ∈ c.bucket i) (hw : w ∈ c.bucket j) (hvw : v ≤ w) : i ≤ j := by
  rw [overflowBucket_eq] at hi
  by_contra! hji
  have hfloors : c.floorAt j ≤ c.floorAt (i - 1) :=
    floorAt_mono hsorted (by omega) (by omega)
  have hlow : c.floorAt (i - 1) ≤ v := floorAt_le_of_mem_bucket (by omega) hv
  have hhigh : w < c.floorAt j := lt_floorAt_of_mem_bucket (by omega) hw
  rw [Int64.le_iff_toInt_le] at hfloors hlow hvw
  rw [Int64.lt_iff_toInt_lt] at hhigh
  omega

theorem bucketIndex_le (c : IntegerBucketConfig) (v : Int64) :
    c.bucketIndex v ≤ c.overflowBucket := by
  rw [bucketIndex, overflowBucket_eq, ofNat_length]
  split_ifs with hlow
  · exact Nat.zero_le _
  cases hfind : (List.range' 1 (c.floors.length - 1)).find? fun i =>
      decide (c.floorAt (i - 1) ≤ v ∧ v < c.floorAt i) with
  | none => exact le_rfl
  | some i =>
    have hmem := (List.find?_range'_eq_some.mp hfind).2.1
    rw [List.mem_range'_1] at hmem
    simp only [Option.getD_some]
    omega

/-- Where no interval between two floors holds a value that is not below the first one, the value is
not below any. -/
theorem floorAt_le_of_forall_not (hlow : ¬ v < c.floorAt 0)
    (hnone : ∀ i, 1 ≤ i → i < c.floors.length → ¬ (c.floorAt (i - 1) ≤ v ∧ v < c.floorAt i)) :
    ∀ i, i < c.floors.length → c.floorAt i ≤ v
  | 0, _ => Int64.not_lt.mp hlow
  | i + 1, hi => by
    have hbefore : c.floorAt i ≤ v := floorAt_le_of_forall_not hlow hnone i (by omega)
    have hnot := hnone (i + 1) (by omega) hi
    rw [Nat.add_sub_cancel, not_and] at hnot
    exact Int64.not_lt.mp (hnot hbefore)

/-- The value is in the bucket that is found. -/
theorem mem_bucket_bucketIndex (hne : c.floors ≠ []) (v : Int64) :
    v ∈ c.bucket (c.bucketIndex v) := by
  have hpos : 0 < c.floors.length := List.length_pos_iff.mpr hne
  rw [bucketIndex, ofNat_length]
  split_ifs with hlow
  · rw [bucket, if_pos rfl]
    exact ⟨Int64.minValue_le v, hlow⟩
  cases hfind : (List.range' 1 (c.floors.length - 1)).find? fun i =>
      decide (c.floorAt (i - 1) ≤ v ∧ v < c.floorAt i) with
  | none =>
    rw [List.find?_range'_eq_none] at hfind
    have hlast : c.floorAt (c.floors.length - 1) ≤ v := by
      refine floorAt_le_of_forall_not hlow (fun i h1 hi hin => ?_) _ (by omega)
      have hnot := hfind i h1 (by omega)
      rw [decide_eq_true hin] at hnot
      exact absurd hnot (by decide)
    rw [Option.getD_none, bucket, if_neg hpos.ne', if_pos rfl]
    exact ⟨hlast, Int64.le_maxValue v⟩
  | some i =>
    obtain ⟨hin, hmem, -⟩ := List.find?_range'_eq_some.mp hfind
    rw [List.mem_range'_1] at hmem
    rw [Option.getD_some, bucket, if_neg (by omega), if_neg (by omega)]
    exact of_decide_eq_true hin

theorem bucketFloor_le_of_mem_bucket (hv : v ∈ c.bucket i) : c.bucketFloor i ≤ v := by
  rw [bucketFloor]
  split_ifs with hi
  · exact floorAt_le_of_mem_bucket hi.1 hv
  · exact Int64.minValue_le v

/-- **Bucket lookup.** For floors that do not decrease, a value is in the bucket that is found and
in no other, its floor is at most the value and the next one above it, and a larger value is not in
an earlier bucket. -/
theorem bucketIndex_spec (c : IntegerBucketConfig) (hne : c.floors ≠ [])
    (hsorted : c.floors.Pairwise (· ≤ ·)) :
    (∀ v, c.bucketIndex v ≤ c.overflowBucket ∧ c.bucketFloor (c.bucketIndex v) ≤ v ∧
      (c.bucketIndex v ≠ c.overflowBucket →
        ∃ f, c.floors[c.bucketIndex v]? = some f ∧ v < f) ∧
      ∀ i ≤ c.overflowBucket, v ∈ c.bucket i ↔ i = c.bucketIndex v) ∧
    ∀ v w, v ≤ w → c.bucketIndex v ≤ c.bucketIndex w := by
  refine ⟨fun v => ⟨bucketIndex_le c v, bucketFloor_le_of_mem_bucket (mem_bucket_bucketIndex hne v),
    fun hlast => ?_, fun i hi => ⟨fun hv => ?_, ?_⟩⟩, fun v w hvw => ?_⟩
  · have hlt : c.bucketIndex v < c.floors.length :=
      (lt_of_le_of_ne (bucketIndex_le c v) hlast).trans_eq c.overflowBucket_eq
    exact ⟨c.floorAt (c.bucketIndex v), getElem?_eq_some_floorAt hlt,
      lt_floorAt_of_mem_bucket hlt (mem_bucket_bucketIndex hne v)⟩
  · have hfound := mem_bucket_bucketIndex hne v
    exact le_antisymm (le_of_mem_bucket hsorted hi hv hfound (Int64.le_refl v))
      (le_of_mem_bucket hsorted (bucketIndex_le c v) hfound hv (Int64.le_refl v))
  · rintro rfl
    exact mem_bucket_bucketIndex hne v
  · exact le_of_mem_bucket hsorted (bucketIndex_le c v) (mem_bucket_bucketIndex hne v)
      (mem_bucket_bucketIndex hne w) hvw

/-- With floors `0, 10, 10, 20` the values `10` and `20` are in the last of the buckets that have
them as floor. -/
theorem bucketIndex_spec_repeated :
    (⟨[0, 10, 10, 20], by decide⟩ : IntegerBucketConfig).bucketIndex 10 = 3 ∧
      (⟨[0, 10, 10, 20], by decide⟩ : IntegerBucketConfig).bucketIndex 10 ≤
        (⟨[0, 10, 10, 20], by decide⟩ : IntegerBucketConfig).bucketIndex 20 :=
  ⟨by decide, (bucketIndex_spec ⟨[0, 10, 10, 20], by decide⟩ (by decide) (by decide)).2 10 20
    (by decide)⟩

/-! ### The floors of a message -/

/-- What `CreateFromProto` returns: a null pointer or a configuration. The overflow of a signed
addition and a write beyond the end of a vector are undefined behavior. -/
inductive Created
  | null
  | undefined
  | config (c : IntegerBucketConfig)

/-- `i * step_size` of the loop of `CreateLinear`, a product of type `std::uint32_t`. -/
def linearOffset (stepSize : UInt32) (i : ℕ) : ℕ := (UInt32.ofNat i * stepSize).toNat

/-- The floors that the loop of `CreateLinear` writes. -/
def linearFloors (floor : Int64) (numBuckets stepSize : UInt32) : List Int64 :=
  (List.range (numBuckets + 1).toNat).map fun i => floor + Int64.ofNat (linearOffset stepSize i)

theorem length_linearFloors (floor : Int64) (numBuckets stepSize : UInt32) :
    (linearFloors floor numBuckets stepSize).length = (numBuckets + 1).toNat := by
  rw [linearFloors, List.length_map, List.length_range]

theorem length_linearFloors_lt (floor : Int64) (numBuckets stepSize : UInt32) :
    (linearFloors floor numBuckets stepSize).length < 2 ^ 32 :=
  (length_linearFloors floor numBuckets stepSize).trans_lt (UInt32.toNat_lt _)

/-- `CreateLinear`. -/
def createLinear (floor : Int64) (numBuckets stepSize : UInt32) : Created :=
  if numBuckets = 0 then .null
  else if stepSize = 0 then .null
  else if ∀ i < (numBuckets + 1).toNat, floor.toInt + linearOffset stepSize i < 2 ^ 63 then
    .config ⟨linearFloors floor numBuckets stepSize,
      length_linearFloors_lt floor numBuckets stepSize⟩
  else .undefined

/-- The floors that the loop of `CreateExponential` writes in `n` iterations. The addition to an
offset of type `std::uint64_t` is one of that type. -/
def exponentialFloors (floor : Int64) (stepMultiplier : UInt32) : ℕ → UInt64 → List Int64
  | 0, _ => []
  | n + 1, offset =>
    (floor.toUInt64 + offset).toInt64 ::
      exponentialFloors floor stepMultiplier n (offset * stepMultiplier.toUInt64)

theorem length_exponentialFloors (floor : Int64) (stepMultiplier : UInt32) :
    ∀ (n : ℕ) (offset : UInt64), (exponentialFloors floor stepMultiplier n offset).length = n
  | 0, _ => rfl
  | n + 1, offset => by
    rw [exponentialFloors, List.length_cons, length_exponentialFloors floor stepMultiplier n]

theorem length_cons_exponentialFloors_lt (floor : Int64) (numBuckets stepMultiplier : UInt32)
    (offset : UInt64) :
    (floor :: exponentialFloors floor stepMultiplier ((numBuckets + 1).toNat - 1) offset).length <
      2 ^ 32 := by
  have hlt : (numBuckets + 1).toNat < 2 ^ 32 := UInt32.toNat_lt _
  rw [List.length_cons, length_exponentialFloors]
  omega

/-- `CreateExponential`. -/
def createExponential (floor : Int64) (numBuckets initialStep stepMultiplier : UInt32) : Created :=
  if numBuckets = 0 then .null
  else if initialStep = 0 then .null
  else if stepMultiplier = 0 then .null
  else if (numBuckets + 1).toNat = 0 then .undefined
  else
    .config ⟨floor :: exponentialFloors floor stepMultiplier ((numBuckets + 1).toNat - 1)
        initialStep.toUInt64,
      length_cons_exponentialFloors_lt floor numBuckets stepMultiplier initialStep.toUInt64⟩

/-- `CreateFromProto`. -/
def createFromProto : IntegerBuckets → Created
  | .exponential e => createExponential e.floor e.numBuckets e.initialStep e.stepMultiplier
  | .linear l => createLinear l.floor l.numBuckets l.stepSize
  | .bucketsNotSet => .null

end IntegerBucketConfig

namespace IntegerBuckets

/-- The field `num_buckets`. -/
def numBuckets : IntegerBuckets → ℕ
  | .bucketsNotSet => 0
  | .exponential e => e.numBuckets.toNat
  | .linear l => l.numBuckets.toNat

/-- The documented boundary `a[i]`, an integer. -/
def boundary : IntegerBuckets → ℕ → ℤ
  | .bucketsNotSet, _ => 0
  | .exponential e, 0 => e.floor.toInt
  | .exponential e, i + 1 => e.floor.toInt + e.initialStep.toNat * e.stepMultiplier.toNat ^ i
  | .linear l, i => l.floor.toInt + i * l.stepSize.toNat

/-- The documented boundaries of the message are values of type `std::int64_t`. -/
def Representable (b : IntegerBuckets) : Prop :=
  ∀ i ≤ b.numBuckets, -2 ^ 63 ≤ b.boundary i ∧ b.boundary i < 2 ^ 63

/-- Boundaries as documented. The floors made of the message are the documented boundaries, in
order, and the overflow bucket is the one after the last. -/
def BoundariesAsDocumented (b : IntegerBuckets) : Prop :=
  ∃ c, IntegerBucketConfig.createFromProto b = .config c ∧ c.floors.length = b.numBuckets + 1 ∧
    (∀ i ≤ b.numBuckets, (c.floorAt i).toInt = b.boundary i) ∧ c.floors.Pairwise (· ≤ ·) ∧
    c.overflowBucket = b.numBuckets + 1

variable {b : IntegerBuckets} {e : ExponentialIntegerBuckets} {l : LinearIntegerBuckets}

theorem toNat_pos_of_not_lt_one {n : UInt32} (h : ¬ n < 1) : 0 < n.toNat :=
  UInt32.le_iff_toNat_le.mp (UInt32.not_lt.mp h)

theorem ne_zero_of_toNat_pos {n : UInt32} (h : 0 < n.toNat) : n ≠ 0 := by
  rintro rfl
  exact absurd h (by decide)

theorem linear_pos (hvalid : validateIntBuckets (.linear l) = .ok ()) :
    0 < l.numBuckets.toNat ∧ 0 < l.stepSize.toNat := by
  rw [validateIntBuckets] at hvalid
  split_ifs at hvalid with hnum hstep
  exact ⟨toNat_pos_of_not_lt_one hnum, toNat_pos_of_not_lt_one hstep⟩

theorem exponential_pos (hvalid : validateIntBuckets (.exponential e) = .ok ()) :
    0 < e.numBuckets.toNat ∧ 0 < e.initialStep.toNat ∧ 0 < e.stepMultiplier.toNat := by
  rw [validateIntBuckets] at hvalid
  split_ifs at hvalid with hnum hstep hmult
  exact ⟨toNat_pos_of_not_lt_one hnum, toNat_pos_of_not_lt_one hstep,
    toNat_pos_of_not_lt_one hmult⟩

theorem monotone_boundary_linear (l : LinearIntegerBuckets) :
    Monotone (IntegerBuckets.linear l).boundary := by
  intro i j hij
  have hmul : (i * l.stepSize.toNat : ℤ) ≤ j * l.stepSize.toNat := by
    exact_mod_cast Nat.mul_le_mul_right _ hij
  exact Int.add_le_add_left hmul _

theorem monotone_boundary_exponential (hmult : 0 < e.stepMultiplier.toNat) :
    Monotone (IntegerBuckets.exponential e).boundary := by
  refine monotone_nat_of_le_succ fun i => ?_
  cases i with
  | zero => exact Int.le_add_of_nonneg_right (by positivity)
  | succ i =>
    have hpow : e.stepMultiplier.toNat ^ i ≤ e.stepMultiplier.toNat ^ (i + 1) :=
      Nat.pow_le_pow_right hmult (Nat.le_succ i)
    have hmul : (e.initialStep.toNat * e.stepMultiplier.toNat ^ i : ℤ) ≤
        e.initialStep.toNat * e.stepMultiplier.toNat ^ (i + 1) := by
      exact_mod_cast Nat.mul_le_mul_left _ hpow
    exact Int.add_le_add_left hmul _

/-- The floors of a configuration are in order, and the overflow bucket is the one after the last,
where they are boundaries that do not decrease. -/
theorem boundariesAsDocumented_of_floors {c : IntegerBucketConfig} (hmono : Monotone b.boundary)
    (hcreate : IntegerBucketConfig.createFromProto b = .config c)
    (hlength : c.floors.length = b.numBuckets + 1)
    (hfloors : ∀ i ≤ b.numBuckets, (c.floorAt i).toInt = b.boundary i) :
    b.BoundariesAsDocumented := by
  refine ⟨c, hcreate, hlength, hfloors, ?_, by rw [c.overflowBucket_eq, hlength]⟩
  refine List.pairwise_iff_getElem.mpr fun i j hi hj hij => ?_
  rw [List.getElem_eq_getD 0, List.getElem_eq_getD 0, Int64.le_iff_toInt_le]
  calc (c.floorAt i).toInt = b.boundary i := hfloors i (by omega)
    _ ≤ b.boundary j := hmono hij.le
    _ = (c.floorAt j).toInt := (hfloors j (by omega)).symm

/-- A sum that is below `2 ^ 63` is the sum of the integers. -/
theorem toInt_add_ofNat {floor : Int64} {n : ℕ} (h : floor.toInt + n < 2 ^ 63) :
    (floor + Int64.ofNat n).toInt = floor.toInt + n := by
  have hfloor : -2 ^ 63 ≤ floor.toInt := floor.le_toInt
  rw [Int64.toInt_add, Int64.toInt_ofNat', Int64.size, Int.add_bmod_bmod]
  exact Int.bmod_eq_of_le (by omega) (by omega)

theorem toNat_add_one (n : UInt32) : (n + 1).toNat = (n.toNat + 1) % 2 ^ 32 :=
  UInt32.toNat_add n 1

/-! ### Linear buckets -/

theorem linearOffset_eq (stepSize : UInt32) (i : ℕ) :
    IntegerBucketConfig.linearOffset stepSize i = i * stepSize.toNat % 2 ^ 32 := by
  rw [IntegerBucketConfig.linearOffset, UInt32.toNat_mul, UInt32.toNat_ofNat', Nat.mod_mul_mod]

theorem getD_linearFloors {floor : Int64} {numBuckets stepSize : UInt32} {i : ℕ}
    (hi : i < (numBuckets + 1).toNat) :
    (IntegerBucketConfig.linearFloors floor numBuckets stepSize).getD i 0 =
      floor + Int64.ofNat (IntegerBucketConfig.linearOffset stepSize i) := by
  rw [IntegerBucketConfig.linearFloors, List.getD_eq_getElem?_getD, List.getElem?_map,
    List.getElem?_range hi, Option.map_some, Option.getD_some]

/-- What the function returns for a valid message. -/
theorem createFromProto_linear (hvalid : validateIntBuckets (.linear l) = .ok ()) :
    IntegerBucketConfig.createFromProto (.linear l) =
      if ∀ i < (l.numBuckets + 1).toNat,
          l.floor.toInt + IntegerBucketConfig.linearOffset l.stepSize i < 2 ^ 63 then
        .config ⟨IntegerBucketConfig.linearFloors l.floor l.numBuckets l.stepSize,
          IntegerBucketConfig.length_linearFloors_lt l.floor l.numBuckets l.stepSize⟩
      else .undefined := by
  obtain ⟨hnum, hstep⟩ := linear_pos hvalid
  rw [IntegerBucketConfig.createFromProto, IntegerBucketConfig.createLinear,
    if_neg (ne_zero_of_toNat_pos hnum), if_neg (ne_zero_of_toNat_pos hstep)]

/-- The number of floors and the offset of the last one do not wrap where the floors are as
documented. -/
theorem BoundariesAsDocumented.linear (hvalid : validateIntBuckets (.linear l) = .ok ())
    (h : (IntegerBuckets.linear l).BoundariesAsDocumented) :
    l.numBuckets.toNat ≠ 2 ^ 32 - 1 ∧ l.numBuckets.toNat * l.stepSize.toNat < 2 ^ 32 := by
  obtain ⟨c, hcreate, hlength, hfloors, -, -⟩ := h
  have hfloor := hfloors l.numBuckets.toNat le_rfl
  rw [createFromProto_linear hvalid] at hcreate
  split_ifs at hcreate with hsum
  cases hcreate
  rw [numBuckets, IntegerBucketConfig.length_linearFloors] at hlength
  have hlast : l.numBuckets.toNat < (l.numBuckets + 1).toNat := by omega
  rw [IntegerBucketConfig.floorAt, getD_linearFloors hlast, toInt_add_ofNat (hsum _ hlast),
    boundary, linearOffset_eq] at hfloor
  have hlt := UInt32.toNat_lt (l.numBuckets + 1)
  have hmod := Nat.mod_lt (l.numBuckets.toNat * l.stepSize.toNat) (show 0 < 2 ^ 32 by decide)
  refine ⟨by omega, ?_⟩
  have heq : l.numBuckets.toNat * l.stepSize.toNat % 2 ^ 32 =
      l.numBuckets.toNat * l.stepSize.toNat := by
    exact_mod_cast Int.add_left_cancel hfloor
  omega

theorem boundariesAsDocumented_linear (hvalid : validateIntBuckets (.linear l) = .ok ())
    (hrep : (IntegerBuckets.linear l).Representable) (hnum : l.numBuckets.toNat ≠ 2 ^ 32 - 1)
    (hprod : l.numBuckets.toNat * l.stepSize.toNat < 2 ^ 32) :
    (IntegerBuckets.linear l).BoundariesAsDocumented := by
  have hlt := UInt32.toNat_lt l.numBuckets
  have hlength : (l.numBuckets + 1).toNat = l.numBuckets.toNat + 1 := by
    rw [toNat_add_one]
    omega
  have hoffset : ∀ i ≤ l.numBuckets.toNat,
      IntegerBucketConfig.linearOffset l.stepSize i = i * l.stepSize.toNat := by
    intro i hi
    rw [linearOffset_eq]
    exact Nat.mod_eq_of_lt ((Nat.mul_le_mul_right _ hi).trans_lt hprod)
  have hsum : ∀ i ≤ l.numBuckets.toNat,
      l.floor.toInt + IntegerBucketConfig.linearOffset l.stepSize i < 2 ^ 63 := by
    intro i hi
    rw [hoffset i hi, Nat.cast_mul]
    exact (hrep i hi).2
  have hcreate := createFromProto_linear hvalid
  rw [if_pos fun i hi => hsum i (by omega)] at hcreate
  refine boundariesAsDocumented_of_floors (monotone_boundary_linear l) hcreate ?_ fun i hi => ?_
  · exact (IntegerBucketConfig.length_linearFloors _ _ _).trans hlength
  · have hi' : i < (l.numBuckets + 1).toNat := hlength ▸ Nat.lt_succ_of_le hi
    rw [IntegerBucketConfig.floorAt, getD_linearFloors hi', toInt_add_ofNat (hsum i hi),
      hoffset i hi, Nat.cast_mul, boundary]

/-! ### Exponential buckets -/

/-- The floor at index `i` of the loop, whose offset may wrap. -/
theorem getElem?_exponentialFloors (floor : Int64) (stepMultiplier : UInt32) :
    ∀ (n s i : ℕ), i < n →
      (IntegerBucketConfig.exponentialFloors floor stepMultiplier n (UInt64.ofNat s))[i]? =
        some (floor + Int64.ofNat (s * stepMultiplier.toNat ^ i))
  | n + 1, s, 0, _ => by
    rw [IntegerBucketConfig.exponentialFloors, List.getElem?_cons_zero, UInt64.toInt64_add,
      Int64.toInt64_toUInt64, UInt64.toInt64_ofNat', pow_zero, Nat.mul_one]
  | n + 1, s, i + 1, hi => by
    have hoffset : UInt64.ofNat s * stepMultiplier.toUInt64 =
        UInt64.ofNat (s * stepMultiplier.toNat) := by
      rw [UInt64.ofNat_mul, UInt64.ofNat_uInt32ToNat]
    rw [IntegerBucketConfig.exponentialFloors, List.getElem?_cons_succ, hoffset,
      getElem?_exponentialFloors floor stepMultiplier n _ i (by omega), Nat.pow_succ',
      Nat.mul_assoc]

theorem createFromProto_exponential (hvalid : validateIntBuckets (.exponential e) = .ok ()) :
    IntegerBucketConfig.createFromProto (.exponential e) =
      if (e.numBuckets + 1).toNat = 0 then .undefined
      else
        .config ⟨e.floor :: IntegerBucketConfig.exponentialFloors e.floor e.stepMultiplier
            ((e.numBuckets + 1).toNat - 1) e.initialStep.toUInt64,
          IntegerBucketConfig.length_cons_exponentialFloors_lt e.floor e.numBuckets
            e.stepMultiplier e.initialStep.toUInt64⟩ := by
  obtain ⟨hnum, hstep, hmult⟩ := exponential_pos hvalid
  rw [IntegerBucketConfig.createFromProto, IntegerBucketConfig.createExponential,
    if_neg (ne_zero_of_toNat_pos hnum), if_neg (ne_zero_of_toNat_pos hstep),
    if_neg (ne_zero_of_toNat_pos hmult)]

theorem BoundariesAsDocumented.exponential (hvalid : validateIntBuckets (.exponential e) = .ok ())
    (h : (IntegerBuckets.exponential e).BoundariesAsDocumented) :
    e.numBuckets.toNat ≠ 2 ^ 32 - 1 := by
  obtain ⟨c, hcreate, -⟩ := h
  rw [createFromProto_exponential hvalid] at hcreate
  split_ifs at hcreate with hempty
  rw [toNat_add_one] at hempty
  omega

theorem boundariesAsDocumented_exponential
    (hvalid : validateIntBuckets (.exponential e) = .ok ())
    (hrep : (IntegerBuckets.exponential e).Representable)
    (hnum : e.numBuckets.toNat ≠ 2 ^ 32 - 1) :
    (IntegerBuckets.exponential e).BoundariesAsDocumented := by
  obtain ⟨-, -, hmult⟩ := exponential_pos hvalid
  have hlt := UInt32.toNat_lt e.numBuckets
  have hlength : (e.numBuckets + 1).toNat = e.numBuckets.toNat + 1 := by
    rw [toNat_add_one]
    omega
  have hcreate := createFromProto_exponential hvalid
  rw [if_neg (by omega)] at hcreate
  refine boundariesAsDocumented_of_floors (monotone_boundary_exponential hmult) hcreate ?_
    fun i hi => ?_
  · rw [List.length_cons, IntegerBucketConfig.length_exponentialFloors, hlength,
      Nat.add_sub_cancel, numBuckets]
  · cases i with
    | zero => rfl
    | succ i =>
      have hi' : i + 1 ≤ e.numBuckets.toNat := hi
      have hsum : e.floor.toInt + (e.initialStep.toNat * e.stepMultiplier.toNat ^ i : ℕ) <
          2 ^ 63 := by
        push_cast
        exact (hrep (i + 1) hi).2
      rw [IntegerBucketConfig.floorAt, List.getD_eq_getElem?_getD, List.getElem?_cons_succ,
        ← UInt64.ofNat_uInt32ToNat, getElem?_exponentialFloors _ _ _ _ _ (by omega),
        Option.getD_some, toInt_add_ofNat hsum, boundary]
      push_cast
      rfl

/-- **Bucket boundaries.** The floors of a valid message are the documented boundaries if and only
if the number of floors, and for linear buckets the offset of the last one, is below `2 ^ 32`. -/
theorem boundariesAsDocumented_iff (b : IntegerBuckets) (hvalid : validateIntBuckets b = .ok ())
    (hrep : b.Representable) :
    b.BoundariesAsDocumented ↔ b.numBuckets ≠ 2 ^ 32 - 1 ∧
      ∀ l, b = .linear l → l.numBuckets.toNat * l.stepSize.toNat < 2 ^ 32 := by
  cases b with
  | bucketsNotSet => cases hvalid
  | exponential e =>
    refine ⟨fun h => ⟨h.exponential hvalid, fun l hl => by cases hl⟩, fun h => ?_⟩
    exact boundariesAsDocumented_exponential hvalid hrep h.1
  | linear l =>
    refine ⟨fun h => ?_, fun h => boundariesAsDocumented_linear hvalid hrep h.1 (h.2 l rfl)⟩
    obtain ⟨hnum, hprod⟩ := h.linear hvalid
    refine ⟨hnum, fun l' hl' => ?_⟩
    cases hl'
    exact hprod

theorem boundariesAsDocumented_iff_ten :
    (IntegerBuckets.linear ⟨-5, 3, 10⟩).BoundariesAsDocumented :=
  (boundariesAsDocumented_iff (.linear ⟨-5, 3, 10⟩) (by decide)
    (by unfold Representable; decide)).mpr ⟨by decide, fun l hl => by cases hl; decide⟩

/-- Two linear buckets of the size `2 ^ 31`: the last floor is the first one. -/
theorem not_boundariesAsDocumented_of_wrap :
    validateIntBuckets (.linear ⟨0, 2, 2147483648⟩) = .ok () ∧
      (IntegerBuckets.linear ⟨0, 2, 2147483648⟩).Representable ∧
      IntegerBucketConfig.linearFloors 0 2 2147483648 = [0, 2147483648, 0] ∧
      ¬ (IntegerBuckets.linear ⟨0, 2, 2147483648⟩).BoundariesAsDocumented := by
  refine ⟨by decide, by unfold Representable; decide, by decide, fun h => ?_⟩
  exact absurd (h.linear (by decide)).2 (by decide)

end IntegerBuckets

end Cobalt.Config
