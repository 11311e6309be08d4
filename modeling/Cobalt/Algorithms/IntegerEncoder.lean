import Mathlib.Data.Rat.Floor
import Mathlib.Algebra.Order.Field.Rat
import Mathlib.Data.List.GetD
import Mathlib.Tactic.Linarith

/-!
# The integer encoder

An `IntegerEncoder` divides a range of integers into equal parts. It looks for the part of a value
by a binary search over the boundaries of the parts, and snaps the value to one of the two nearest
boundaries by a Bernoulli draw.

The types are those of the source, but the position of a value in its part is a rational number,
without the rounding of `double`.
A result `none` stands for undefined behavior: the overflow of a signed operation, an access outside
of a vector, or a loop that does not end.

The source documents that a value outside of the range is snapped to the nearest end. A value below
the range gets the first part, in which its position is negative.

## Main definitions

* `populateBoundaries`, `IntegerEncoder.new`: the boundaries.
* `IntegerEncoder.getLeftIndex`, `IntegerEncoder.draw`, `IntegerEncoder.encode`.
* `SnapsAsDocumented`: what the encoder is to do for a value.

## Main results

* `populateBoundaries_of_dvd`: the boundaries of a range that is divided evenly.
* `IntegerEncoder.getLeftIndex_spec`: the search ends and finds the part of the value.
* `snapsAsDocumented_iff`: for which values the encoder does what is documented.
-/

namespace Cobalt.Algorithms

/-- The result of a signed operation of 64 bits, which is not to overflow. -/
def signed64 (n : ℤ) : Option Int64 :=
  if -2 ^ 63 ≤ n ∧ n < 2 ^ 63 then some (Int64.ofInt n) else none

/-- `PopulateBoundaries`. The size that the vector is given is a sum of type `uint32_t`. -/
def populateBoundaries (minInt maxInt : Int64) (partitions : UInt32) : Option (List Int64) := do
  let range ← signed64 (maxInt.toInt - minInt.toInt)
  let stepSize ← if partitions = 0 then none else signed64 (range.toInt.tdiv partitions.toNat)
  (List.range (partitions.toNat + 1)).foldlM (fun boundaries (i : ℕ) => do
    let offset ← signed64 (i * stepSize.toInt)
    let boundary ← signed64 (minInt.toInt + offset.toInt)
    if i < boundaries.length then some (boundaries.set i boundary) else none)
    (List.replicate (partitions + 1).toNat 0)

/-- `IntegerEncoder`. -/
structure IntegerEncoder where
  boundaries : List Int64

namespace IntegerEncoder

/-- The constructor. -/
def new (minInt maxInt : Int64) (partitions : UInt32) : Option IntegerEncoder :=
  (populateBoundaries minInt maxInt partitions).map IntegerEncoder.mk

/-- The loop of `GetLeftIndex`, with a bound for the number of its turns. -/
def searchLeft (e : IntegerEncoder) (val : Int64) : ℕ → UInt32 → UInt32 → Option UInt32
  | 0, _, _ => none
  | turns + 1, left, right =>
    if left + 1 < right then do
      let mid := left + (right - left) / 2
      let boundary ← e.boundaries[mid.toNat]?
      if val < boundary then e.searchLeft val turns left mid else e.searchLeft val turns mid right
    else some left

/-- `GetLeftIndex`. -/
def getLeftIndex (e : IntegerEncoder) (val : Int64) : Option UInt32 := do
  let left := 0
  let right := UInt32.ofNat e.boundaries.length - 1
  let first ← e.boundaries[left.toNat]?
  if val ≤ first then return left
  let last ← e.boundaries[right.toNat]?
  if last ≤ val then return right
  e.searchLeft val e.boundaries.length left right

/-- The Bernoulli draw of `RandomRound`, if it makes one: the probability of the draw, which is not
rounded. -/
def draw (e : IntegerEncoder) (val : Int64) (leftIndex : UInt32) : Option (Option ℚ) :=
  if leftIndex.toNat + 1 = e.boundaries.length then some none else do
    let lowerBound ← e.boundaries[leftIndex.toNat]?
    let upperBound ← e.boundaries[(leftIndex + 1).toNat]?
    let width ← signed64 (upperBound.toInt - lowerBound.toInt)
    let distance ← signed64 (val.toInt - lowerBound.toInt)
    if width = 0 then none else some (some ((distance.toInt : ℚ) / width.toInt))

/-- `RandomRound`, where `sample` is a sample of the Bernoulli distribution of a probability. -/
def randomRound (e : IntegerEncoder) (sample : ℚ → UInt32) (val : Int64) (leftIndex : UInt32) :
    Option UInt32 :=
  (e.draw val leftIndex).map fun pos => leftIndex + (pos.map sample).getD 0

/-- `Encode`, where `randomizer` encodes an index. -/
def encode (e : IntegerEncoder) (sample : ℚ → UInt32) (randomizer : UInt32 → UInt32)
    (val : Int64) : Option UInt32 := do
  let leftIndex ← e.getLeftIndex val
  let index ← e.randomRound sample val leftIndex
  return randomizer index

end IntegerEncoder

/-! ### What the encoder is to do -/

/-- The documented result of `GetLeftIndex`: the largest index of a boundary that is at most the
value, and 0 if there is none. -/
def IsLeftIndex (boundaries : List Int64) (val : Int64) (left : ℕ) : Prop :=
  (∃ h : left < boundaries.length, boundaries[left] ≤ val ∧
    ∀ j, ∀ hj : j < boundaries.length, boundaries[j] ≤ val → j ≤ left) ∨
  (left = 0 ∧ ∀ boundary ∈ boundaries, val < boundary)

/-- A value is snapped as documented: the boundaries increase from one end of the range to the
other, the search finds the boundary at the left, and the probability of the draw is in the unit
interval, and 0 for a boundary and for a value out of range. -/
def SnapsAsDocumented (minInt maxInt : Int64) (partitions : UInt32) (val : Int64) : Prop :=
  ∃ e, IntegerEncoder.new minInt maxInt partitions = some e ∧
    e.boundaries.head? = some minInt ∧ e.boundaries.getLast? = some maxInt ∧
    e.boundaries.Pairwise (· < ·) ∧
    ∃ left, e.getLeftIndex val = some left ∧ IsLeftIndex e.boundaries val left.toNat ∧
      (∃ pos, e.draw val left = some pos ∧
        ∀ p ∈ pos, 0 ≤ p ∧ p ≤ 1 ∧
          (val ∈ e.boundaries ∨ val < minInt ∨ maxInt < val → p = 0)) ∧
      ∀ sample randomizer, sample 0 = 0 →
        (val < minInt → e.encode sample randomizer val = some (randomizer 0)) ∧
        (maxInt < val → e.encode sample randomizer val = some (randomizer partitions))

/-! ### The boundaries -/

variable {minInt maxInt val : Int64} {partitions : UInt32} {e : IntegerEncoder}

theorem signed64_of_le {n : ℤ} (hmin : -2 ^ 63 ≤ n) (hmax : n < 2 ^ 63) :
    signed64 n = some (Int64.ofInt n) :=
  if_pos ⟨hmin, hmax⟩

theorem toInt_signed64 {n : ℤ} {x : Int64} (h : signed64 n = some x) : x.toInt = n := by
  obtain ⟨⟨hmin, hmax⟩, hx⟩ := Option.ite_none_right_eq_some.mp h
  rw [← Option.some.inj hx]
  exact Int64.toInt_ofInt_of_le hmin hmax

/-- A loop that writes one entry after the other of a vector that is long enough. -/
theorem foldlM_set_range {α : Type} (f : ℕ → α) (g : ℕ → Option α) (l : List α) (n : ℕ)
    (hn : n ≤ l.length) (hg : ∀ i < n, g i = some (f i)) :
    (List.range n).foldlM (fun l i => do
      let a ← g i
      if i < l.length then some (l.set i a) else none) l =
      some ((List.range n).map f ++ l.drop n) := by
  induction n with
  | zero => rfl
  | succ n ih =>
    have hwritten : ((List.range n).map f).length = n := by rw [List.length_map, List.length_range]
    have hlength : n < ((List.range n).map f ++ l.drop n).length := by
      rw [List.length_append, hwritten, List.length_drop]
      omega
    have hset : ((List.range n).map f ++ l.drop n).set n (f n) =
        (List.range n ++ [n]).map f ++ l.drop (n + 1) := by
      rw [List.set_append_right n (f n) hwritten.le, hwritten, Nat.sub_self,
        List.drop_eq_getElem_cons hn, List.set_cons_zero, List.map_append, List.append_assoc]
      rfl
    rw [List.range_succ, List.foldlM_append, ih (Nat.le_of_succ_le hn) fun i hi => hg i (by omega),
      ← hset]
    simp only [Option.bind_eq_bind, Option.bind_some, List.foldlM_cons, List.foldlM_nil,
      hg n (Nat.lt_succ_self n), if_pos hlength]
    rfl

/-- The parameters are as documented: a range whose width fits in 64 bits, divided into a number
of parts that divides its width. -/
structure DividesEvenly (minInt maxInt : Int64) (partitions : UInt32) : Prop where
  lt : minInt.toInt < maxInt.toInt
  width_lt : maxInt.toInt - minInt.toInt < 2 ^ 63
  pos : 1 ≤ partitions.toNat
  dvd : (partitions.toNat : ℤ) ∣ maxInt.toInt - minInt.toInt

/-- The width of a part. -/
def stepOf (minInt maxInt : Int64) (partitions : UInt32) : ℤ :=
  (maxInt.toInt - minInt.toInt) / partitions.toNat

/-- The boundaries of a range that is divided evenly. -/
def boundariesOf (minInt maxInt : Int64) (partitions : UInt32) : List Int64 :=
  (List.range (partitions.toNat + 1)).map fun i : ℕ =>
    Int64.ofInt (minInt.toInt + i * stepOf minInt maxInt partitions)

namespace DividesEvenly

variable (h : DividesEvenly minInt maxInt partitions) {i : ℕ}

include h

theorem mul_stepOf : partitions.toNat * stepOf minInt maxInt partitions =
    maxInt.toInt - minInt.toInt :=
  Int.mul_ediv_cancel' h.dvd

theorem stepOf_pos : 0 < stepOf minInt maxInt partitions := by
  have hlt := h.lt
  exact Int.ediv_pos_of_pos_of_dvd (by omega) (by omega) h.dvd

theorem stepOf_le : stepOf minInt maxInt partitions ≤ maxInt.toInt - minInt.toInt := by
  have hlt := h.lt
  exact Int.ediv_le_self _ (by omega)

/-- The offset of a boundary is at most the width of the range. -/
theorem mul_stepOf_le (hi : i ≤ partitions.toNat) :
    0 ≤ i * stepOf minInt maxInt partitions ∧
      i * stepOf minInt maxInt partitions ≤ maxInt.toInt - minInt.toInt := by
  have hstep := h.stepOf_pos
  rw [← h.mul_stepOf]
  refine ⟨Int.mul_nonneg (Int.natCast_nonneg i) hstep.le, ?_⟩
  exact Int.mul_le_mul_of_nonneg_right (Int.ofNat_le.mpr hi) hstep.le

/-- The boundary of an index. -/
theorem toInt_boundary (hi : i ≤ partitions.toNat) :
    (Int64.ofInt (minInt.toInt + i * stepOf minInt maxInt partitions)).toInt =
      minInt.toInt + i * stepOf minInt maxInt partitions := by
  obtain ⟨hlow, hhigh⟩ := h.mul_stepOf_le hi
  have hmin := minInt.le_toInt
  have hmax := maxInt.toInt_lt
  exact Int64.toInt_ofInt_of_le (by omega) (by omega)

end DividesEvenly

theorem toNat_add_one {n : UInt32} (hne : n ≠ -1) : (n + 1).toNat = n.toNat + 1 := by
  have hne' : n.toNat ≠ 2 ^ 32 - 1 := fun h => hne (UInt32.toNat.inj h)
  have hlt := n.toNat_lt
  have hone : (1 : UInt32).toNat = 1 := rfl
  rw [UInt32.toNat_add, hone]
  exact Nat.mod_eq_of_lt (by omega)

/-- The boundaries of a range that is divided evenly, whose number fits in 32 bits. -/
theorem DividesEvenly.populateBoundaries_eq (h : DividesEvenly minInt maxInt partitions)
    (hne : partitions ≠ -1) :
    populateBoundaries minInt maxInt partitions =
      some (boundariesOf minInt maxInt partitions) := by
  have hlt := h.lt
  have hrange := h.width_lt
  have hstep := h.stepOf_pos
  have hstep_le := h.stepOf_le
  have hzero : partitions ≠ 0 := by
    rintro rfl
    exact absurd h.pos (by decide)
  have hsize := toNat_add_one hne
  have hwidth : (Int64.ofInt (maxInt.toInt - minInt.toInt)).toInt =
      maxInt.toInt - minInt.toInt := Int64.toInt_ofInt_of_le (by omega) hrange
  have hdiv : (maxInt.toInt - minInt.toInt).tdiv partitions.toNat =
      stepOf minInt maxInt partitions := Int.tdiv_eq_ediv_of_nonneg (by omega)
  have hstep_eq : (Int64.ofInt (stepOf minInt maxInt partitions)).toInt =
      stepOf minInt maxInt partitions := Int64.toInt_ofInt_of_le (by omega) (by omega)
  have hvalue (i : ℕ) (hi : i < partitions.toNat + 1) :
      (do
        let offset ← signed64 (i * stepOf minInt maxInt partitions)
        signed64 (minInt.toInt + offset.toInt)) =
        some (Int64.ofInt (minInt.toInt + i * stepOf minInt maxInt partitions)) := by
    obtain ⟨hlow, hhigh⟩ := h.mul_stepOf_le (Nat.le_of_lt_succ hi)
    have hmin := minInt.le_toInt
    have hmax := maxInt.toInt_lt
    rw [signed64_of_le (by omega) (by omega), Option.bind_eq_bind, Option.bind_some,
      Int64.toInt_ofInt_of_le (by omega) (by omega), signed64_of_le (by omega) (by omega)]
  have hwrites := foldlM_set_range _ _ (List.replicate (partitions.toNat + 1) (0 : Int64))
    (partitions.toNat + 1) (by rw [List.length_replicate]) hvalue
  rw [List.drop_replicate, Nat.sub_self, List.replicate_zero, List.append_nil] at hwrites
  rw [populateBoundaries, signed64_of_le (by omega) hrange, Option.bind_eq_bind, Option.bind_some,
    if_neg hzero, hwidth, hdiv, signed64_of_le (by omega) (by omega), Option.bind_some,
    boundariesOf, ← hwrites]
  simp only [hstep_eq, hsize, Option.bind_eq_bind, Option.bind_assoc]

/-- The vector of the boundaries is empty if their number does not fit in 32 bits. -/
theorem populateBoundaries_neg_one (minInt maxInt : Int64) :
    populateBoundaries minInt maxInt (-1) = none := by
  rw [populateBoundaries]
  refine Option.bind_eq_none_iff.mpr fun range _ => ?_
  refine Option.bind_eq_none_iff.mpr fun stepSize _ => ?_
  have hempty : List.replicate ((-1 : UInt32) + 1).toNat (0 : Int64) = [] := rfl
  simp only [hempty, List.range_succ_eq_map, List.foldlM_cons]
  refine Option.bind_eq_none_iff.mpr fun boundaries hfirst => ?_
  obtain ⟨offset, -, hfirst⟩ := Option.bind_eq_some_iff.mp hfirst
  obtain ⟨boundary, -, hfirst⟩ := Option.bind_eq_some_iff.mp hfirst
  cases hfirst

/-! ### The search -/

/-- The encoder of a range that is divided evenly. -/
def encoderOf (minInt maxInt : Int64) (partitions : UInt32) : IntegerEncoder :=
  ⟨boundariesOf minInt maxInt partitions⟩

theorem length_encoderOf (minInt maxInt : Int64) (partitions : UInt32) :
    (encoderOf minInt maxInt partitions).boundaries.length = partitions.toNat + 1 := by
  rw [encoderOf, boundariesOf, List.length_map, List.length_range]

theorem DividesEvenly.pairwise_boundariesOf (h : DividesEvenly minInt maxInt partitions) :
    (boundariesOf minInt maxInt partitions).Pairwise (· < ·) := by
  rw [boundariesOf, List.pairwise_map]
  refine List.pairwise_lt_range.imp_of_mem fun {i j} hi hj hij => ?_
  have hi := Nat.le_of_lt_succ (List.mem_range.mp hi)
  have hj := Nat.le_of_lt_succ (List.mem_range.mp hj)
  rw [Int64.lt_iff_toInt_lt, h.toInt_boundary hi, h.toInt_boundary hj]
  have hmul := Int.mul_lt_mul_of_pos_right (Int.ofNat_lt.mpr hij) h.stepOf_pos
  omega

/-- The binary search between a boundary that is at most the value and one above it ends, at a
boundary that is at most the value and that is followed by one above it. -/
theorem IntegerEncoder.searchLeft_spec {turns : ℕ} {left right : UInt32}
    (hlt : left.toNat < right.toNat) (hright : right.toNat < e.boundaries.length)
    (hturns : right.toNat - left.toNat ≤ turns)
    (hlow : e.boundaries[left.toNat] ≤ val) (hhigh : val < e.boundaries[right.toNat]) :
    ∃ found, e.searchLeft val turns left right = some found ∧
      ∃ h : found.toNat + 1 < e.boundaries.length,
        e.boundaries[found.toNat] ≤ val ∧ val < e.boundaries[found.toNat + 1] := by
  induction turns generalizing left right with
  | zero => omega
  | succ turns ih =>
    have hnext : (left + 1).toNat = left.toNat + 1 := by
      refine toNat_add_one fun hmax => ?_
      have hmax' : (-1 : UInt32).toNat = 2 ^ 32 - 1 := rfl
      have hlt' := right.toNat_lt
      rw [hmax, hmax'] at hlt
      omega
    rw [IntegerEncoder.searchLeft]
    by_cases hgap : left + 1 < right
    · have hgap' := UInt32.lt_iff_toNat_lt.mp hgap
      rw [hnext] at hgap'
      -- The middle is strictly between the two, also in 32 bits.
      have hmid : (left + (right - left) / 2).toNat =
          left.toNat + (right.toNat - left.toNat) / 2 := by
        have hlt' := right.toNat_lt
        have hle : left ≤ right := UInt32.le_iff_toNat_le.mpr hlt.le
        have htwo : (2 : UInt32).toNat = 2 := rfl
        rw [UInt32.toNat_add, UInt32.toNat_div, UInt32.toNat_sub_of_le _ _ hle, htwo]
        exact Nat.mod_eq_of_lt (by omega)
      have hmid_lt : (left + (right - left) / 2).toNat < e.boundaries.length := by omega
      rw [if_pos hgap]
      simp only [List.getElem?_eq_getElem hmid_lt, Option.bind_eq_bind, Option.bind_some]
      by_cases hval : val < e.boundaries[(left + (right - left) / 2).toNat]
      · rw [if_pos hval]
        exact ih (by omega) hmid_lt (by omega) hlow hval
      · rw [if_neg hval]
        exact ih (by omega) hright (by omega) (Int64.not_lt.mp hval) hhigh
    · rw [if_neg hgap]
      rw [UInt32.not_lt, UInt32.le_iff_toNat_le, hnext] at hgap
      obtain hright_eq : right.toNat = left.toNat + 1 := by omega
      refine ⟨left, rfl, by omega, hlow, ?_⟩
      simpa only [hright_eq] using hhigh

/-- The search finds the first boundary for a value up to it, the last one for a value from it
on, and else the boundary at the left. -/
theorem IntegerEncoder.getLeftIndex_spec (e : IntegerEncoder) (val : Int64)
    (hpos : 1 < e.boundaries.length)
    (hsize : e.boundaries.length < 2 ^ 32) :
    ∃ left, e.getLeftIndex val = some left ∧
      ((left = 0 ∧ val ≤ e.boundaries[0]) ∨
        (left.toNat + 1 = e.boundaries.length ∧
          e.boundaries[e.boundaries.length - 1] ≤ val) ∨
        ∃ h : left.toNat + 1 < e.boundaries.length,
          e.boundaries[left.toNat] ≤ val ∧ val < e.boundaries[left.toNat + 1]) := by
  have hright : (UInt32.ofNat e.boundaries.length - 1).toNat = e.boundaries.length - 1 := by
    have hlength := UInt32.toNat_ofNat_of_lt' hsize
    have hone : (1 : UInt32).toNat = 1 := rfl
    rw [UInt32.toNat_sub_of_le _ _ (UInt32.le_iff_toNat_le.mpr (by omega)), hlength, hone]
  have hfirst : e.boundaries[(0 : UInt32).toNat]? = some e.boundaries[0] :=
    List.getElem?_eq_getElem (Nat.zero_lt_of_lt hpos)
  have hlast : e.boundaries[(UInt32.ofNat e.boundaries.length - 1).toNat]? =
      some e.boundaries[e.boundaries.length - 1] := by
    rw [hright]
    exact List.getElem?_eq_getElem (by omega)
  rw [getLeftIndex]
  simp only [hfirst, hlast, Option.bind_eq_bind, Option.bind_some]
  by_cases hlow : val ≤ e.boundaries[0]
  · rw [if_pos hlow]
    exact ⟨0, rfl, .inl ⟨rfl, hlow⟩⟩
  by_cases hhigh : e.boundaries[e.boundaries.length - 1] ≤ val
  · rw [if_neg hlow, if_pos hhigh]
    exact ⟨_, rfl, .inr (.inl ⟨by omega, hhigh⟩)⟩
  rw [if_neg hlow, if_neg hhigh]
  have hlt : (0 : UInt32).toNat < (UInt32.ofNat e.boundaries.length - 1).toNat := by
    rw [hright]
    exact Nat.sub_pos_of_lt hpos
  obtain ⟨found, hfound, hpart⟩ := e.searchLeft_spec hlt (by omega)
    (by omega : _ ≤ e.boundaries.length) (Int64.le_of_lt (Int64.not_le.mp hlow))
    (by simpa only [hright] using Int64.not_le.mp hhigh)
  exact ⟨found, hfound, .inr (.inr hpart)⟩

/-! ### The draw -/

/-- The draw of a value, in a part whose width does not overflow. -/
theorem IntegerEncoder.draw_eq (e : IntegerEncoder) (val : Int64) (left : UInt32) {lower upper : ℤ}
    (hsize : e.boundaries.length < 2 ^ 32) (hleft : left.toNat + 1 < e.boundaries.length)
    (hlower : (e.boundaries[left.toNat]).toInt = lower)
    (hupper : (e.boundaries[left.toNat + 1]).toInt = upper)
    (hlt : lower < upper) (hwidth : upper - lower < 2 ^ 63) :
    e.draw val left =
      (signed64 (val.toInt - lower)).map fun _ =>
        some (((val.toInt - lower : ℤ) : ℚ) / ((upper - lower : ℤ) : ℚ)) := by
  have hnext : (left + 1).toNat = left.toNat + 1 := by
    refine toNat_add_one fun hmax => ?_
    have hmax' : (-1 : UInt32).toNat = 2 ^ 32 - 1 := rfl
    rw [hmax, hmax'] at hleft
    omega
  have hsigned := signed64_of_le (n := upper - lower) (by omega) hwidth
  have hint : (Int64.ofInt (upper - lower)).toInt = upper - lower := toInt_signed64 hsigned
  have hne : Int64.ofInt (upper - lower) ≠ 0 := by
    intro hzero
    rw [hzero, Int64.toInt_zero] at hint
    omega
  have hlower' : e.boundaries[left.toNat]? = some e.boundaries[left.toNat] :=
    List.getElem?_eq_getElem (by omega)
  have hupper' : e.boundaries[(left + 1).toNat]? = some e.boundaries[left.toNat + 1] := by
    rw [hnext]
    exact List.getElem?_eq_getElem hleft
  rw [draw, if_neg hleft.ne]
  simp only [hlower', hupper', hlower, hupper, hsigned, Option.bind_eq_bind, Option.bind_some,
    if_neg hne, hint]
  cases hdistance : signed64 (val.toInt - lower) with
  | none => rfl
  | some distance =>
    rw [Option.bind_some, Option.map_some, toInt_signed64 hdistance]

/-! ### The encoder of a range that is divided evenly -/

theorem head?_boundariesOf (minInt maxInt : Int64) (partitions : UInt32) :
    (boundariesOf minInt maxInt partitions).head? = some minInt := by
  rw [boundariesOf, List.range_succ_eq_map, List.map_cons, List.head?_cons, Nat.cast_zero,
    Int.zero_mul, Int.add_zero, Int64.ofInt_toInt]

/-- A value below the range gets the first part. -/
theorem getLeftIndex_encoderOf_of_lt (hval : val < minInt) :
    (encoderOf minInt maxInt partitions).getLeftIndex val = some 0 := by
  have hfirst : (encoderOf minInt maxInt partitions).boundaries[(0 : UInt32).toNat]? =
      some minInt := by
    rw [← head?_boundariesOf minInt maxInt partitions, List.head?_eq_getElem?]
    rfl
  rw [IntegerEncoder.getLeftIndex]
  simp only [hfirst, Option.bind_eq_bind, Option.bind_some, if_pos (Int64.le_of_lt hval)]
  rfl

namespace DividesEvenly

variable (h : DividesEvenly minInt maxInt partitions) {i : ℕ}

include h

theorem getLast?_boundariesOf :
    (boundariesOf minInt maxInt partitions).getLast? = some maxInt := by
  rw [boundariesOf, List.range_succ, List.map_append, List.map_singleton, List.getLast?_concat,
    h.mul_stepOf, add_sub_cancel, Int64.ofInt_toInt]

theorem toInt_getElem (hi : i < (encoderOf minInt maxInt partitions).boundaries.length) :
    ((encoderOf minInt maxInt partitions).boundaries[i]).toInt =
      minInt.toInt + i * stepOf minInt maxInt partitions := by
  have hi' := hi
  rw [length_encoderOf] at hi'
  rw [← h.toInt_boundary (Nat.le_of_lt_succ hi')]
  simp only [encoderOf, boundariesOf, List.getElem_map, List.getElem_range]

/-- The draw of a value in a part. -/
theorem draw_eq (hne : partitions ≠ -1) {left : UInt32} (hleft : left.toNat < partitions.toNat) :
    (encoderOf minInt maxInt partitions).draw val left =
      (signed64 (val.toInt - (minInt.toInt + left.toNat * stepOf minInt maxInt partitions))).map
        fun _ => some
          (((val.toInt - (minInt.toInt + left.toNat * stepOf minInt maxInt partitions) : ℤ) : ℚ) /
            (stepOf minInt maxInt partitions : ℚ)) := by
  have hlength := length_encoderOf minInt maxInt partitions
  have hnext := toNat_add_one hne
  have hlt := (partitions + 1).toNat_lt
  have hstep := h.stepOf_pos
  have hstep_le := h.stepOf_le
  have hrange := h.width_lt
  have hpart : minInt.toInt + ((left.toNat + 1 : ℕ) : ℤ) * stepOf minInt maxInt partitions -
      (minInt.toInt + left.toNat * stepOf minInt maxInt partitions) =
        stepOf minInt maxInt partitions := by
    push_cast
    ring
  have hdraw := (encoderOf minInt maxInt partitions).draw_eq val left (by omega) (by omega)
    (h.toInt_getElem (by omega)) (h.toInt_getElem (by omega))
    (by omega) (by omega)
  rw [hdraw, hpart]

/-- The part of a value from the lower end of the range on: it is the last boundary, or the
value is below the next one. -/
theorem exists_part (hne : partitions ≠ -1) (hval : minInt ≤ val) :
    ∃ left : UInt32,
      (encoderOf minInt maxInt partitions).getLeftIndex val = some left ∧
      minInt.toInt + left.toNat * stepOf minInt maxInt partitions ≤ val.toInt ∧
      (left = partitions ∨ left.toNat < partitions.toNat ∧
        val.toInt < minInt.toInt + (left.toNat + 1) * stepOf minInt maxInt partitions) := by
  have hlength := length_encoderOf minInt maxInt partitions
  have hnext := toNat_add_one hne
  have hlt := (partitions + 1).toNat_lt
  have hpos := h.pos
  have hval := Int64.le_iff_toInt_le.mp hval
  obtain ⟨left, hleft, hpart⟩ :=
    (encoderOf minInt maxInt partitions).getLeftIndex_spec val (by omega) (by omega)
  refine ⟨left, hleft, ?_⟩
  obtain ⟨rfl, hle⟩ | ⟨hlast, hle⟩ | ⟨hlt, hle, hgt⟩ := hpart
  · have hstep := h.stepOf_pos
    rw [Int64.le_iff_toInt_le, h.toInt_getElem] at hle
    refine ⟨?_, .inr ⟨?_, ?_⟩⟩ <;> simp at hle ⊢ <;> omega
  · have hleft_eq : left = partitions := UInt32.toNat.inj (by omega)
    have hindex : (encoderOf minInt maxInt partitions).boundaries.length - 1 = left.toNat := by
      omega
    rw [Int64.le_iff_toInt_le, h.toInt_getElem, hindex] at hle
    exact ⟨hle, .inl hleft_eq⟩
  · rw [Int64.le_iff_toInt_le, h.toInt_getElem] at hle
    rw [Int64.lt_iff_toInt_lt, h.toInt_getElem] at hgt
    refine ⟨hle, .inr ⟨by omega, ?_⟩⟩
    push_cast at hgt
    exact hgt

/-- The last boundary that is at most a value is less than the boundary after its part. -/
theorem lt_of_boundary_le {i j : ℕ} {v : ℤ}
    (hle : minInt.toInt + i * stepOf minInt maxInt partitions ≤ v)
    (hlt : v < minInt.toInt + j * stepOf minInt maxInt partitions) : i < j := by
  have hmul : i * stepOf minInt maxInt partitions < j * stepOf minInt maxInt partitions := by
    linarith
  exact Int.ofNat_lt.mp (lt_of_mul_lt_mul_right hmul h.stepOf_pos.le)

/-- The draw of a value in a part has a probability, which is 0 for a boundary. -/
theorem draw_of_mem_part (hne : partitions ≠ -1) {left : UInt32}
    (hleft : left.toNat < partitions.toNat)
    (hle : minInt.toInt + left.toNat * stepOf minInt maxInt partitions ≤ val.toInt)
    (hlt : val.toInt < minInt.toInt + (left.toNat + 1 : ℕ) * stepOf minInt maxInt partitions) :
    ∃ p, (encoderOf minInt maxInt partitions).draw val left = some (some p) ∧ 0 ≤ p ∧ p ≤ 1 ∧
      (val ∈ (encoderOf minInt maxInt partitions).boundaries → p = 0) := by
  have hstep := h.stepOf_pos
  have hstep_le := h.stepOf_le
  have hrange := h.width_lt
  have hdistance : val.toInt - (minInt.toInt + left.toNat * stepOf minInt maxInt partitions) <
      stepOf minInt maxInt partitions := by
    push_cast at hlt
    linarith
  rw [h.draw_eq hne hleft, signed64_of_le (by omega) (by omega), Option.map_some]
  refine ⟨_, rfl, ?_, ?_, fun hmem => ?_⟩
  · exact div_nonneg (Int.cast_nonneg (by omega)) (Int.cast_nonneg hstep.le)
  · rw [div_le_one (Int.cast_pos.mpr hstep)]
    exact Int.cast_le.mpr hdistance.le
  · obtain ⟨j, hj, rfl⟩ := List.mem_iff_getElem.mp hmem
    rw [h.toInt_getElem] at hle hlt ⊢
    -- A boundary of the part is its lower one.
    have hupper := h.lt_of_boundary_le le_rfl hlt
    have hlower := h.lt_of_boundary_le (i := left.toNat) (j := j + 1) hle (by push_cast; linarith)
    obtain rfl : j = left.toNat := by omega
    rw [Int.sub_self, Int.cast_zero, zero_div]

/-- A value from the lower end of the range on is snapped as documented. -/
theorem snapsAsDocumented (hne : partitions ≠ -1) (hval : minInt ≤ val) :
    SnapsAsDocumented minInt maxInt partitions val := by
  have hlength := length_encoderOf minInt maxInt partitions
  have hval' := Int64.le_iff_toInt_le.mp hval
  have hnew : IntegerEncoder.new minInt maxInt partitions =
      some (encoderOf minInt maxInt partitions) := by
    rw [IntegerEncoder.new, h.populateBoundaries_eq hne, Option.map_some, encoderOf]
  have hbelow : ¬ val < minInt := Int64.not_lt.mpr hval
  obtain ⟨left, hleft, hle, hlast | ⟨hinner, hlt⟩⟩ := h.exists_part hne hval
  · have hlast' : left.toNat = partitions.toNat := congrArg _ hlast
    have hdraw : (encoderOf minInt maxInt partitions).draw val left = some none := by
      rw [hlast, IntegerEncoder.draw, if_pos hlength.symm]
    refine ⟨_, hnew, head?_boundariesOf .., h.getLast?_boundariesOf, h.pairwise_boundariesOf, left,
      hleft, .inl ⟨by omega, ?_, ?_⟩, ⟨none, hdraw, by simp⟩, fun sample randomizer _ =>
        ⟨fun hlt => absurd hlt hbelow, fun _ => ?_⟩⟩
    · rw [Int64.le_iff_toInt_le, h.toInt_getElem]
      exact hle
    · intro j hj _
      omega
    · rw [IntegerEncoder.encode, hleft, Option.bind_eq_bind, Option.bind_some,
        IntegerEncoder.randomRound, hdraw, hlast]
      simp
  · have habove : ¬ maxInt < val := by
      rw [Int64.lt_iff_toInt_lt]
      have hupper := (h.mul_stepOf_le (Nat.succ_le_of_lt hinner)).2
      push_cast at hupper
      linarith
    obtain ⟨p, hdraw, hnonneg, hle_one, hzero⟩ :=
      h.draw_of_mem_part hne hinner hle (by exact_mod_cast hlt)
    refine ⟨_, hnew, head?_boundariesOf .., h.getLast?_boundariesOf, h.pairwise_boundariesOf, left,
      hleft, .inl ⟨by omega, ?_, ?_⟩, ⟨some p, hdraw, ?_⟩, fun sample randomizer _ =>
        ⟨fun hlt => absurd hlt hbelow, fun hlt => absurd hlt habove⟩⟩
    · rw [Int64.le_iff_toInt_le, h.toInt_getElem]
      exact hle
    · intro j hj hj_le
      rw [Int64.le_iff_toInt_le, h.toInt_getElem] at hj_le
      exact Nat.le_of_lt_succ (h.lt_of_boundary_le hj_le (by exact_mod_cast hlt))
    · rintro _ ⟨⟩
      refine ⟨hnonneg, hle_one, ?_⟩
      rintro (hmem | hlt | hlt)
      · exact hzero hmem
      · exact absurd hlt hbelow
      · exact absurd hlt habove

/-- The draw of a value below the range has a negative number as probability. -/
theorem not_snapsAsDocumented (hne : partitions ≠ -1) (hval : val < minInt) :
    ¬ SnapsAsDocumented minInt maxInt partitions val := by
  rintro ⟨e, hnew, -, -, -, left, hleft, -, ⟨pos, hdraw, hpos⟩, -⟩
  rw [IntegerEncoder.new, h.populateBoundaries_eq hne, Option.map_some] at hnew
  obtain rfl : encoderOf minInt maxInt partitions = e := Option.some.inj hnew
  rw [getLeftIndex_encoderOf_of_lt hval] at hleft
  obtain rfl : 0 = left := Option.some.inj hleft
  have hleft : (0 : UInt32).toNat < partitions.toNat := h.pos
  rw [h.draw_eq hne hleft] at hdraw
  obtain ⟨distance, -, rfl⟩ := Option.map_eq_some_iff.mp hdraw
  obtain ⟨hnonneg, -⟩ := hpos _ rfl
  have hlt := Int64.lt_iff_toInt_lt.mp hval
  have hzero : (((0 : UInt32).toNat : ℕ) : ℤ) = 0 := rfl
  have hneg : ((val.toInt - (minInt.toInt + ((0 : UInt32).toNat : ℤ) *
      stepOf minInt maxInt partitions) : ℤ) : ℚ) < 0 := by
    rw [hzero, Int.zero_mul, Int.add_zero]
    exact Int.cast_lt_zero.mpr (by omega)
  exact absurd hnonneg (not_le.mpr (div_neg_of_neg_of_pos hneg (Int.cast_pos.mpr h.stepOf_pos)))

end DividesEvenly

/-- **For which values the encoder snaps as documented**: those that are not below the range, if the
number of the boundaries fits in 32 bits. -/
theorem snapsAsDocumented_iff (h : DividesEvenly minInt maxInt partitions) :
    SnapsAsDocumented minInt maxInt partitions val ↔ minInt ≤ val ∧ partitions ≠ -1 := by
  constructor
  · intro hsnaps
    have hne : partitions ≠ -1 := by
      rintro rfl
      obtain ⟨e, hnew, -⟩ := hsnaps
      rw [IntegerEncoder.new, populateBoundaries_neg_one] at hnew
      cases hnew
    exact ⟨Int64.not_lt.mp fun hval => h.not_snapsAsDocumented hne hval hsnaps, hne⟩
  · rintro ⟨hval, hne⟩
    exact h.snapsAsDocumented hne hval

/-- The value 7 between 0 and 10, with the boundaries 0, 5 and 10. -/
theorem snapsAsDocumented_iff_seven :
    DividesEvenly 0 10 2 ∧ SnapsAsDocumented 0 10 2 7 := by
  have h : DividesEvenly 0 10 2 := ⟨by decide, by decide, by decide, by decide⟩
  exact ⟨h, (snapsAsDocumented_iff h).mpr ⟨by decide, by decide⟩⟩

/-- The value -5 below the range from 0 to 10 is at the position -1 of the first part. -/
theorem not_snapsAsDocumented_neg_five :
    DividesEvenly 0 10 2 ∧ (encoderOf 0 10 2).draw (-5) 0 = some (some (-1)) ∧
      ¬ SnapsAsDocumented 0 10 2 (-5) := by
  have h : DividesEvenly 0 10 2 := ⟨by decide, by decide, by decide, by decide⟩
  refine ⟨h, ?_, h.not_snapsAsDocumented (by decide) (by decide)⟩
  decide +kernel

end Cobalt.Algorithms
