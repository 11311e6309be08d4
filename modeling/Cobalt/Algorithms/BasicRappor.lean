import Mathlib.Algebra.Order.Field.Rat
import Mathlib.Algebra.Order.Ring.Int
import Mathlib.Data.List.Nodup

/-!
# Basic RAPPOR

A `BasicRapporConfig` lists some categories and the probabilities that a bit is flipped. The encoder
returns a byte string with a bit for each category, of which that of the encoded value is set, and
flips some bits. The analyzer counts the set bits of each category. The encoder counts the bits from
the end of the byte string, and the analyzer walks from the last byte to the first one, with an
index of an unsigned type.

A result `none` of a function that is not fallible stands for undefined behavior, which is an access
outside of a byte string, or for a loop that does not end.

The serialization of a value by its message type is a parameter, and so is the generator of random
bits. A string is the list of its bytes, a probability of type `float` a rational number, and a
counter a natural number.

## Main definitions

* `BasicRapporConfig`, `RapporConfigValidator`: the configuration and its categories.
* `BasicRapporEncoder.encode`: the encoder.
* `BasicRapporAnalyzer.addObservation`: the analyzer.

## Main results

* `RapporConfigValidator.bitIndex_eq`: the index of a value among distinct categories.
* `BasicRapporAnalyzer.byteLoop_spec`: the loop of the analyzer ends, reads inside of the byte
  string, and counts the bits of each category.
-/

namespace Cobalt.Algorithms

/-! ### The configuration -/

/-- `ValuePart`. The value of type `double` is given by its bits, and a distribution by its serialized
message. -/
inductive ValuePart
  | dataNotSet
  | stringValue (s : List UInt8)
  | intValue (n : Int64)
  | blobValue (b : List UInt8)
  | indexValue (n : UInt32)
  | doubleValue (bits : UInt64)
  | intBucketDistribution (message : List UInt8)
  deriving DecidableEq

/-- `BasicRapporConfig::Categories`. -/
inductive Categories
  | strings (strings : List (List UInt8))
  | intRange (first last : Int32)
  | indexed (indexed : UInt32)
  | unset

/-- `BasicRapporConfig`. -/
structure BasicRapporConfig where
  prob0Becomes1 : ℚ
  prob1Stays1 : ℚ
  probRr : ℚ
  categories : Categories

/-- `CommonValidate`. -/
def commonValidate (prob0Becomes1 prob1Stays1 probRr : ℚ) : Bool :=
  if prob0Becomes1 < 0 ∨ prob0Becomes1 > 1 then false
  else if prob1Stays1 < 0 ∨ prob1Stays1 > 1 then false
  else if prob0Becomes1 = prob1Stays1 then false
  else if probRr ≠ 0 then false
  else true

/-- `max_num_categories`. -/
def maxNumCategories : ℤ := 1024

/-- `ExtractCategories`. The numbers of the categories are of type `int64_t`, and do not overflow. -/
def extractCategories : Categories → Option (List ValuePart)
  | .strings strings =>
    let numCategories : ℤ := strings.length
    if numCategories ≤ 1 ∨ numCategories ≥ maxNumCategories then none
    else if strings.any List.isEmpty then none
    else some (strings.map .stringValue)
  | .intRange first last =>
    let numCategories := last.toInt - first.toInt + 1
    if last ≤ first ∨ numCategories ≥ maxNumCategories then none
    else some ((List.range numCategories.toNat).map fun i : ℕ =>
      .intValue (Int64.ofInt (first.toInt + i)))
  | .indexed indexed =>
    let numCategories : ℤ := indexed.toNat
    if numCategories ≥ maxNumCategories then none
    else some ((List.range indexed.toNat).map fun i => .indexValue (UInt32.ofNat i))
  | .unset => none

/-- The loop that inserts the categories into the map; `none` if one of them is there already. -/
def insertCategories (serialize : ValuePart → List UInt8) :
    List ValuePart → ℕ → List (List UInt8 × ℕ) → Option (List (List UInt8 × ℕ))
  | [], _, categoryToBitIndex => some categoryToBitIndex
  | category :: categories, index, categoryToBitIndex =>
    if (categoryToBitIndex.lookup (serialize category)).isSome then none
    else insertCategories serialize categories (index + 1)
      (categoryToBitIndex ++ [(serialize category, index)])

/-- `RapporConfigValidator`, of a configuration that is valid. -/
structure RapporConfigValidator where
  prob0Becomes1 : ℚ
  prob1Stays1 : ℚ
  categories : List ValuePart
  categoryToBitIndex : List (List UInt8 × ℕ)

namespace RapporConfigValidator

/-- The constructor; `none` if the configuration is not valid. -/
def new (serialize : ValuePart → List UInt8) (config : BasicRapporConfig) :
    Option RapporConfigValidator :=
  if commonValidate config.prob0Becomes1 config.prob1Stays1 config.probRr then do
    let categories ← extractCategories config.categories
    let categoryToBitIndex ← insertCategories serialize categories 0 []
    return ⟨config.prob0Becomes1, config.prob1Stays1, categories, categoryToBitIndex⟩
  else none

/-- `num_bits`. -/
def numBits (v : RapporConfigValidator) : ℕ := v.categories.length

/-- `bit_index`. -/
def bitIndex (serialize : ValuePart → List UInt8) (v : RapporConfigValidator)
    (category : ValuePart) : ℤ :=
  ((v.categoryToBitIndex.lookup (serialize category)).map Int.ofNat).getD (-1)

end RapporConfigValidator

/-- `kBitsPerByte`. -/
def bitsPerByte : ℕ := 8

/-- The number of bytes with the bits of all categories, as the encoder and the analyzer compute it. -/
def numBytesOf (numBits : ℕ) : ℕ := (numBits + bitsPerByte - 1) / bitsPerByte

/-! ### The encoder -/

/-- `Status`. -/
inductive RapporStatus
  | ok
  | invalidConfig
  | invalidInput
  deriving DecidableEq

/-- `BasicRapporEncoder`. The generator returns a mask of random bits for a probability and a number
of bytes, or fails. -/
structure BasicRapporEncoder where
  config : Option RapporConfigValidator
  random : ℚ → ℕ → Option (List UInt8)
  clientSecret : List UInt8

/-- The constructor. -/
def BasicRapporEncoder.new (serialize : ValuePart → List UInt8) (config : BasicRapporConfig)
    (random : ℚ → ℕ → Option (List UInt8)) (clientSecret : List UInt8) : BasicRapporEncoder :=
  ⟨RapporConfigValidator.new serialize config, random, clientSecret⟩

/-- `FlipBits`. -/
def flipBits (p q : ℚ) (random : ℚ → ℕ → Option (List UInt8)) (data : List UInt8) :
    RapporStatus × List UInt8 :=
  if p ≤ 0 ∧ q ≥ 1 then (.ok, data)
  else
    match random p data.length, random q data.length with
    | some pMask, some qMask =>
      (.ok, data.mapIdx fun i byte => (pMask.getD i 0 &&& ~~~byte) ||| (qMask.getD i 0 &&& byte))
    | _, _ => (.invalidInput, data)

namespace BasicRapporEncoder

/-- `InitializeObservationData`. -/
def initializeObservationData (e : BasicRapporEncoder) :
    RapporStatus × Option (RapporConfigValidator × List UInt8) :=
  match e.config with
  | none => (.invalidConfig, none)
  | some config =>
    if e.clientSecret.isEmpty then (.invalidConfig, none)
    else (.ok, some (config, List.replicate (numBytesOf config.numBits) 0))

/-- `Encode`: the status and the observation that is written, which is left alone if the status is
not `ok`. -/
def encode (serialize : ValuePart → List UInt8) (e : BasicRapporEncoder) (value : ValuePart)
    (observationOut : List UInt8) : Option (RapporStatus × List UInt8) :=
  match e.initializeObservationData with
  | (_, some (config, data)) =>
    let bitIndex := config.bitIndex serialize value
    if bitIndex = -1 then some (.invalidInput, observationOut)
    else
      let byteIndex := bitIndex.toNat / bitsPerByte
      let bitInByteIndex := bitIndex.toNat % bitsPerByte
      if byteIndex + 1 ≤ data.length then
        let data := data.set (data.length - (byteIndex + 1)) (1 <<< UInt8.ofNat bitInByteIndex)
        let flipped := flipBits config.prob0Becomes1 config.prob1Stays1 e.random data
        if flipped.1 = .ok then some (.ok, flipped.2) else some (flipped.1, observationOut)
      else none
  | (status, none) => some (status, observationOut)

end BasicRapporEncoder

/-! ### The analyzer -/

/-- `BasicRapporAnalyzer`. -/
structure BasicRapporAnalyzer where
  config : Option RapporConfigValidator
  numObservations : ℕ
  observationErrors : ℕ
  categoryCounts : List ℕ
  numEncodingBytes : ℕ

namespace BasicRapporAnalyzer

/-- The constructor. -/
def new (serialize : ValuePart → List UInt8) (config : BasicRapporConfig) :
    BasicRapporAnalyzer where
  config := RapporConfigValidator.new serialize config
  numObservations := 0
  observationErrors := 0
  categoryCounts :=
    ((RapporConfigValidator.new serialize config).map fun c => List.replicate c.numBits 0).getD []
  numEncodingBytes :=
    ((RapporConfigValidator.new serialize config).map fun c => numBytesOf c.numBits).getD 0

/-- The loop over the bits of a byte: whether it returns from the function, and the category and the
counts after it. -/
def bitLoop (data : List UInt8) (byteIndex : UInt64) :
    ℕ → UInt8 → ℕ → List ℕ → Option (Bool × ℕ × List ℕ)
  | 0, _, category, counts => some (false, category, counts)
  | bits + 1, bitMask, category, counts =>
    if counts.length ≤ category then some (true, category, counts)
    else do
      let byte ← data[byteIndex.toNat]?
      let counts := if bitMask &&& byte ≠ 0 then counts.modify category (· + 1) else counts
      bitLoop data byteIndex bits (bitMask <<< 1) (category + 1) counts

/-- The loop over the bytes, with a bound for the number of its turns. Its condition `byte_index >= 0`
is always true, and the index wraps below 0. -/
def byteLoop (data : List UInt8) : ℕ → UInt64 → ℕ → List ℕ → Option (List ℕ)
  | 0, _, _, _ => none
  | turns + 1, byteIndex, category, counts => do
    let result ← bitLoop data byteIndex bitsPerByte 1 category counts
    if result.1 then some result.2.2
    else byteLoop data turns (byteIndex - 1) result.2.1 result.2.2

/-- `AddObservation`. -/
def addObservation (a : BasicRapporAnalyzer) (data : List UInt8) :
    Option (Bool × BasicRapporAnalyzer) :=
  if a.config.isNone then some (false, { a with observationErrors := a.observationErrors + 1 })
  else if data.length ≠ a.numEncodingBytes then
    some (false, { a with observationErrors := a.observationErrors + 1 })
  else
    (byteLoop data (data.length + 1) (UInt64.ofNat data.length - 1) 0 a.categoryCounts).map
      fun counts =>
        (true, { a with numObservations := a.numObservations + 1, categoryCounts := counts })

/-- A sequence of calls of `AddObservation`. -/
def addObservations (a : BasicRapporAnalyzer) (observations : List (List UInt8)) :
    Option BasicRapporAnalyzer :=
  observations.foldlM (fun a data => (a.addObservation data).map Prod.snd) a

end BasicRapporAnalyzer

/-! ### The categories -/

variable {serialize : ValuePart → List UInt8} {config : BasicRapporConfig}
  {validator : RapporConfigValidator} {categories : List ValuePart} {value : ValuePart}

/-- The map of the categories has their indices in order, and no two have the same key. -/
theorem insertCategories_eq_some {index : ℕ} {entries entries' : List (List UInt8 × ℕ)}
    (h : insertCategories serialize categories index entries = some entries')
    (hnodup : (entries.map Prod.fst).Nodup) :
    entries' = entries ++ (categories.zipIdx index).map (fun c => (serialize c.1, c.2)) ∧
      (entries.map Prod.fst ++ categories.map serialize).Nodup := by
  induction categories generalizing index entries with
  | nil =>
    cases h
    simpa using hnodup
  | cons category categories ih =>
    rw [insertCategories] at h
    split_ifs at h with hkey
    have hnew : serialize category ∉ entries.map Prod.fst := by
      intro hmem
      obtain ⟨entry, hentry, heq⟩ := List.mem_map.mp hmem
      exact hkey (List.lookup_isSome_iff.mpr ⟨entry, hentry, heq ▸ beq_self_eq_true _⟩)
    have hnodup' : ((entries ++ [(serialize category, index)]).map Prod.fst).Nodup := by
      rw [List.map_append]
      exact hnodup.append (List.nodup_singleton _) (by simpa using hnew)
    obtain ⟨heq, hall⟩ := ih h hnodup'
    rw [List.map_append, List.append_assoc] at hall
    rw [List.append_assoc] at heq
    exact ⟨heq, hall⟩

/-- The index of a value in the map of the categories. -/
theorem lookup_zipIdx (hserialize : Function.Injective serialize) (index : ℕ) :
    ((categories.zipIdx index).map fun c => (serialize c.1, c.2)).lookup (serialize value) =
      if value ∈ categories then some (categories.idxOf value + index) else none := by
  induction categories generalizing index with
  | nil => rfl
  | cons category categories ih =>
    rw [List.zipIdx_cons, List.map_cons, List.lookup_cons, ih]
    by_cases h : value = category
    · subst h
      simp
    · have hkey : (serialize value == serialize category) = false :=
        beq_false_of_ne (hserialize.ne h)
      rw [hkey, List.idxOf_cons_ne _ (Ne.symm h)]
      simp only [List.mem_cons, h, false_or]
      split_ifs with hmem
      · exact congrArg some (by omega)
      · rfl

/-- There are fewer categories than the largest number of them. -/
theorem length_lt_of_extractCategories {source : Categories}
    (h : extractCategories source = some categories) : categories.length < 1024 := by
  cases source with
  | strings strings =>
    obtain ⟨hnum, h⟩ := Option.ite_none_left_eq_some.mp h
    obtain ⟨-, h⟩ := Option.ite_none_left_eq_some.mp h
    rw [maxNumCategories] at hnum
    rw [← Option.some.inj h, List.length_map]
    omega
  | intRange _ _ | indexed _ =>
    obtain ⟨hnum, h⟩ := Option.ite_none_left_eq_some.mp h
    rw [maxNumCategories] at hnum
    rw [← Option.some.inj h, List.length_map, List.length_range]
    omega
  | unset => cases h

/-- A validator of a configuration: its categories are those of the configuration, which are
distinct, and the index of a value is its place among them. -/
theorem RapporConfigValidator.of_new (hserialize : Function.Injective serialize)
    (h : RapporConfigValidator.new serialize config = some validator) :
    validator.prob0Becomes1 = config.prob0Becomes1 ∧
      validator.prob1Stays1 = config.prob1Stays1 ∧ validator.numBits < 1024 ∧
      validator.categories.Nodup ∧
      ∀ value, validator.bitIndex serialize value =
        if value ∈ validator.categories then (validator.categories.idxOf value : ℤ) else -1 := by
  rw [RapporConfigValidator.new] at h
  obtain ⟨-, h⟩ := Option.ite_none_right_eq_some.mp h
  obtain ⟨categories, hcategories, h⟩ := Option.bind_eq_some_iff.mp h
  obtain ⟨categoryToBitIndex, hinsert, h⟩ := Option.bind_eq_some_iff.mp h
  obtain ⟨rfl, hnodup⟩ := insertCategories_eq_some hinsert List.nodup_nil
  cases h
  refine ⟨rfl, rfl, length_lt_of_extractCategories hcategories,
    List.Nodup.of_map serialize hnodup, fun value => ?_⟩
  rw [RapporConfigValidator.bitIndex, List.nil_append, lookup_zipIdx hserialize]
  split_ifs
  · rfl
  · rfl

/-! ### The bits of a byte string -/

/-- The mask of the analyzer after some of its shifts. -/
def shiftedMask (mask : UInt8) (i : ℕ) : UInt8 := (fun mask : UInt8 => mask <<< 1)^[i] mask

/-- The bit of a category, counted from the end of a byte string. -/
def bitSet (data : List UInt8) (i : ℕ) : Bool :=
  shiftedMask 1 (i % bitsPerByte) &&& data.getD (data.length - 1 - i / bitsPerByte) 0 ≠ 0

/-- A byte string with the bit of one category. -/
def oneHot (numBytes b : ℕ) : List UInt8 :=
  (List.replicate numBytes 0).set (numBytes - (b / bitsPerByte + 1))
    (1 <<< UInt8.ofNat (b % bitsPerByte))

theorem length_oneHot (numBytes b : ℕ) : (oneHot numBytes b).length = numBytes := by
  rw [oneHot, List.length_set, List.length_replicate]

/-- The masks of the analyzer and of the encoder meet for the same bit of a byte only. -/
theorem mask_and_ne_zero_iff :
    ∀ i < 8, ∀ j < 8, shiftedMask 1 i &&& (1 <<< UInt8.ofNat j) ≠ 0 ↔ i = j := by
  decide

/-- The bit of one category is set, and no other. -/
theorem bitSet_oneHot {numBytes b i : ℕ} (hb : b < bitsPerByte * numBytes)
    (hi : i < bitsPerByte * numBytes) : bitSet (oneHot numBytes b) i = decide (i = b) := by
  rw [bitsPerByte] at hb hi
  rw [bitSet, length_oneHot, oneHot, bitsPerByte, List.getD_eq_getElem?_getD,
    List.getElem?_set, List.length_replicate]
  by_cases hbyte : i / 8 = b / 8
  · have hindex : numBytes - (b / 8 + 1) = numBytes - 1 - i / 8 := by omega
    rw [if_pos hindex, if_pos (by omega), Option.getD_some]
    have hmask := mask_and_ne_zero_iff (i % 8) (Nat.mod_lt i (by decide)) (b % 8)
      (Nat.mod_lt b (by decide))
    refine decide_eq_decide.mpr (hmask.trans ?_)
    omega
  · have hindex : numBytes - (b / 8 + 1) ≠ numBytes - 1 - i / 8 := by omega
    have hne : i ≠ b := fun h => hbyte (h ▸ rfl)
    rw [if_neg hindex, List.getElem?_replicate, if_pos (by omega), Option.getD_some,
      decide_eq_false hne]
    simp

/-! ### The loop of the analyzer -/

/-- The counts of the categories of a range are increased where a bit is set. -/
structure CountsAdd (counts counts' : List ℕ) (first last : ℕ) (bit : ℕ → Bool) : Prop where
  length : counts'.length = counts.length
  getD : ∀ i < counts.length, counts'.getD i 0 =
    counts.getD i 0 + if first ≤ i ∧ i < last ∧ bit i then 1 else 0

namespace CountsAdd

variable {counts counts' counts'' : List ℕ} {first middle last : ℕ} {bit : ℕ → Bool}

theorem refl (h : last ≤ first ∨ counts.length ≤ first) :
    CountsAdd counts counts first last bit := by
  refine ⟨rfl, fun i hi => ?_⟩
  rw [if_neg (by omega), Nat.add_zero]

theorem trans (h : CountsAdd counts counts' first middle bit)
    (h' : CountsAdd counts' counts'' middle last bit) (hfirst : first ≤ middle)
    (hlast : middle ≤ last) : CountsAdd counts counts'' first last bit := by
  refine ⟨h'.length.trans h.length, fun i hi => ?_⟩
  rw [h'.getD i (h.length ▸ hi), h.getD i hi, Nat.add_assoc]
  congr 1
  by_cases hbit : bit i = true
  · simp only [hbit, and_true]
    split_ifs <;> omega
  · simp only [hbit, and_false, if_false, Nat.add_zero, Bool.false_eq_true]

theorem single (counts : List ℕ) (hbit : bit first = true) :
    CountsAdd counts (counts.modify first (· + 1)) first (first + 1) bit := by
  refine ⟨List.length_modify .., fun i hi => ?_⟩
  rw [List.getD_eq_getElem?_getD, List.getD_eq_getElem?_getD, List.getElem?_modify,
    List.getElem?_eq_getElem hi]
  by_cases h : first = i
  · subst h
    rw [if_pos ⟨le_rfl, Nat.lt_succ_self _, hbit⟩]
    simp
  · rw [if_neg (by omega)]
    simp [h]

theorem none (counts : List ℕ) (hbit : bit first = false) : CountsAdd counts counts first (first + 1) bit := by
  refine ⟨rfl, fun i hi => ?_⟩
  by_cases h : first = i
  · subst h
    rw [hbit, if_neg (by simp), Nat.add_zero]
  · rw [if_neg (by omega), Nat.add_zero]

/-- The range may be one that ends after the counts. -/
theorem of_length_le (h : CountsAdd counts counts' first last bit) (hlast : counts.length ≤ last) :
    CountsAdd counts counts' first counts.length bit := by
  refine ⟨h.length, fun i hi => ?_⟩
  rw [h.getD i hi]
  simp only [hi, hi.trans_le hlast]

end CountsAdd

namespace BasicRapporAnalyzer

variable {data : List UInt8} {byteIndex : UInt64} {bit : ℕ → Bool}

/-- Without a category left, the loop over the bits returns before it reads the byte. -/
theorem bitLoop_of_le (bits : ℕ) {mask : UInt8} {category : ℕ} {counts : List ℕ}
    (h : counts.length ≤ category) :
    bitLoop data byteIndex (bits + 1) mask category counts = some (true, category, counts) :=
  if_pos h

/-- The loop over the bits of a byte counts as many of them as there are categories left. -/
theorem bitLoop_spec {byte : UInt8} (bits : ℕ) {mask : UInt8} {category : ℕ} {counts : List ℕ}
    (hcategory : category ≤ counts.length)
    (hbyte : counts.length ≤ category ∨ data[byteIndex.toNat]? = some byte)
    (hbit : ∀ j < bits, bit (category + j) = decide (shiftedMask mask j &&& byte ≠ 0)) :
    ∃ counts', CountsAdd counts counts' category (category + bits) bit ∧
      bitLoop data byteIndex bits mask category counts =
        some (if category + bits ≤ counts.length then (false, category + bits, counts')
          else (true, counts.length, counts')) := by
  induction bits generalizing mask category counts with
  | zero =>
    refine ⟨counts, .refl (.inl le_rfl), ?_⟩
    rw [bitLoop, Nat.add_zero, if_pos hcategory]
  | succ bits ih =>
    by_cases hend : counts.length ≤ category
    · obtain rfl : category = counts.length := Nat.le_antisymm hcategory hend
      refine ⟨counts, .refl (.inr le_rfl), ?_⟩
      rw [bitLoop_of_le bits hend, if_neg (by omega)]
    · have hread := hbyte.resolve_left hend
      have hfirst : bit category = decide (mask &&& byte ≠ 0) := hbit 0 (Nat.succ_pos bits)
      have hcategory' : category + 1 ≤ counts.length := Nat.lt_of_not_le hend
      have hbit' (j : ℕ) (hj : j < bits) : bit (category + 1 + j) =
          decide (shiftedMask (mask <<< 1) j &&& byte ≠ 0) := by
        rw [Nat.add_assoc, Nat.add_comm 1 j]
        exact hbit (j + 1) (Nat.succ_lt_succ hj)
      have hsum : category + 1 + bits = category + (bits + 1) := by omega
      rw [bitLoop, if_neg hend, hread, Option.bind_eq_bind, Option.bind_some]
      by_cases hset : mask &&& byte ≠ 0
      · have hstep := CountsAdd.single counts (hfirst.trans (decide_eq_true hset))
        obtain ⟨counts', hadd, hloop⟩ := ih (hstep.length ▸ hcategory') (.inr hread) hbit'
        rw [hsum] at hadd hloop
        rw [if_pos hset, hloop, hstep.length]
        exact ⟨counts', hstep.trans hadd (Nat.le_succ _) (by omega), rfl⟩
      · have hstep := CountsAdd.none counts (hfirst.trans (decide_eq_false hset))
        obtain ⟨counts', hadd, hloop⟩ := ih hcategory' (.inr hread) hbit'
        rw [hsum] at hadd hloop
        rw [if_neg hset, hloop]
        exact ⟨counts', hstep.trans hadd (Nat.le_succ _) (by omega), rfl⟩

/-- **The loop over the bytes** ends, reads inside of the byte string, and counts the bits of all
categories, if the byte string has a bit for each of them. -/
theorem byteLoop_spec {counts : List ℕ} {k : ℕ} (hk : k ≤ data.length)
    (hcategory : bitsPerByte * k ≤ counts.length)
    (hbits : counts.length ≤ bitsPerByte * data.length)
    (hindex : k < data.length → byteIndex.toNat = data.length - 1 - k) :
    ∃ counts', CountsAdd counts counts' (bitsPerByte * k) counts.length (bitSet data) ∧
      byteLoop data (data.length - k + 1) byteIndex (bitsPerByte * k) counts = some counts' := by
  induction hn : data.length - k generalizing k byteIndex counts with
  | zero =>
    -- All bytes are read, so that there is no category left.
    obtain rfl : k = data.length := by omega
    refine ⟨counts, .refl (.inr hbits), ?_⟩
    have hreturn : bitLoop data byteIndex bitsPerByte 1 (bitsPerByte * data.length) counts =
        some (true, bitsPerByte * data.length, counts) := bitLoop_of_le 7 hbits
    rw [byteLoop, hreturn]
    rfl
  | succ n ih =>
    have hlt : k < data.length := by omega
    have hread : data[byteIndex.toNat]? = some (data.getD (data.length - 1 - k) 0) := by
      rw [hindex hlt, List.getD_eq_getElem?_getD, List.getElem?_eq_getElem (by omega),
        Option.getD_some]
    have hbit (j : ℕ) (hj : j < bitsPerByte) : bitSet data (bitsPerByte * k + j) =
        decide (shiftedMask 1 j &&& data.getD (data.length - 1 - k) 0 ≠ 0) := by
      rw [bitSet, Nat.mul_add_mod, Nat.mod_eq_of_lt hj, Nat.mul_add_div (by decide),
        Nat.div_eq_of_lt hj, Nat.add_zero]
    obtain ⟨counts', hadd, hloop⟩ := bitLoop_spec bitsPerByte hcategory (.inr hread) hbit
    rw [byteLoop, hloop, Option.bind_eq_bind, Option.bind_some]
    rw [← Nat.mul_succ] at hadd ⊢
    by_cases hmore : bitsPerByte * (k + 1) ≤ counts.length
    · have hnext (hlt' : k + 1 < data.length) :
          (byteIndex - 1).toNat = data.length - 1 - (k + 1) := by
        have hone : (1 : UInt64).toNat = 1 := rfl
        have hindex' := hindex hlt
        rw [UInt64.toNat_sub_of_le _ _ (UInt64.le_iff_toNat_le.mpr (by omega)), hone]
        omega
      obtain ⟨counts'', hadd', hrest⟩ := ih hlt (hadd.length ▸ hmore) (hadd.length ▸ hbits) hnext
        (by omega)
      rw [if_pos hmore]
      rw [hadd.length] at hadd'
      exact ⟨counts'', hadd.trans hadd' (Nat.mul_le_mul_left _ (Nat.le_succ k)) hmore, hrest⟩
    · rw [if_neg hmore]
      exact ⟨counts', hadd.of_length_le (Nat.le_of_not_le hmore), rfl⟩

/-- An analyzer for a configuration: it has a count for each category and expects a byte string
with the bits of all categories. -/
structure IsFor (a : BasicRapporAnalyzer) (validator : RapporConfigValidator) : Prop where
  config : a.config = some validator
  length : a.categoryCounts.length = validator.numBits
  numEncodingBytes : a.numEncodingBytes = numBytesOf validator.numBits

variable {a : BasicRapporAnalyzer}

theorem isFor_new (hnew : RapporConfigValidator.new serialize config = some validator) :
    (new serialize config).IsFor validator := by
  refine ⟨hnew, ?_, ?_⟩
  · rw [new, hnew]
    exact List.length_replicate
  · rw [new, hnew]
    rfl

/-- All bits of the categories are in the bytes. -/
theorem le_mul_numBytesOf (numBits : ℕ) : numBits ≤ bitsPerByte * numBytesOf numBits := by
  rw [numBytesOf, bitsPerByte]
  omega

/-- An observation of the right length is counted. -/
theorem IsFor.addObservation_of_length (h : a.IsFor validator) (hfits : validator.numBits < 2 ^ 64)
    (hdata : data.length = numBytesOf validator.numBits) :
    ∃ a', a.addObservation data = some (true, a') ∧ a'.IsFor validator ∧
      a'.numObservations = a.numObservations + 1 ∧ a'.observationErrors = a.observationErrors ∧
      ∀ i < validator.numBits, a'.categoryCounts.getD i 0 =
        a.categoryCounts.getD i 0 + if bitSet data i then 1 else 0 := by
  have hbits := le_mul_numBytesOf validator.numBits
  have hsize : data.length < 2 ^ 64 := by
    rw [hdata, numBytesOf, bitsPerByte]
    omega
  have hindex (hpos : 0 < data.length) :
      (UInt64.ofNat data.length - 1).toNat = data.length - 1 - 0 := by
    have hlength := UInt64.toNat_ofNat_of_lt' hsize
    have hone : (1 : UInt64).toNat = 1 := rfl
    rw [UInt64.toNat_sub_of_le _ _ (UInt64.le_iff_toNat_le.mpr (by omega)), hlength, hone,
      Nat.sub_zero]
  rw [← hdata, ← h.length] at hbits
  obtain ⟨counts', hadd, hloop⟩ := byteLoop_spec (Nat.zero_le _) (Nat.zero_le _) hbits hindex
  have hlength := hdata.trans h.numEncodingBytes.symm
  refine ⟨{ a with numObservations := a.numObservations + 1, categoryCounts := counts' }, ?_,
    ⟨h.config, hadd.length.trans h.length, h.numEncodingBytes⟩, rfl, rfl, ?_⟩
  · rw [addObservation, h.config, if_neg (by simp), if_neg (not_not.mpr hlength)]
    rw [Nat.sub_zero, Nat.mul_zero] at hloop
    rw [hloop]
    rfl
  · intro i hi
    rw [hadd.getD i (h.length ▸ hi)]
    simp [h.length, hi]

/-- An observation of a wrong length changes no count. -/
theorem addObservation_of_length_ne (h : data.length ≠ a.numEncodingBytes) :
    a.addObservation data =
      some (false, { a with observationErrors := a.observationErrors + 1 }) := by
  rw [addObservation, if_pos h, ite_self]

end BasicRapporAnalyzer

end Cobalt.Algorithms
