import Cobalt.Algorithms.NoiseFreeRappor
import Cobalt.Lib.FiniteLaw
import Mathlib.Data.Rat.Floor

/-!
# The random bits of Basic RAPPOR

`RandomBits` draws a word of 32 bits for each bit of its result, and compares the word that it reads
for a bit with a threshold. It reads the word of the bit `i` of the byte `b` at the index `b + i`, so
that bits of different bytes share a word. The encoder takes one mask for the bits that are 0 and
another one for the bit that is 1, so two bits that share a word are equal in every observation
unless one of them is the bit of the encoded value.

The words are a list, which is uniformly distributed where a law is stated. A probability of type
`float` is a rational number, whose product with `2^32` is exact.

## Main definitions

* `randomBits`: the generator, over the words that it draws.
* `BasicRapporEncoder.encodeNullObservation`: the observation of no value.
* `observationLaw`, `nullObservationLaw`: the laws of the observations.

## Main results

* `encode_twoMasks`: each bit of an observation is the comparison of one word.
* `prob_bitsDiffer`: bits that share a word tell the encoded value.
-/

namespace Cobalt.Algorithms

/-! ### The generator -/

/-- `kMaxRandomBits`: in spite of its name, the largest number of bytes. -/
def maxRandomBits : ℕ := 256

/-- The number of values of a word. -/
def numWords : ℕ := 2 ^ 32

/-- The threshold of a probability: the integer that best approximates its product with `2^32`. -/
def threshold (p : ℚ) : ℕ := ⌊p * numWords + 1 / 2⌋.toNat

/-- One turn of the loop over the bits of a byte. -/
def addRandomBit (words : List UInt32) (threshold byteIndex : ℕ) (byte : UInt8) (i : ℕ) : UInt8 :=
  byte ||| (if (words.getD (byteIndex + i) 0).toNat < threshold then 1 else 0) <<< UInt8.ofNat i

/-- `RandomBits`, where `words` is what `RandomBytes` writes: 8 words for each byte of the result.
The index of a word is that of the byte plus that of the bit, and not 8 times the former. -/
def randomBits (words : List UInt32) (p : ℚ) (size : ℕ) : Option (List UInt8) :=
  if size > maxRandomBits then none
  else if p ≤ 0 ∨ p > 1 then some (List.replicate size 0)
  else
    some ((List.range size).map fun byteIndex =>
      (List.range bitsPerByte).foldl (addRandomBit words (threshold p) byteIndex) 0)

/-- The generator of an encoder that draws some words for each of its two masks, whose
probabilities are different. -/
def twoMasks (p : ℚ) (pWords qWords : List UInt32) (probability : ℚ) (size : ℕ) :
    Option (List UInt8) :=
  randomBits (if probability = p then pWords else qWords) probability size

/-- `EncodeNullObservation`: the status and the observation that is written. -/
def BasicRapporEncoder.encodeNullObservation (e : BasicRapporEncoder)
    (observationOut : List UInt8) : RapporStatus × List UInt8 :=
  match e.initializeObservationData with
  | (_, some (config, data)) =>
    let flipped := flipBits config.prob0Becomes1 config.prob1Stays1 e.random data
    if flipped.1 = .ok then (.ok, flipped.2) else (flipped.1, observationOut)
  | (status, none) => (status, observationOut)

/-! ### The bits of the masks -/

/-- The threshold is one of the numbers from 0 to `2^32`. -/
theorem threshold_le {p : ℚ} (hp : p ≤ 1) : threshold p ≤ numWords := by
  have hfloor : ⌊p * numWords + 1 / 2⌋ ≤ numWords := by
    refine Int.le_of_lt_add_one (Int.floor_lt.mpr ?_)
    have hmul : p * (numWords : ℚ) ≤ 1 * numWords :=
      mul_le_mul_of_nonneg_right hp (Nat.cast_nonneg _)
    push_cast
    linarith
  rw [threshold]
  omega

theorem threshold_zero : threshold 0 = 0 := by
  rw [threshold, zero_mul, zero_add, Int.floor_eq_zero_iff.mpr (by norm_num), Int.toNat_zero]

theorem threshold_one : threshold 1 = numWords := by
  have hfloor : ⌊(1 : ℚ) * numWords + 1 / 2⌋ = numWords := by
    rw [Int.floor_eq_iff]
    push_cast
    constructor <;> linarith
  rw [threshold, hfloor, Int.toNat_natCast]

/-- The threshold of a probability that is a multiple of `1/2^32` stands for exactly it. -/
theorem threshold_of_mul_eq {p : ℚ} {n : ℕ} (h : p * numWords = n) : threshold p = n := by
  have hfloor : ⌊(n : ℚ) + 1 / 2⌋ = n := by
    rw [Int.floor_eq_iff]
    push_cast
    constructor <;> linarith
  rw [threshold, h, hfloor, Int.toNat_natCast]

/-- A mask of the analyzer selects one bit of a byte. -/
theorem mask_and_ne_zero_iff_getLsbD {j : ℕ} (hj : j < 8) (byte : UInt8) :
    shiftedMask 1 j &&& byte ≠ 0 ↔ byte.toBitVec.getLsbD j = true := by
  have hall : ∀ j < 8, ∀ v : BitVec 8,
      (shiftedMask 1 j).toBitVec &&& v ≠ 0 ↔ v.getLsbD j = true := by decide +kernel
  rw [← hall j hj byte.toBitVec, ← UInt8.toBitVec_and, ne_eq, ne_eq, ← UInt8.toBitVec_inj]
  rfl

/-- The bit that one turn adds. -/
theorem getLsbD_addRandomBit {i j : ℕ} (hi : i < 8) (hj : j < 8) (words : List UInt32)
    (threshold byteIndex : ℕ) (byte : UInt8) :
    (addRandomBit words threshold byteIndex byte i).toBitVec.getLsbD j =
      (byte.toBitVec.getLsbD j ||
        (decide (j = i) && decide ((words.getD (byteIndex + i) 0).toNat < threshold))) := by
  have hshift : ∀ i < 8, ∀ j < 8,
      (((1 : UInt8) <<< UInt8.ofNat i).toBitVec.getLsbD j = decide (j = i)) ∧
      (((0 : UInt8) <<< UInt8.ofNat i).toBitVec.getLsbD j = false) := by decide
  rw [addRandomBit, UInt8.toBitVec_or, BitVec.getLsbD_or]
  split_ifs with h
  · rw [(hshift i hi j hj).1, decide_eq_true h, Bool.and_true]
  · rw [(hshift i hi j hj).2, decide_eq_false h, Bool.and_false]

/-- The bits of a random byte, after some turns of the loop. -/
theorem getLsbD_foldl_addRandomBit {k j : ℕ} (hk : k ≤ 8) (hj : j < 8) (words : List UInt32)
    (threshold byteIndex : ℕ) :
    ((List.range k).foldl (addRandomBit words threshold byteIndex) 0).toBitVec.getLsbD j =
      (decide (j < k) && decide ((words.getD (byteIndex + j) 0).toNat < threshold)) := by
  induction k with
  | zero => simp
  | succ k ih =>
    rw [List.range_succ, List.foldl_append, List.foldl_cons, List.foldl_nil,
      getLsbD_addRandomBit (by omega) hj, ih (by omega)]
    rcases lt_trichotomy j k with h | rfl | h
    · simp [h, h.trans k.lt_succ_self, h.ne]
    · simp
    · simp [Nat.not_lt.mpr h.le, h.ne', Nat.not_lt.mpr (Nat.succ_le_of_lt h)]

/-- A mask: its length, and its bits as comparisons of words with the threshold. -/
theorem exists_randomBits {p : ℚ} (hp : 0 ≤ p) (hp' : p ≤ 1) {size : ℕ} (hsize : size ≤ 256)
    (words : List UInt32) :
    ∃ mask, randomBits words p size = some mask ∧
      ∀ b < size, ∀ j < 8, (mask.getD b 0).toBitVec.getLsbD j =
        decide ((words.getD (b + j) 0).toNat < threshold p) := by
  rw [randomBits, if_neg (by rw [maxRandomBits]; omega)]
  by_cases hzero : p ≤ 0
  · obtain rfl : p = 0 := le_antisymm hzero hp
    refine ⟨_, if_pos (.inl hzero), fun b hb j _ => ?_⟩
    rw [threshold_zero, List.getD_eq_getElem?_getD, List.getElem?_replicate, if_pos hb]
    simp
  · refine ⟨_, if_neg (not_or.mpr ⟨hzero, not_lt.mpr hp'⟩), fun b hb j hj => ?_⟩
    rw [List.getD_eq_getElem?_getD, List.getElem?_map, List.getElem?_range hb, Option.map_some,
      Option.getD_some, bitsPerByte, getLsbD_foldl_addRandomBit le_rfl hj, decide_eq_true hj,
      Bool.true_and]

/-! ### The bits of an observation -/

/-- The index of the word that is read for the bit of a category. -/
def wordIndex (numBytes category : ℕ) : ℕ :=
  numBytes - 1 - category / bitsPerByte + category % bitsPerByte

/-- The bit of a category, read from the byte that holds it. -/
theorem bitSet_eq_getLsbD (data : List UInt8) (i : ℕ) :
    bitSet data i =
      (data.getD (data.length - 1 - i / bitsPerByte) 0).toBitVec.getLsbD (i % bitsPerByte) := by
  have hmod : i % bitsPerByte < 8 := Nat.mod_lt i (by decide)
  rw [bitSet]
  exact Bool.decide_congr (mask_and_ne_zero_iff_getLsbD hmod _) |>.trans Bool.decide_eq_true

theorem bitSet_replicate_zero (numBytes i : ℕ) : bitSet (List.replicate numBytes 0) i = false := by
  rw [bitSet_eq_getLsbD, List.getD_eq_getElem?_getD, List.getElem?_replicate]
  split_ifs
  · simp
  · simp

/-- `FlipBits` sets each bit by a comparison of one word: with the threshold of `q` if the bit is
1, and with that of `p` if it is 0. -/
theorem flipBits_twoMasks {p q : ℚ} (hp : 0 ≤ p) (hp' : p ≤ 1) (hq : 0 ≤ q) (hq' : q ≤ 1)
    (hne : p ≠ q) (pWords qWords : List UInt32) {data : List UInt8} (hsize : data.length ≤ 256) :
    ∃ flipped, flipBits p q (twoMasks p pWords qWords) data = (.ok, flipped) ∧
      flipped.length = data.length ∧
      ∀ i < bitsPerByte * data.length, bitSet flipped i =
        if bitSet data i then
          decide ((qWords.getD (wordIndex data.length i) 0).toNat < threshold q)
        else decide ((pWords.getD (wordIndex data.length i) 0).toNat < threshold p) := by
  rw [flipBits]
  split_ifs with hfree
  · -- Without noise the thresholds are 0 and 2^32, which every word is below.
    obtain rfl : p = 0 := le_antisymm hfree.1 hp
    obtain rfl : q = 1 := le_antisymm hq' hfree.2
    refine ⟨data, rfl, rfl, fun i _ => ?_⟩
    rw [threshold_zero, threshold_one, numWords, decide_eq_true (UInt32.toNat_lt _)]
    simp
  · obtain ⟨pMask, hpMask, hpBits⟩ := exists_randomBits hp hp' hsize pWords
    obtain ⟨qMask, hqMask, hqBits⟩ := exists_randomBits hq hq' hsize qWords
    have hpEq : twoMasks p pWords qWords p data.length = some pMask := by
      rw [twoMasks, if_pos rfl, hpMask]
    have hqEq : twoMasks p pWords qWords q data.length = some qMask := by
      rw [twoMasks, if_neg hne.symm, hqMask]
    rw [hpEq, hqEq]
    refine ⟨_, rfl, List.length_mapIdx, fun i hi => ?_⟩
    rw [bitsPerByte] at hi
    have hbyte : data.length - 1 - i / bitsPerByte < data.length := by
      rw [bitsPerByte]
      omega
    have hbit : i % bitsPerByte < 8 := Nat.mod_lt i (by decide)
    rw [bitSet_eq_getLsbD, bitSet_eq_getLsbD, List.length_mapIdx, wordIndex,
      ← hpBits _ hbyte _ hbit, ← hqBits _ hbyte _ hbit]
    simp only [List.getD_eq_getElem?_getD, List.getElem?_mapIdx, List.getElem?_eq_getElem hbyte,
      Option.map_some, Option.getD_some, UInt8.toBitVec_or, UInt8.toBitVec_and, UInt8.toBitVec_not,
      BitVec.getLsbD_or, BitVec.getLsbD_and, BitVec.getLsbD_not]
    split_ifs with hset
    · rw [hset]
      simp
    · rw [Bool.not_eq_true] at hset
      rw [hset]
      simp [hbit]

/-! ### The observations of an encoder -/

section Encode

variable {serialize : ValuePart → List UInt8} {config : BasicRapporConfig}
  {validator : RapporConfigValidator} {value : ValuePart}

/-- The probabilities of a valid configuration. -/
theorem RapporConfigValidator.probabilities_of_new
    (hnew : RapporConfigValidator.new serialize config = some validator) :
    (0 ≤ config.prob0Becomes1 ∧ config.prob0Becomes1 ≤ 1) ∧
      (0 ≤ config.prob1Stays1 ∧ config.prob1Stays1 ≤ 1) ∧
      config.prob0Becomes1 ≠ config.prob1Stays1 := by
  have hvalid : commonValidate config.prob0Becomes1 config.prob1Stays1 config.probRr = true := by
    by_contra h
    rw [RapporConfigValidator.new, if_neg h] at hnew
    cases hnew
  rw [commonValidate] at hvalid
  split_ifs at hvalid with hp hq hne
  simp only [not_or, not_lt] at hp hq
  exact ⟨hp, hq, hne⟩

variable (hnew : RapporConfigValidator.new serialize config = some validator)
  {clientSecret : List UInt8} (hsecret : clientSecret ≠ [])
  (hserialize : Function.Injective serialize)

/-- An encoder of a configuration, with the words of its two masks. -/
def rapporEncoderOf (serialize : ValuePart → List UInt8) (config : BasicRapporConfig)
    (clientSecret : List UInt8) (pWords qWords : List UInt32) : BasicRapporEncoder :=
  .new serialize config (twoMasks config.prob0Becomes1 pWords qWords) clientSecret

/-- The bit of a category in an observation, as a comparison of a word. -/
def wordBit (p : ℚ) (words : List UInt32) (numBytes category : ℕ) : Bool :=
  decide ((words.getD (wordIndex numBytes category) 0).toNat < threshold p)

include hnew hsecret hserialize

/-- The observation of a category: the word of a bit is compared with the threshold of `q` for
the encoded category, and with that of `p` for the others. -/
theorem encode_twoMasks (hvalue : value ∈ validator.categories) (pWords qWords : List UInt32)
    (out : List UInt8) :
    ∃ data, (rapporEncoderOf serialize config clientSecret pWords qWords).encode serialize value out =
        some (.ok, data) ∧ data.length = numBytesOf validator.numBits ∧
      ∀ i < validator.numBits, bitSet data i =
        if i = validator.categories.idxOf value then
          wordBit config.prob1Stays1 qWords (numBytesOf validator.numBits) i
        else wordBit config.prob0Becomes1 pWords (numBytesOf validator.numBits) i := by
  obtain ⟨hpEq, hqEq, hbits, -, hindex⟩ := RapporConfigValidator.of_new hserialize hnew
  obtain ⟨hp, hq, hne⟩ := RapporConfigValidator.probabilities_of_new hnew
  have hencoder : (rapporEncoderOf serialize config clientSecret pWords qWords).IsFor validator :=
    ⟨hnew, hsecret⟩
  have hlt : validator.categories.idxOf value < validator.numBits :=
    List.idxOf_lt_length_of_mem hvalue
  have hfits := BasicRapporAnalyzer.le_mul_numBytesOf validator.numBits
  have hbyte : validator.categories.idxOf value / bitsPerByte + 1 ≤
      numBytesOf validator.numBits := by
    rw [numBytesOf, bitsPerByte]
    omega
  have hsize : (oneHot (numBytesOf validator.numBits) (validator.categories.idxOf value)).length ≤
      256 := by
    rw [length_oneHot, numBytesOf, bitsPerByte]
    omega
  obtain ⟨data, hflip, hlength, hdata⟩ :=
    flipBits_twoMasks hp.1 hp.2 hq.1 hq.2 hne pWords qWords hsize
  rw [length_oneHot] at hlength hdata
  refine ⟨data, ?_, hlength, fun i hi => ?_⟩
  · rw [BasicRapporEncoder.encode, hencoder.initializeObservationData_eq]
    simp only [hindex, if_pos hvalue, Int.toNat_natCast, List.length_replicate, if_pos hbyte, hpEq,
      hqEq]
    rw [← oneHot]
    have hrandom : (rapporEncoderOf serialize config clientSecret pWords qWords).random =
        twoMasks config.prob0Becomes1 pWords qWords := rfl
    rw [hrandom, hflip, if_pos rfl]
    exact if_neg (by omega)
  · rw [hdata i (hi.trans_le hfits), bitSet_oneHot (hlt.trans_le hfits) (hi.trans_le hfits)]
    simp only [decide_eq_true_eq, wordBit]

/-- The observation of no value compares each word with the threshold of `p`. -/
theorem encodeNullObservation_twoMasks (pWords qWords : List UInt32) (out : List UInt8) :
    ∃ data, (rapporEncoderOf serialize config clientSecret pWords qWords).encodeNullObservation out =
        (.ok, data) ∧ data.length = numBytesOf validator.numBits ∧
      ∀ i < validator.numBits, bitSet data i =
        wordBit config.prob0Becomes1 pWords (numBytesOf validator.numBits) i := by
  obtain ⟨hpEq, hqEq, hbits, -⟩ := RapporConfigValidator.of_new hserialize hnew
  obtain ⟨hp, hq, hne⟩ := RapporConfigValidator.probabilities_of_new hnew
  have hencoder : (rapporEncoderOf serialize config clientSecret pWords qWords).IsFor validator :=
    ⟨hnew, hsecret⟩
  have hfits := BasicRapporAnalyzer.le_mul_numBytesOf validator.numBits
  have hsize : (List.replicate (numBytesOf validator.numBits) (0 : UInt8)).length ≤ 256 := by
    rw [List.length_replicate, numBytesOf, bitsPerByte]
    omega
  obtain ⟨data, hflip, hlength, hdata⟩ :=
    flipBits_twoMasks hp.1 hp.2 hq.1 hq.2 hne pWords qWords hsize
  rw [List.length_replicate] at hlength hdata
  have hrandom : (rapporEncoderOf serialize config clientSecret pWords qWords).random =
      twoMasks config.prob0Becomes1 pWords qWords := rfl
  refine ⟨data, ?_, hlength, fun i hi => ?_⟩
  · rw [BasicRapporEncoder.encodeNullObservation, hencoder.initializeObservationData_eq]
    simp only [hpEq, hqEq, hrandom, hflip, if_true]
  · rw [hdata i (hi.trans_le hfits), bitSet_replicate_zero, if_neg Bool.false_ne_true, wordBit]

end Encode

/-! ### The laws of the observations -/

/-- The law of the words that `RandomBytes` writes. -/
def wordsLaw (count : ℕ) : FiniteLaw (List UInt32) :=
  .replicate count ((FiniteLaw.uniform numWords (by decide)).map UInt32.ofNat)

/-- The law of the two vectors of words for a number of bytes. -/
def masksLaw (numBytes : ℕ) : FiniteLaw (List UInt32 × List UInt32) :=
  (wordsLaw (bitsPerByte * numBytes)).bind fun pWords =>
    (wordsLaw (bitsPerByte * numBytes)).map fun qWords => (pWords, qWords)

theorem expect_masksLaw_fst (numBytes : ℕ) (f : List UInt32 → ℚ) :
    (masksLaw numBytes).expect (fun words => f words.1) =
      (wordsLaw (bitsPerByte * numBytes)).expect f := by
  simp only [masksLaw, FiniteLaw.expect_bind, FiniteLaw.expect_map, FiniteLaw.expect_const]

theorem expect_masksLaw_snd (numBytes : ℕ) (f : List UInt32 → ℚ) :
    (masksLaw numBytes).expect (fun words => f words.2) =
      (wordsLaw (bitsPerByte * numBytes)).expect f := by
  simp only [masksLaw, FiniteLaw.expect_bind, FiniteLaw.expect_map, FiniteLaw.expect_const]

/-- The law of the observation of a value, for a configuration with some bytes. -/
def observationLaw (serialize : ValuePart → List UInt8) (config : BasicRapporConfig)
    (clientSecret : List UInt8) (numBytes : ℕ) (value : ValuePart) :
    FiniteLaw (Option (RapporStatus × List UInt8)) :=
  (masksLaw numBytes).map fun words =>
    (rapporEncoderOf serialize config clientSecret words.1 words.2).encode serialize value []

/-- The law of the observation of no value. -/
def nullObservationLaw (serialize : ValuePart → List UInt8) (config : BasicRapporConfig)
    (clientSecret : List UInt8) (numBytes : ℕ) : FiniteLaw (Option (RapporStatus × List UInt8)) :=
  (masksLaw numBytes).map fun words =>
    some ((rapporEncoderOf serialize config clientSecret words.1 words.2).encodeNullObservation [])

/-- The probability that the threshold of a probability stands for. -/
def effective (p : ℚ) : ℚ := threshold p / numWords

/-- The bits of two categories differ in an observation. -/
def bitsDiffer (c c' : ℕ) : Option (RapporStatus × List UInt8) → Bool
  | some (.ok, data) => bitSet data c != bitSet data c'
  | _ => false

/-- A word of each vector is below the threshold of a probability with the effective one. -/
theorem prob_word_lt {p : ℚ} (hp : p ≤ 1) :
    ((FiniteLaw.uniform numWords (by decide)).map UInt32.ofNat).prob
      (fun word => word.toNat < threshold p) = effective p := by
  rw [FiniteLaw.prob, FiniteLaw.expect_map, effective,
    ← FiniteLaw.prob_uniform_lt (by decide : 0 < numWords) (threshold_le hp), FiniteLaw.prob]
  refine FiniteLaw.expect_congr _ fun i hi => ?_
  have hi : i < 2 ^ 32 := FiniteLaw.possible_uniform.mp hi
  rw [UInt32.toNat_ofNat_of_lt' hi]

/-- The index of the word of a category is in the vector. -/
theorem wordIndex_lt {numBits c : ℕ} (hc : c < numBits) :
    wordIndex (numBytesOf numBits) c < bitsPerByte * numBytesOf numBits := by
  rw [wordIndex, numBytesOf, bitsPerByte]
  omega

/-- The expectation of a function of one bit. -/
theorem expect_wordBit {p : ℚ} (hp : p ≤ 1) {numBits c : ℕ} (hc : c < numBits) :
    (wordsLaw (bitsPerByte * numBytesOf numBits)).expect
      (fun words => if wordBit p words (numBytesOf numBits) c then 1 else 0) = effective p := by
  rw [← prob_word_lt hp, wordsLaw]
  simp only [wordBit, decide_eq_true_eq]
  exact FiniteLaw.expect_replicate_getD _ (wordIndex_lt hc) 0
    fun word : UInt32 => if word.toNat < threshold p then 1 else 0

/-! ### Bits that share a word -/

section Shared

variable {serialize : ValuePart → List UInt8} {config : BasicRapporConfig}
  {validator : RapporConfigValidator} {value : ValuePart} {clientSecret : List UInt8} {c c' : ℕ}

/-- The bits of two categories that share a word differ with this probability, if exactly one of
them is that of the encoded value. -/
theorem expect_wordBits_differ {p q : ℚ} (hp : p ≤ 1) (hq : q ≤ 1) {numBits : ℕ}
    (hc : c < numBits) (hc' : c' < numBits) :
    (masksLaw (numBytesOf numBits)).expect (fun words =>
      if wordBit q words.2 (numBytesOf numBits) c != wordBit p words.1 (numBytesOf numBits) c'
      then 1 else 0) =
        effective q * (1 - effective p) + (1 - effective q) * effective p := by
  have hxor (a b : Bool) : (if a != b then 1 else 0 : ℚ) =
      (1 - 2 * (if b then 1 else 0)) * (if a then 1 else 0) + if b then 1 else 0 := by
    cases a <;> cases b <;> norm_num
  calc _ = (wordsLaw (bitsPerByte * numBytesOf numBits)).expect fun pWords =>
        (wordsLaw (bitsPerByte * numBytesOf numBits)).expect fun qWords =>
          (1 - 2 * (if wordBit p pWords (numBytesOf numBits) c' then 1 else 0)) *
            (if wordBit q qWords (numBytesOf numBits) c then 1 else 0) +
          if wordBit p pWords (numBytesOf numBits) c' then 1 else 0 := by
        rw [masksLaw, FiniteLaw.expect_bind]
        simp only [FiniteLaw.expect_map, hxor]
    _ = (wordsLaw (bitsPerByte * numBytesOf numBits)).expect fun pWords =>
        (1 - 2 * effective q) * (if wordBit p pWords (numBytesOf numBits) c' then 1 else 0) +
          effective q := by
        refine congrArg _ (funext fun pWords => ?_)
        rw [FiniteLaw.expect_add, FiniteLaw.expect_mul_left, FiniteLaw.expect_const,
          expect_wordBit hq hc]
        ring
    _ = _ := by
        rw [FiniteLaw.expect_add, FiniteLaw.expect_mul_left, FiniteLaw.expect_const,
          expect_wordBit hp hc']
        ring

/-- **Bits that share a word tell the encoded value.** If the words of two categories have one index,
their bits differ with a fixed probability in the observation of each of the two, never in that of
another category, and never in the observation of no value. -/
theorem prob_bitsDiffer (hserialize : Function.Injective serialize)
    (hnew : RapporConfigValidator.new serialize config = some validator)
    (hsecret : clientSecret ≠ []) (hc : c < validator.numBits) (hc' : c' < validator.numBits)
    (hne : c ≠ c')
    (hword : wordIndex (numBytesOf validator.numBits) c =
      wordIndex (numBytesOf validator.numBits) c')
    (hvalue : value ∈ validator.categories) :
    (observationLaw serialize config clientSecret (numBytesOf validator.numBits) value).prob
        (fun observation => bitsDiffer c c' observation) =
      (if validator.categories.idxOf value = c ∨ validator.categories.idxOf value = c' then
        effective config.prob1Stays1 * (1 - effective config.prob0Becomes1) +
          (1 - effective config.prob1Stays1) * effective config.prob0Becomes1
      else 0) ∧
    (nullObservationLaw serialize config clientSecret (numBytesOf validator.numBits)).prob
        (fun observation => bitsDiffer c c' observation) = 0 := by
  obtain ⟨hp, hq, -⟩ := RapporConfigValidator.probabilities_of_new hnew
  -- The word of one of the two categories is that of the other one.
  have hshared (p : ℚ) (words : List UInt32) :
      wordBit p words (numBytesOf validator.numBits) c' =
        wordBit p words (numBytesOf validator.numBits) c := by
    rw [wordBit, wordBit, hword]
  constructor
  · have hdiffer (words : List UInt32 × List UInt32) : bitsDiffer c c'
        ((rapporEncoderOf serialize config clientSecret words.1 words.2).encode serialize value []) =
          ((if c = validator.categories.idxOf value then
              wordBit config.prob1Stays1 words.2 (numBytesOf validator.numBits) c
            else wordBit config.prob0Becomes1 words.1 (numBytesOf validator.numBits) c) !=
          if c' = validator.categories.idxOf value then
              wordBit config.prob1Stays1 words.2 (numBytesOf validator.numBits) c'
            else wordBit config.prob0Becomes1 words.1 (numBytesOf validator.numBits) c') := by
      obtain ⟨data, hencode, -, hbits⟩ :=
        encode_twoMasks hnew hsecret hserialize hvalue words.1 words.2 []
      rw [hencode, bitsDiffer, hbits c hc, hbits c' hc']
    rw [FiniteLaw.prob, observationLaw, FiniteLaw.expect_map]
    simp only [hdiffer]
    by_cases hfirst : c = validator.categories.idxOf value
    · have hsecond : c' ≠ validator.categories.idxOf value := fun h => hne (hfirst.trans h.symm)
      rw [if_pos (.inl hfirst.symm)]
      simp only [if_pos hfirst, if_neg hsecond]
      exact expect_wordBits_differ hp.2 hq.2 hc hc'
    · by_cases hsecond : c' = validator.categories.idxOf value
      · rw [if_pos (.inr hsecond.symm)]
        simp only [if_neg hfirst, if_pos hsecond, bne_comm (a := wordBit config.prob0Becomes1 _ _ c)]
        exact expect_wordBits_differ hp.2 hq.2 hc' hc
      · rw [if_neg (not_or.mpr ⟨Ne.symm hfirst, Ne.symm hsecond⟩)]
        simp only [if_neg hfirst, if_neg hsecond, hshared, bne_self_eq_false, Bool.false_eq_true,
          if_false, FiniteLaw.expect_const]
  · have hdiffer (words : List UInt32 × List UInt32) : bitsDiffer c c'
        (some ((rapporEncoderOf serialize config clientSecret words.1 words.2).encodeNullObservation
          [])) = false := by
      obtain ⟨data, hencode, -, hbits⟩ :=
        encodeNullObservation_twoMasks hnew hsecret hserialize words.1 words.2 []
      rw [hencode, bitsDiffer, hbits c hc, hbits c' hc', hshared, bne_self_eq_false]
    rw [FiniteLaw.prob, nullObservationLaw, FiniteLaw.expect_map]
    simp only [hdiffer, Bool.false_eq_true, if_false, FiniteLaw.expect_const]

end Shared

/-- Ten indexed categories with the largest noise. -/
def tenCategories : BasicRapporConfig where
  prob0Becomes1 := 1 / 4
  prob1Stays1 := 3 / 4
  probRr := 0
  categories := .indexed 10

theorem exists_tenCategories :
    ∃ validator, RapporConfigValidator.new serializeToString tenCategories = some validator ∧
      validator.categories = (List.range 10).map (fun i => .indexValue (UInt32.ofNat i)) ∧
      numBytesOf validator.numBits = 2 := by
  have hvalid : commonValidate tenCategories.prob0Becomes1 tenCategories.prob1Stays1
      tenCategories.probRr = true := by norm_num [commonValidate, tenCategories]
  obtain ⟨entries, hentries⟩ := Option.isSome_iff_exists.mp (by decide +kernel :
    (insertCategories serializeToString
      ((List.range 10).map fun i => .indexValue (UInt32.ofNat i)) 0 []).isSome = true)
  refine ⟨⟨1 / 4, 3 / 4, (List.range 10).map fun i => .indexValue (UInt32.ofNat i), entries⟩, ?_,
    rfl, ?_⟩
  · rw [RapporConfigValidator.new, if_pos hvalid]
    exact congrArg (Option.map fun entries => RapporConfigValidator.mk (1 / 4) (3 / 4) _ entries)
      hentries
  · rw [RapporConfigValidator.numBits, List.length_map, List.length_range]
    rfl

/-- The thresholds of the probabilities 1/4 and 3/4 are exact. -/
theorem effective_tenCategories :
    effective tenCategories.prob0Becomes1 = tenCategories.prob0Becomes1 ∧
      effective tenCategories.prob1Stays1 = tenCategories.prob1Stays1 := by
  constructor
  · rw [effective, threshold_of_mul_eq (n := 2 ^ 30) (by norm_num [tenCategories, numWords])]
    norm_num [numWords, tenCategories]
  · rw [effective, threshold_of_mul_eq (n := 3 * 2 ^ 30) (by norm_num [tenCategories, numWords])]
    norm_num [numWords, tenCategories]

/-- With ten categories and the largest noise, 5 of 8 observations of the category 0 have different
bits for the categories 0 and 9, and no observation of the category 5 has. -/
theorem prob_bitsDiffer_ten :
    (observationLaw serializeToString tenCategories [7] 2 (.indexValue 0)).prob
        (fun observation => bitsDiffer 0 9 observation) = 5 / 8 ∧
      (observationLaw serializeToString tenCategories [7] 2 (.indexValue 5)).prob
        (fun observation => bitsDiffer 0 9 observation) = 0 ∧
      (nullObservationLaw serializeToString tenCategories [7] 2).prob
        (fun observation => bitsDiffer 0 9 observation) = 0 := by
  obtain ⟨validator, hnew, hcategories, hbytes⟩ := exists_tenCategories
  have hnum : validator.numBits = 10 := by
    rw [RapporConfigValidator.numBits, hcategories]
    rfl
  have hlaw (value : ValuePart) (hvalue : value ∈ validator.categories) :=
    prob_bitsDiffer serializeToString_injective hnew (List.cons_ne_nil 7 [])
      (show 0 < validator.numBits by omega) (show 9 < validator.numBits by omega) (by decide)
      (by rw [hbytes]; rfl) hvalue
  rw [hbytes, hcategories, effective_tenCategories.1, effective_tenCategories.2] at hlaw
  have hzero := hlaw (.indexValue 0) (by decide)
  have hfive := hlaw (.indexValue 5) (by decide)
  rw [if_pos (by decide)] at hzero
  rw [if_neg (by decide)] at hfive
  exact ⟨hzero.1.trans (by norm_num [tenCategories]), hfive.1, hfive.2⟩

end Cobalt.Algorithms
