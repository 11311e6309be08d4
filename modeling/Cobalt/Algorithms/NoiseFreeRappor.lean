import Cobalt.Algorithms.BasicRappor
import Cobalt.Algorithms.CountMin

/-!
# Basic RAPPOR without noise

If no bit is ever flipped, the encoder returns a byte string with the bit of the encoded category,
and the analyzer counts how often each category was encoded.

## Main definitions

* `encodeValues`: the observations of some values.
* `serializeToString`: the serialization of a value.

## Main results

* `BasicRapporEncoder.encode_of_noiseFree`: the observation of a category.
* `noiseFree_exact`: the counts are exact, a value that is not a category is rejected, and no byte
  string makes the analyzer fail.
-/

namespace Cobalt.Algorithms

variable {serialize : ValuePart → List UInt8} {config : BasicRapporConfig}
  {validator : RapporConfigValidator} {value : ValuePart}

/-- The observations of some values, if the encoder returns `ok` for each of them. -/
def encodeValues (serialize : ValuePart → List UInt8) (encoder : BasicRapporEncoder)
    (values : List ValuePart) : Option (List (List UInt8)) :=
  values.mapM fun value => do
    let encoded ← encoder.encode serialize value []
    if encoded.1 = .ok then some encoded.2 else none

/-- An encoder for a configuration, whose client secret is valid. -/
structure BasicRapporEncoder.IsFor (e : BasicRapporEncoder) (validator : RapporConfigValidator) :
    Prop where
  config : e.config = some validator
  secret : e.clientSecret ≠ []

/-- The configuration flips no bit. -/
structure BasicRapporConfig.NoiseFree (config : BasicRapporConfig) : Prop where
  prob0Becomes1 : config.prob0Becomes1 = 0
  prob1Stays1 : config.prob1Stays1 = 1

/-! ### The observation of a value -/

section Encode

variable {encoder : BasicRapporEncoder} (hencoder : encoder.IsFor validator)
  (hserialize : Function.Injective serialize)
  (hnew : RapporConfigValidator.new serialize config = some validator)

include hencoder in
theorem BasicRapporEncoder.IsFor.initializeObservationData_eq :
    encoder.initializeObservationData =
      (.ok, some (validator, List.replicate (numBytesOf validator.numBits) 0)) := by
  have hsecret : encoder.clientSecret.isEmpty = false := by
    simpa using hencoder.secret
  rw [BasicRapporEncoder.initializeObservationData, hencoder.config]
  simp only [hsecret, Bool.false_eq_true, if_false]

include hencoder hserialize hnew

/-- A value that is not a category is rejected, and nothing is written. -/
theorem BasicRapporEncoder.encode_of_not_mem (hvalue : value ∉ validator.categories)
    (out : List UInt8) : encoder.encode serialize value out = some (.invalidInput, out) := by
  have hindex := (RapporConfigValidator.of_new hserialize hnew).2.2.2.2 value
  rw [if_neg hvalue] at hindex
  rw [BasicRapporEncoder.encode, hencoder.initializeObservationData_eq]
  simp only [hindex, if_true]

/-- The observation of a category without noise has the bit of the category. -/
theorem BasicRapporEncoder.encode_of_noiseFree (hfree : config.NoiseFree)
    (hvalue : value ∈ validator.categories) (out : List UInt8) :
    encoder.encode serialize value out = some (.ok,
      oneHot (numBytesOf validator.numBits) (validator.categories.idxOf value)) := by
  obtain ⟨hp, hq, -, -, hindex⟩ := RapporConfigValidator.of_new hserialize hnew
  have hlt : validator.categories.idxOf value < validator.numBits :=
    List.idxOf_lt_length_of_mem hvalue
  have hbyte : validator.categories.idxOf value / bitsPerByte + 1 ≤
      numBytesOf validator.numBits := by
    rw [numBytesOf, bitsPerByte]
    omega
  have hflip (data : List UInt8) :
      flipBits validator.prob0Becomes1 validator.prob1Stays1 encoder.random data = (.ok, data) := by
    rw [flipBits, hp, hq, hfree.prob0Becomes1, hfree.prob1Stays1]
    exact if_pos ⟨le_rfl, le_rfl⟩
  rw [BasicRapporEncoder.encode, hencoder.initializeObservationData_eq]
  simp only [hindex, if_pos hvalue, Int.toNat_natCast, List.length_replicate, if_pos hbyte, hflip,
    if_true, oneHot]
  exact if_neg (by omega)

end Encode

/-! ### The counts of the analyzer -/

/-- An analyzer that has counted some values, each once. -/
structure BasicRapporAnalyzer.HasCounted (a : BasicRapporAnalyzer)
    (validator : RapporConfigValidator) (values : List ValuePart) : Prop where
  isFor : a.IsFor validator
  numObservations : a.numObservations = values.length
  observationErrors : a.observationErrors = 0
  categoryCounts : a.categoryCounts = validator.categories.map fun category => values.count category

theorem BasicRapporAnalyzer.hasCounted_new
    (hnew : RapporConfigValidator.new serialize config = some validator) :
    (BasicRapporAnalyzer.new serialize config).HasCounted validator [] := by
  refine ⟨isFor_new hnew, rfl, rfl, ?_⟩
  rw [BasicRapporAnalyzer.new, hnew]
  simp only [List.count_nil, List.map_const']
  rfl

/-- One more observation of a category. -/
theorem BasicRapporAnalyzer.HasCounted.addObservation {a : BasicRapporAnalyzer}
    {values : List ValuePart} (h : a.HasCounted validator values)
    (hnodup : validator.categories.Nodup) (hfits : validator.numBits < 2 ^ 64)
    (hvalue : value ∈ validator.categories) :
    ∃ a', a.addObservation
        (oneHot (numBytesOf validator.numBits) (validator.categories.idxOf value)) =
          some (true, a') ∧ a'.HasCounted validator (values ++ [value]) := by
  obtain ⟨a', hadd, hfor, hnum, herrors, hcounts⟩ :=
    h.isFor.addObservation_of_length hfits (length_oneHot _ _)
  refine ⟨a', hadd, hfor, ?_, herrors.trans h.observationErrors, ?_⟩
  · rw [hnum, h.numObservations, List.length_append, List.length_singleton]
  have hbits := le_mul_numBytesOf validator.numBits
  have hindex : validator.categories.idxOf value < validator.numBits :=
    List.idxOf_lt_length_of_mem hvalue
  refine List.ext_getElem (by rw [hfor.length, List.length_map]; rfl) fun i hi hi' => ?_
  have hi : i < validator.categories.length := by rwa [List.length_map] at hi'
  have hbit : bitSet (oneHot (numBytesOf validator.numBits) (validator.categories.idxOf value)) i =
      (value == validator.categories[i]) := by
    rw [bitSet_oneHot (hindex.trans_le hbits) (hi.trans_le hbits)]
    refine decide_eq_decide.mpr ⟨?_, ?_⟩
    · rintro rfl
      exact (List.getElem_idxOf hi).symm
    · rintro rfl
      exact (hnodup.idxOf_getElem i hi).symm
  have hcount := hcounts i hi
  rw [hbit, h.categoryCounts, List.getD_eq_getElem _ _ (hfor.length ▸ hi),
    List.getD_eq_getElem _ _ (by rwa [List.length_map]), List.getElem_map] at hcount
  rw [hcount, List.getElem_map, List.count_append, List.count_singleton]

/-- The observations of a list of categories are all counted. -/
theorem BasicRapporAnalyzer.HasCounted.addObservations {a : BasicRapporAnalyzer}
    {values values' : List ValuePart} (h : a.HasCounted validator values)
    (hnodup : validator.categories.Nodup) (hfits : validator.numBits < 2 ^ 64)
    (hvalues : ∀ value ∈ values', value ∈ validator.categories) :
    ∃ a', a.addObservations (values'.map fun value =>
        oneHot (numBytesOf validator.numBits) (validator.categories.idxOf value)) = some a' ∧
      a'.HasCounted validator (values ++ values') := by
  induction values' generalizing a values with
  | nil => exact ⟨a, rfl, by rwa [List.append_nil]⟩
  | cons value values' ih =>
    obtain ⟨hvalue, hrest⟩ := List.forall_mem_cons.mp hvalues
    obtain ⟨a₁, hadd, hcounted⟩ := h.addObservation hnodup hfits hvalue
    obtain ⟨a₂, hadds, hcounted'⟩ := ih hcounted hrest
    rw [List.append_assoc, List.singleton_append] at hcounted'
    refine ⟨a₂, ?_, hcounted'⟩
    rw [List.map_cons, BasicRapporAnalyzer.addObservations, List.foldlM_cons, hadd]
    exact hadds

/-- The observations of a list of categories without noise. -/
theorem encodeValues_of_noiseFree {encoder : BasicRapporEncoder}
    (hencoder : encoder.IsFor validator) (hserialize : Function.Injective serialize)
    (hnew : RapporConfigValidator.new serialize config = some validator)
    (hfree : config.NoiseFree) {values : List ValuePart}
    (hvalues : ∀ value ∈ values, value ∈ validator.categories) :
    encodeValues serialize encoder values = some (values.map fun value =>
      oneHot (numBytesOf validator.numBits) (validator.categories.idxOf value)) := by
  induction values with
  | nil => rfl
  | cons value values ih =>
    obtain ⟨hvalue, hrest⟩ := List.forall_mem_cons.mp hvalues
    have hencode :=
      BasicRapporEncoder.encode_of_noiseFree hencoder hserialize hnew hfree hvalue []
    rw [encodeValues, List.mapM_cons, hencode]
    simp only [Option.bind_eq_bind, Option.bind_some, if_true]
    rw [encodeValues] at ih
    simp only [Option.bind_eq_bind] at ih
    rw [ih hrest]
    rfl

/-- Any byte string is added to an analyzer for a configuration without undefined behavior. -/
theorem BasicRapporAnalyzer.IsFor.addObservation {a : BasicRapporAnalyzer}
    (h : a.IsFor validator) (hfits : validator.numBits < 2 ^ 64) (data : List UInt8) :
    ∃ result, a.addObservation data = some result ∧ result.2.IsFor validator ∧
      (data.length ≠ a.numEncodingBytes → result.1 = false ∧
        result.2.categoryCounts = a.categoryCounts) := by
  by_cases hlength : data.length = a.numEncodingBytes
  · obtain ⟨a', hadd, hfor, -⟩ :=
      h.addObservation_of_length hfits (hlength.trans h.numEncodingBytes)
    exact ⟨_, hadd, hfor, fun hne => absurd hlength hne⟩
  · exact ⟨_, addObservation_of_length_ne hlength, ⟨h.config, h.length, h.numEncodingBytes⟩,
      fun _ => ⟨rfl, rfl⟩⟩

/-- Any byte strings are added to an analyzer for a configuration without undefined behavior. -/
theorem BasicRapporAnalyzer.IsFor.addObservations {a : BasicRapporAnalyzer}
    (h : a.IsFor validator) (hfits : validator.numBits < 2 ^ 64)
    (observations : List (List UInt8)) :
    ∃ a', a.addObservations observations = some a' ∧ a'.IsFor validator := by
  induction observations generalizing a with
  | nil => exact ⟨a, rfl, h⟩
  | cons data observations ih =>
    obtain ⟨result, hadd, hfor, -⟩ := h.addObservation hfits data
    obtain ⟨a', hadds, hfor'⟩ := ih hfor
    refine ⟨a', ?_, hfor'⟩
    rw [BasicRapporAnalyzer.addObservations, List.foldlM_cons, hadd]
    exact hadds

/-- **Without noise the counts are exact**: the observations of a list of categories are counted
without an error, a value that is not a category is rejected, and a byte string is never read
outside and changes no count if its length is wrong. -/
theorem noiseFree_exact (hserialize : Function.Injective serialize)
    (hnew : RapporConfigValidator.new serialize config = some validator)
    (hfree : config.NoiseFree) {random : ℚ → ℕ → Option (List UInt8)} {clientSecret : List UInt8}
    (hsecret : clientSecret ≠ []) :
    (∀ values : List ValuePart, (∀ value ∈ values, value ∈ validator.categories) →
      ∃ observations a,
        encodeValues serialize (BasicRapporEncoder.new serialize config random clientSecret)
          values = some observations ∧
        (BasicRapporAnalyzer.new serialize config).addObservations observations = some a ∧
        a.numObservations = values.length ∧ a.observationErrors = 0 ∧
        a.categoryCounts = validator.categories.map fun category => values.count category) ∧
    (∀ value ∉ validator.categories, ∀ out,
      (BasicRapporEncoder.new serialize config random clientSecret).encode serialize value out =
        some (.invalidInput, out)) ∧
    ∀ observations, ∃ a,
      (BasicRapporAnalyzer.new serialize config).addObservations observations = some a ∧
      ∀ data, ∃ result, a.addObservation data = some result ∧
        (data.length ≠ numBytesOf validator.numBits →
          result.1 = false ∧ result.2.categoryCounts = a.categoryCounts) := by
  obtain ⟨-, -, hbits, hnodup, -⟩ := RapporConfigValidator.of_new hserialize hnew
  have hfits : validator.numBits < 2 ^ 64 := by omega
  have hencoder : (BasicRapporEncoder.new serialize config random clientSecret).IsFor validator :=
    ⟨hnew, hsecret⟩
  refine ⟨fun values hvalues => ?_, fun value hvalue out => ?_, fun observations => ?_⟩
  · obtain ⟨a, hadds, hcounted⟩ :=
      (BasicRapporAnalyzer.hasCounted_new hnew).addObservations hnodup hfits hvalues
    exact ⟨_, a, encodeValues_of_noiseFree hencoder hserialize hnew hfree hvalues, hadds,
      hcounted.numObservations, hcounted.observationErrors, hcounted.categoryCounts⟩
  · exact BasicRapporEncoder.encode_of_not_mem hencoder hserialize hnew hvalue out
  · obtain ⟨a, hadds, hfor⟩ := (BasicRapporAnalyzer.isFor_new hnew).addObservations hfits observations
    refine ⟨a, hadds, fun data => ?_⟩
    obtain ⟨result, hadd, -, hwrong⟩ := hfor.addObservation hfits data
    exact ⟨result, hadd, fun hne => hwrong (hfor.numEncodingBytes ▸ hne)⟩

/-! ### The serialization of a value -/

/-- A number as a variable-length integer of a message, with at most `fuel` bytes. -/
def varintBytes : ℕ → ℕ → List UInt8
  | 0, _ => []
  | fuel + 1, n =>
    if n < 128 then [UInt8.ofNat n] else UInt8.ofNat (n % 128 + 128) :: varintBytes fuel (n / 128)

/-- A number as a variable-length integer of a message. -/
def varint (n : ℕ) : List UInt8 := varintBytes (n + 1) n

/-- `SerializeToString` of a `ValuePart`: the number and the type of the field, and its value. -/
def serializeToString : ValuePart → List UInt8
  | .dataNotSet => []
  | .stringValue s => 10 :: (varint s.length ++ s)
  | .intValue n => 16 :: varint n.toUInt64.toNat
  | .blobValue b => 26 :: (varint b.length ++ b)
  | .indexValue n => 32 :: varint n.toNat
  | .doubleValue bits => 41 :: bytesOf bits
  | .intBucketDistribution message => 50 :: (varint message.length ++ message)

/-- A variable-length integer can be told from the bytes after it. -/
theorem varintBytes_append_inj {fuel fuel' m n : ℕ} {rest rest' : List UInt8} (hm : m < fuel)
    (hn : n < fuel') (h : varintBytes fuel m ++ rest = varintBytes fuel' n ++ rest') :
    m = n ∧ rest = rest' := by
  induction fuel generalizing fuel' m n with
  | zero => exact absurd hm (Nat.not_lt_zero m)
  | succ fuel ih =>
    obtain _ | fuel' := fuel'
    · exact absurd hn (Nat.not_lt_zero n)
    -- The first byte says whether it is the last one.
    by_cases hm' : m < 128
    · by_cases hn' : n < 128
      · rw [varintBytes, varintBytes, if_pos hm', if_pos hn'] at h
        obtain ⟨hbyte, hrest⟩ := List.cons.inj h
        have hbyte := congrArg UInt8.toNat hbyte
        rw [UInt8.toNat_ofNat', UInt8.toNat_ofNat'] at hbyte
        exact ⟨by omega, hrest⟩
      · rw [varintBytes, varintBytes, if_pos hm', if_neg hn'] at h
        have hbyte := congrArg UInt8.toNat (List.cons.inj h).1
        rw [UInt8.toNat_ofNat', UInt8.toNat_ofNat'] at hbyte
        omega
    · by_cases hn' : n < 128
      · rw [varintBytes, varintBytes, if_neg hm', if_pos hn'] at h
        have hbyte := congrArg UInt8.toNat (List.cons.inj h).1
        rw [UInt8.toNat_ofNat', UInt8.toNat_ofNat'] at hbyte
        omega
      · rw [varintBytes, varintBytes, if_neg hm', if_neg hn'] at h
        obtain ⟨hbyte, hrest⟩ := List.cons.inj h
        have hbyte := congrArg UInt8.toNat hbyte
        rw [UInt8.toNat_ofNat', UInt8.toNat_ofNat'] at hbyte
        obtain ⟨hdiv, hrest⟩ := ih (by omega) (by omega) hrest
        exact ⟨by omega, hrest⟩

theorem varint_append_inj {m n : ℕ} {rest rest' : List UInt8}
    (h : varint m ++ rest = varint n ++ rest') : m = n ∧ rest = rest' :=
  varintBytes_append_inj (Nat.lt_succ_self m) (Nat.lt_succ_self n) h

theorem varint_injective : Function.Injective varint := by
  intro m n h
  exact (varint_append_inj (congrArg (· ++ []) h)).1

theorem bytesOf_injective : Function.Injective bytesOf := by
  intro v w h
  have hdigest : digestOf v = digestOf w := by
    simp only [digestOf, h]
  rw [← firstWord_digestOf v, hdigest, firstWord_digestOf]

theorem serializeToString_injective : Function.Injective serializeToString := by
  intro v w h
  cases v <;> cases w <;> simp only [serializeToString, List.cons.injEq] at h
  case stringValue.stringValue s t => rw [(varint_append_inj h.2).2]
  case blobValue.blobValue s t => rw [(varint_append_inj h.2).2]
  case intBucketDistribution.intBucketDistribution s t => rw [(varint_append_inj h.2).2]
  case intValue.intValue m n =>
    have hbits := UInt64.toNat.inj (varint_injective h.2)
    rw [← Int64.toInt64_toUInt64 m, hbits, Int64.toInt64_toUInt64]
  case indexValue.indexValue m n => rw [UInt32.toNat.inj (varint_injective h.2)]
  case doubleValue.doubleValue m n => rw [bytesOf_injective h.2]
  case dataNotSet.dataNotSet => rfl
  -- The first bytes of different fields are different.
  all_goals first | exact absurd h.1 (by decide) | cases h

/-- Three indexed categories. -/
def threeCategories : BasicRapporConfig where
  prob0Becomes1 := 0
  prob1Stays1 := 1
  probRr := 0
  categories := .indexed 3

/-- The observations of the indices 1, 2 and 1, with a random generator that always fails. -/
theorem noiseFree_exact_three :
    Function.Injective serializeToString ∧ threeCategories.NoiseFree ∧
      ∃ observations a,
        encodeValues serializeToString
            (BasicRapporEncoder.new serializeToString threeCategories (fun _ _ => none) [7])
            [.indexValue 1, .indexValue 2, .indexValue 1] = some observations ∧
        (BasicRapporAnalyzer.new serializeToString threeCategories).addObservations observations =
          some a ∧
        a.numObservations = 3 ∧ a.observationErrors = 0 ∧ a.categoryCounts = [0, 2, 1] := by
  have hfree : threeCategories.NoiseFree := ⟨rfl, rfl⟩
  have hnew : RapporConfigValidator.new serializeToString threeCategories =
      some ⟨0, 1, [.indexValue 0, .indexValue 1, .indexValue 2],
        [([32, 0], 0), ([32, 1], 1), ([32, 2], 2)]⟩ := rfl
  refine ⟨serializeToString_injective, hfree, ?_⟩
  exact (noiseFree_exact serializeToString_injective hnew hfree (List.cons_ne_nil 7 [])).1
    [.indexValue 1, .indexValue 2, .indexValue 1] (by decide)

end Cobalt.Algorithms
