import Cobalt.Algorithms.RandomBits
import Cobalt.ConfigValidator.ReportDefinitions

/-!
# The randomised observations of the encoder

For a `SIMPLE_OCCURRENCE_COUNT` report the encoder of the logger makes a Basic RAPPOR observation. The
noise level of the report chooses the probability that a bit is flipped, and the metric the number of
categories; an encoder of the algorithms is made for each observation, and its status is translated.

The probabilities are those of the source, where they are values of type `float`: the literals and
the difference are rounded.

## Main definitions

* `probBitFlip`, `basicRapporConfig`: the configuration of an observation.
* `RapporEncoder.encodeBasicRapporObservation`: the observation of one event.

## Main results

* `RapporEncoder.exists_encodeBasicRapporObservation`: when the encoder succeeds.
-/

namespace Cobalt.Logger

open Algorithms ConfigValidator

/-! ### The configuration -/

/-- `RapporConfigHelper::ProbBitFlip`: the values of type `float` that are nearest to 0.01 and to 0.1,
and `kInvalidProbability` for a noise level that is not recognized. -/
def probBitFlip : LocalPrivacyNoiseLevel → ℚ
  | .NONE => 0
  | .SMALL => 5368709 / 2 ^ 29
  | .MEDIUM => 13421773 / 2 ^ 27
  | .LARGE => 1 / 4
  | .NOISE_LEVEL_UNSET | .unrecognized _ => -1

/-- The noise levels that the client recognizes. -/
def isRecognized : LocalPrivacyNoiseLevel → Bool
  | .NONE | .SMALL | .MEDIUM | .LARGE => true
  | .NOISE_LEVEL_UNSET | .unrecognized _ => false

/-- `1.0f - p`, rounded to the nearest value with 24 bits after the point. -/
def oneMinus (p : ℚ) : ℚ := ⌊(1 - p) * 2 ^ 24 + 1 / 2⌋ / 2 ^ 24

/-- The configuration that the encoder makes for each observation, with `kProbRR`. -/
def basicRapporConfig (level : LocalPrivacyNoiseLevel) (numCategories : ℕ) : BasicRapporConfig where
  prob0Becomes1 := probBitFlip level
  prob1Stays1 := oneMinus (probBitFlip level)
  probRr := 0
  categories := .indexed (UInt32.ofNat numCategories)

/-- `TranslateBasicRapporEncoderStatus`. -/
def translateBasicRapporEncoderStatus : RapporStatus → Status
  | .ok => .kOK
  | .invalidConfig => .kInvalidConfig
  | .invalidInput => .kInvalidArguments

theorem translateBasicRapporEncoderStatus_eq_kOK_iff {status : RapporStatus} :
    translateBasicRapporEncoderStatus status = .kOK ↔ status = .ok := by
  cases status <;> decide

/-! ### The functions of the encoder -/

/-- `ReportDefinition`, with the fields that only the encoder reads. -/
structure RapporReport extends EncodedReport where
  localPrivacyNoiseLevel : LocalPrivacyNoiseLevel

/-- The `oneof` field of `Observation2`, with the observations that are randomised. -/
inductive RapporObservationType
  | observationTypeNotSet
  | basicRappor (data : List UInt8)
  | uniqueActives (aggregationWindow : OnDeviceAggregationWindow) (eventCode : ℕ)
      (data : List UInt8)
  deriving DecidableEq

/-- `Observation2`, with an observation that is randomised. -/
structure RapporObservation where
  randomId : List UInt8
  observationType : RapporObservationType
  deriving DecidableEq

/-- The data of a Basic RAPPOR observation. -/
def RapporObservation.data (observation : RapporObservation) : List UInt8 :=
  match observation.observationType with
  | .basicRappor data => data
  | _ => []

/-- `Encoder::Result`, with an observation that is randomised. -/
structure RapporResult where
  status : Status
  observation : RapporObservation
  metadata : ObservationMetadata

/-- An `Encoder` with its client secret. -/
structure RapporEncoder extends Encoder where
  clientSecret : List UInt8

namespace RapporEncoder

variable (encoder : RapporEncoder) (words : List UInt32 × List UInt32) (randomId : List UInt8)
  (metric : MetricRef) (report : RapporReport) (dayIndex : ℕ)

/-- The encoder of the algorithms for one observation, with the random words that it draws. -/
def basicRapporEncoder (numCategories : ℕ) : BasicRapporEncoder :=
  rapporEncoderOf serializeToString (basicRapporConfig report.localPrivacyNoiseLevel numCategories)
    encoder.clientSecret words.1 words.2

/-- The result for what the encoder of the algorithms returns. -/
def resultOf (encoded : RapporStatus × List UInt8) : RapporResult where
  status := translateBasicRapporEncoderStatus encoded.1
  observation := ⟨randomId, .basicRappor encoded.2⟩
  metadata := (encoder.makeObservation randomId metric report.toEncodedReport dayIndex).metadata

/-- `EncodeBasicRapporObservation`; `none` for an access outside of the data. -/
def encodeBasicRapporObservation (valueIndex numCategories : ℕ) : Option RapporResult :=
  ((encoder.basicRapporEncoder words report numCategories).encode serializeToString
    (.indexValue (UInt32.ofNat valueIndex)) []).map
      (encoder.resultOf randomId metric report dayIndex)

end RapporEncoder

/-! ### Configurations that are valid -/

/-- Categories with keys of their own are inserted. -/
theorem exists_insertCategories {serialize : ValuePart → List UInt8} {categories : List ValuePart}
    {index : ℕ} {entries : List (List UInt8 × ℕ)}
    (h : (entries.map Prod.fst ++ categories.map serialize).Nodup) :
    ∃ entries', insertCategories serialize categories index entries = some entries' := by
  induction categories generalizing index entries with
  | nil => exact ⟨entries, rfl⟩
  | cons category categories ih =>
    have hnew : ¬ (entries.lookup (serialize category)).isSome := by
      intro hsome
      obtain ⟨entry, hentry, heq⟩ := List.lookup_isSome_iff.mp hsome
      rw [List.map_cons, List.nodup_append] at h
      exact h.2.2 _ (List.mem_map_of_mem hentry) _ List.mem_cons_self (beq_iff_eq.mp heq).symm
    rw [insertCategories, if_neg hnew]
    refine ih ?_
    rwa [List.map_append, List.append_assoc]

/-- The categories of a configuration with indices. -/
def indexCategories (numCategories : ℕ) : List ValuePart :=
  (List.range numCategories).map fun i => .indexValue (UInt32.ofNat i)

theorem mem_indexCategories_iff {numCategories valueIndex : ℕ} (hnum : numCategories ≤ 2 ^ 32)
    (hvalue : valueIndex < 2 ^ 32) :
    .indexValue (UInt32.ofNat valueIndex) ∈ indexCategories numCategories ↔
      valueIndex < numCategories := by
  rw [indexCategories, List.mem_map]
  constructor
  · rintro ⟨i, hi, heq⟩
    have hi := List.mem_range.mp hi
    have hnat := congrArg UInt32.toNat (ValuePart.indexValue.inj heq)
    rw [UInt32.toNat_ofNat', UInt32.toNat_ofNat'] at hnat
    omega
  · intro hlt
    exact ⟨valueIndex, List.mem_range.mpr hlt, rfl⟩

theorem nodup_indexCategories {numCategories : ℕ} (hnum : numCategories ≤ 2 ^ 32) :
    (indexCategories numCategories).Nodup := by
  refine List.Nodup.map_on (fun i hi j hj heq => ?_) List.nodup_range
  have hi := List.mem_range.mp hi
  have hj := List.mem_range.mp hj
  have hnat := congrArg UInt32.toNat (ValuePart.indexValue.inj heq)
  rw [UInt32.toNat_ofNat', UInt32.toNat_ofNat'] at hnat
  omega

/-- The probabilities of a noise level are valid if the level is recognized. -/
theorem commonValidate_probBitFlip (level : LocalPrivacyNoiseLevel) :
    commonValidate (probBitFlip level) (oneMinus (probBitFlip level)) 0 = isRecognized level := by
  have hinvalid : commonValidate (-1) (oneMinus (-1)) 0 = false := by decide +kernel
  cases level with
  | NOISE_LEVEL_UNSET => exact hinvalid
  | unrecognized n => exact hinvalid
  | NONE => decide +kernel
  | SMALL => decide +kernel
  | MEDIUM => decide +kernel
  | LARGE => decide +kernel

/-- The configuration of an observation is valid if the noise level is recognized and there are
not too many categories. -/
theorem new_basicRapporConfig {level : LocalPrivacyNoiseLevel} {numCategories : ℕ}
    (hnum : numCategories < 2 ^ 32) :
    if isRecognized level ∧ numCategories < 1024 then
      ∃ validator, RapporConfigValidator.new serializeToString
        (basicRapporConfig level numCategories) = some validator ∧
          validator.categories = indexCategories numCategories
    else RapporConfigValidator.new serializeToString (basicRapporConfig level numCategories) =
      none := by
  have hnat : (UInt32.ofNat numCategories).toNat = numCategories := by
    rw [UInt32.toNat_ofNat', Nat.mod_eq_of_lt hnum]
  rw [RapporConfigValidator.new, basicRapporConfig]
  dsimp only
  rw [commonValidate_probBitFlip, extractCategories, hnat, maxNumCategories]
  by_cases hlevel : isRecognized level = true
  · by_cases hlt : numCategories < 1024
    · have hnodup := (nodup_indexCategories hnum.le).map serializeToString_injective
      obtain ⟨entries, hentries⟩ := @exists_insertCategories _ _ 0 [] hnodup
      rw [if_pos ⟨hlevel, hlt⟩, if_pos hlevel, if_neg (by omega), ← indexCategories]
      refine ⟨⟨probBitFlip level, oneMinus (probBitFlip level), indexCategories numCategories,
        entries⟩, ?_, rfl⟩
      rw [Option.bind_eq_bind, Option.bind_some, hentries]
      rfl
    · rw [if_neg fun h => hlt h.2, if_pos hlevel, if_pos (by omega)]
      rfl
  · rw [if_neg fun h => hlevel h.1, if_neg hlevel]

/-! ### When the encoder succeeds -/

namespace RapporEncoder

variable {encoder : RapporEncoder} {words : List UInt32 × List UInt32} {randomId : List UInt8}
  {metric : MetricRef} {report : RapporReport} {dayIndex valueIndex numCategories : ℕ}

/-- An encoder of the algorithms that is not set up returns an error for every value. -/
theorem initializeObservationData_of_not (hnum : numCategories < 2 ^ 32)
    (h : encoder.clientSecret = [] ∨
      ¬ (isRecognized report.localPrivacyNoiseLevel ∧ numCategories < 1024)) :
    (encoder.basicRapporEncoder words report numCategories).initializeObservationData =
      (.invalidConfig, none) := by
  have hnew := @new_basicRapporConfig report.localPrivacyNoiseLevel _ hnum
  rw [BasicRapporEncoder.initializeObservationData]
  split_ifs at hnew with hvalid
  · obtain ⟨validator, hnew, -⟩ := hnew
    have hsecret : encoder.clientSecret = [] := h.resolve_right (not_not.mpr hvalid)
    simp only [basicRapporEncoder, rapporEncoderOf, BasicRapporEncoder.new, hnew, hsecret,
      List.isEmpty_nil, if_true]
  · simp only [basicRapporEncoder, rapporEncoderOf, BasicRapporEncoder.new, hnew]

theorem status_resultOf {encoded : RapporStatus × List UInt8} :
    (encoder.resultOf randomId metric report dayIndex encoded).status = .kOK ↔ encoded.1 = .ok :=
  translateBasicRapporEncoderStatus_eq_kOK_iff

/-- **A Basic RAPPOR observation** is always made without an access outside of the data. It is made
successfully if the client has a secret, the noise level is recognized, there are not too many
categories, and the value is one of them. -/
theorem exists_encodeBasicRapporObservation (hnum : numCategories < 2 ^ 32)
    (hvalue : valueIndex < 2 ^ 32) :
    ∃ result, encoder.encodeBasicRapporObservation words randomId metric report dayIndex valueIndex
        numCategories = some result ∧
      (result.status = .kOK ↔ encoder.clientSecret ≠ [] ∧
        isRecognized report.localPrivacyNoiseLevel ∧ numCategories < 1024 ∧
        valueIndex < numCategories) := by
  have hnew := @new_basicRapporConfig report.localPrivacyNoiseLevel _ hnum
  rw [encodeBasicRapporObservation]
  by_cases hsetUp : encoder.clientSecret ≠ [] ∧
      (isRecognized report.localPrivacyNoiseLevel ∧ numCategories < 1024)
  · obtain ⟨hsecret, hvalid⟩ := hsetUp
    rw [if_pos hvalid] at hnew
    obtain ⟨validator, hnew, hcategories⟩ := hnew
    have hmem := @mem_indexCategories_iff _ _ hnum.le hvalue
    rw [← hcategories] at hmem
    by_cases hlt : valueIndex < numCategories
    · obtain ⟨data, hencode, -, -⟩ := encode_twoMasks hnew hsecret serializeToString_injective
        (hmem.mpr hlt) words.1 words.2 []
      rw [basicRapporEncoder, hencode]
      exact ⟨_, rfl, iff_of_true rfl ⟨hsecret, hvalid.1, hvalid.2, hlt⟩⟩
    · have hencoder : (encoder.basicRapporEncoder words report numCategories).IsFor validator :=
        ⟨hnew, hsecret⟩
      rw [BasicRapporEncoder.encode_of_not_mem hencoder serializeToString_injective hnew
        fun hin => hlt (hmem.mp hin)]
      exact ⟨_, rfl, status_resultOf.trans (iff_of_false (by rintro ⟨⟩) fun h => hlt h.2.2.2)⟩
  · rw [BasicRapporEncoder.encode, initializeObservationData_of_not hnum
      (not_and_or.mp hsetUp |>.imp_left not_not.mp)]
    exact ⟨_, rfl, status_resultOf.trans
      (iff_of_false (by rintro ⟨⟩) fun h => hsetUp ⟨h.1, h.2.1, h.2.2.1⟩)⟩

end RapporEncoder

end Cobalt.Logger
