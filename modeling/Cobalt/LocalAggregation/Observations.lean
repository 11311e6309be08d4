import Cobalt.Lib.Loop
import Cobalt.LocalAggregation.History
import Cobalt.Registry.PackedEventCodes

/-!
# Observations and how one of them is generated

An observation is encoded and then handed to the `ObservationWriter`. Both steps can fail; which
attempts fail is the script of a `Backend`. The random id and the noise that the encoder adds are
left out of an `Observation`, and so are the fields of the system profile.

## Main definitions

* `Observation`, `ObservationSource`: what an observation says, and which aggregate it is about.
* `Backend`: the results of the encoder and of the writer, by attempt.
* `GenState`: the state of a `GenerateObservations` call: the history and what has been written.
* `generateSingle` and the four functions of the source that are instances of it.

## Main results

* `generateSingle_cases`: an attempt either fails and changes nothing, or succeeds and adds one
  observation to what has been written.
-/

namespace Cobalt.LocalAggregation

/-- `days()`: the number of days of a window, zero when it is not a window of days. -/
def numDays : OnDeviceAggregationWindow → ℕ
  | .days n => n
  | _ => 0

/-! ### Observations -/

/-- `ObservationMetadata`. -/
structure ObservationMetadata where
  customerId : ℕ
  projectId : ℕ
  metricId : ℕ
  reportId : ℕ
  dayIndex : ℕ
  deriving DecidableEq, Repr

/-- The kinds of observations generated from aggregates. A histogram observation carries the
bucket of the value, which the value determines. -/
inductive ObservationType
  | uniqueActives (eventCode : ℕ) (window : OnDeviceAggregationWindow) (wasActive : Bool)
  | perDeviceNumeric (component : String) (eventCode : ℕ) (window : OnDeviceAggregationWindow)
      (value : ℤ)
  | perDeviceHistogram (component : String) (eventCode : ℕ) (window : OnDeviceAggregationWindow)
      (value : ℤ)
  | reportParticipation
  deriving DecidableEq, Repr

/-- An observation with its metadata. -/
structure Observation where
  metadata : ObservationMetadata
  type : ObservationType
  deriving DecidableEq, Repr

/-- `MakeObservation`: the metadata of an observation. -/
def makeObservation (config : AggregationConfig) (dayIndex : ℕ) (type : ObservationType) :
    Observation where
  metadata :=
    { customerId := config.project.customerId
      projectId := config.project.projectId
      metricId := config.metric.id
      reportId := config.report.id
      dayIndex := dayIndex }
  type := type

/-- `EncodePerDeviceNumericObservation` packs the event codes it is given. -/
def encodePerDeviceNumericObservation (config : AggregationConfig) (dayIndex : ℕ)
    (component : String) (eventCodes : List ℕ) (value : ℤ) (window : OnDeviceAggregationWindow) :
    Observation :=
  makeObservation config dayIndex
    (.perDeviceNumeric component (Config.packEventCodes eventCodes) window value)

/-- `EncodePerDeviceHistogramObservation`. -/
def encodePerDeviceHistogramObservation (config : AggregationConfig) (dayIndex : ℕ)
    (component : String) (eventCodes : List ℕ) (value : ℤ) (window : OnDeviceAggregationWindow) :
    Observation :=
  makeObservation config dayIndex
    (.perDeviceHistogram component (Config.packEventCodes eventCodes) window value)

/-- The aggregate that observations are about, by its place in the `LocalAggregateStore`. -/
inductive ObservationSource
  | uniqueActives (reportKey : ReportAggregationKey) (eventCode days : ℕ)
  | numeric (reportKey : ReportAggregationKey) (component : String) (eventCode days : ℕ)
  | reportParticipation (reportKey : ReportAggregationKey)
  deriving DecidableEq, Repr

/-- The report that a source belongs to. -/
def ObservationSource.reportKey : ObservationSource → ReportAggregationKey
  | .uniqueActives reportKey _ _ => reportKey
  | .numeric reportKey _ _ _ => reportKey
  | .reportParticipation reportKey => reportKey

/-- An observation that was written, with the aggregate and the day it was generated for. -/
structure Written where
  source : ObservationSource
  dayIndex : ℕ
  observation : Observation
  deriving DecidableEq, Repr

/-- What `GenerateSingleUniqueActivesObservation` writes. -/
def uniqueActivesWritten (reportKey : ReportAggregationKey) (config : AggregationConfig)
    (obsDayIndex eventCode : ℕ) (window : OnDeviceAggregationWindow) (wasActive : Bool) :
    Written where
  source := .uniqueActives reportKey eventCode (numDays window)
  dayIndex := obsDayIndex
  observation := makeObservation config obsDayIndex (.uniqueActives eventCode window wasActive)

/-- What `GenerateSinglePerDeviceNumericObservation` writes. The parameter for the event code is a
`uint32_t`. -/
def perDeviceNumericWritten (reportKey : ReportAggregationKey) (config : AggregationConfig)
    (obsDayIndex : ℕ) (component : String) (eventCode : ℕ) (window : OnDeviceAggregationWindow)
    (value : ℤ) : Written where
  source := .numeric reportKey component eventCode (numDays window)
  dayIndex := obsDayIndex
  observation := encodePerDeviceNumericObservation config obsDayIndex component
    (Config.unpackEventCodes (U32.ofNat eventCode)) value window

/-- What `GenerateSinglePerDeviceHistogramObservation` writes. -/
def perDeviceHistogramWritten (reportKey : ReportAggregationKey) (config : AggregationConfig)
    (obsDayIndex : ℕ) (component : String) (eventCode : ℕ) (window : OnDeviceAggregationWindow)
    (value : ℤ) : Written where
  source := .numeric reportKey component eventCode (numDays window)
  dayIndex := obsDayIndex
  observation := encodePerDeviceHistogramObservation config obsDayIndex component
    (Config.unpackEventCodes (U32.ofNat eventCode)) value window

/-- What `GenerateSingleReportParticipationObservation` writes. -/
def reportParticipationWritten (reportKey : ReportAggregationKey) (config : AggregationConfig)
    (obsDayIndex : ℕ) : Written where
  source := .reportParticipation reportKey
  dayIndex := obsDayIndex
  observation := makeObservation config obsDayIndex .reportParticipation

/-- The observation is of the kind that belongs to its source, with the event code that the
functions above put into it. -/
def Written.Encodes (w : Written) : Prop :=
  match w.source with
  | .uniqueActives _ eventCode _ =>
    ∃ window wasActive, w.observation.type = .uniqueActives eventCode window wasActive
  | .numeric _ component eventCode _ => ∃ window value,
    let packed := Config.packEventCodes (Config.unpackEventCodes (U32.ofNat eventCode))
    w.observation.type = .perDeviceNumeric component packed window value ∨
      w.observation.type = .perDeviceHistogram component packed window value
  | .reportParticipation _ => w.observation.type = .reportParticipation

/-- The observation is one of the report with a configuration, for the day it was generated for: its
metadata hold the ids of the customer, the project, the metric and the report, and the day. -/
structure Written.IsOf (config : AggregationConfig) (w : Written) : Prop where
  encodes : w.Encodes
  observation : w.observation = makeObservation config w.dayIndex w.observation.type

/-! ### Encoder and writer -/

/-- The results of the successive attempts at generating one observation: the status of the
encoder, whether it returned both an observation and its metadata, and the status of the
`ObservationWriter`. -/
structure Backend where
  encoderStatus : ℕ → Status
  encoderHasResult : ℕ → Bool
  writerStatus : ℕ → Status

/-- A backend none of whose attempts fails. -/
def Backend.reliable : Backend where
  encoderStatus _ := .kOK
  encoderHasResult _ := true
  writerStatus _ := .kOK

/-- The state of a call of `GenerateObservations`. -/
structure GenState where
  obsHistory : AggregatedObservationHistoryStore
  attempts : ℕ
  written : List Written
  deriving DecidableEq

/-- `if (status != kOK) return status;` after a step, then the next one. -/
def andThen (r : Status × GenState) (next : GenState → Status × GenState) : Status × GenState :=
  if r.1 = .kOK then next r.2 else r

/-- A history update, which cannot fail. -/
def record (set : AggregatedObservationHistoryStore → AggregatedObservationHistoryStore)
    (s : GenState) : Status × GenState :=
  (.kOK, { s with obsHistory := set s.obsHistory })

/-- The body of the four `GenerateSingle*Observation` functions: encode, then write. -/
def generateSingle (backend : Backend) (w : Written) (s : GenState) : Status × GenState :=
  let attempt := s.attempts
  let s := { s with attempts := attempt + 1 }
  if backend.encoderStatus attempt ≠ .kOK then (backend.encoderStatus attempt, s)
  else if backend.encoderHasResult attempt = false then (.kOther, s)
  else if backend.writerStatus attempt ≠ .kOK then (backend.writerStatus attempt, s)
  else (.kOK, { s with written := s.written ++ [w] })

/-- `GenerateSingleUniqueActivesObservation`. -/
def generateSingleUniqueActivesObservation (backend : Backend) (reportKey : ReportAggregationKey)
    (config : AggregationConfig) (obsDayIndex eventCode : ℕ) (window : OnDeviceAggregationWindow)
    (wasActive : Bool) : GenState → Status × GenState :=
  generateSingle backend
    (uniqueActivesWritten reportKey config obsDayIndex eventCode window wasActive)

/-- `GenerateSinglePerDeviceNumericObservation`. -/
def generateSinglePerDeviceNumericObservation (backend : Backend)
    (reportKey : ReportAggregationKey) (config : AggregationConfig) (obsDayIndex : ℕ)
    (component : String) (eventCode : ℕ) (window : OnDeviceAggregationWindow) (value : ℤ) :
    GenState → Status × GenState :=
  generateSingle backend
    (perDeviceNumericWritten reportKey config obsDayIndex component eventCode window value)

/-- `GenerateSinglePerDeviceHistogramObservation`. -/
def generateSinglePerDeviceHistogramObservation (backend : Backend)
    (reportKey : ReportAggregationKey) (config : AggregationConfig) (obsDayIndex : ℕ)
    (component : String) (eventCode : ℕ) (window : OnDeviceAggregationWindow) (value : ℤ) :
    GenState → Status × GenState :=
  generateSingle backend
    (perDeviceHistogramWritten reportKey config obsDayIndex component eventCode window value)

/-- `GenerateSingleReportParticipationObservation`. -/
def generateSingleReportParticipationObservation (backend : Backend)
    (reportKey : ReportAggregationKey) (config : AggregationConfig) (obsDayIndex : ℕ) :
    GenState → Status × GenState :=
  generateSingle backend (reportParticipationWritten reportKey config obsDayIndex)

/-! ### What an attempt does -/

/-- **One attempt.** It fails and changes nothing but the number of attempts, or it succeeds and
the observation is written. -/
theorem generateSingle_cases (backend : Backend) (w : Written) (s : GenState) :
    ((generateSingle backend w s).1 ≠ .kOK ∧
      (generateSingle backend w s).2 = { s with attempts := s.attempts + 1 }) ∨
    generateSingle backend w s =
      (.kOK, { s with attempts := s.attempts + 1, written := s.written ++ [w] }) := by
  unfold generateSingle
  dsimp only
  split_ifs with h₁ h₂ h₃
  · exact Or.inl ⟨h₁, rfl⟩
  · exact Or.inl ⟨by simp, rfl⟩
  · exact Or.inl ⟨h₃, rfl⟩
  · exact Or.inr rfl

theorem generateSingle_reliable (w : Written) (s : GenState) :
    generateSingle .reliable w s =
      (.kOK, { s with attempts := s.attempts + 1, written := s.written ++ [w] }) := by
  simp [generateSingle, Backend.reliable]

/-- The first day after the last generated one and not before the backfill period. -/
def firstDayIndex (lastGen backfillPeriodStart : ℕ) : ℕ :=
  max (U32.add lastGen 1) backfillPeriodStart

theorem le_firstDayIndex (lastGen backfillPeriodStart : ℕ) :
    backfillPeriodStart ≤ firstDayIndex lastGen backfillPeriodStart :=
  le_max_right _ _

/-- For a last generated day that the code can have recorded the first day comes after it. -/
theorem firstDayIndex_le_iff {lastGen backfillPeriodStart d : ℕ} (h : lastGen < U32.max) :
    firstDayIndex lastGen backfillPeriodStart ≤ d ↔ lastGen < d ∧ backfillPeriodStart ≤ d := by
  have hmax : U32.max + 1 = U32.size := by decide
  rw [firstDayIndex, U32.add_of_lt (by omega), max_le_iff, Nat.add_one_le_iff]

/-! ### Items

The loops of the generation functions come down to a list of items that are worked off in order,
up to the first failure. -/

/-- The last generated day of a source. -/
def getLastGenerated (history : AggregatedObservationHistoryStore) : ObservationSource → ℕ
  | .uniqueActives reportKey eventCode days =>
    getUniqueActivesLastGeneratedDayIndex history reportKey eventCode days
  | .numeric reportKey component eventCode days =>
    getPerDeviceNumericLastGeneratedDayIndex history reportKey component eventCode days
  | .reportParticipation reportKey =>
    getReportParticipationLastGeneratedDayIndex history reportKey

/-- The last generated day of a source is recorded. -/
def setLastGenerated (source : ObservationSource) (value : ℕ)
    (history : AggregatedObservationHistoryStore) : AggregatedObservationHistoryStore :=
  match source with
  | .uniqueActives reportKey eventCode days =>
    setUniqueActivesLastGeneratedDayIndex history reportKey eventCode days value
  | .numeric reportKey component eventCode days =>
    setPerDeviceNumericLastGeneratedDayIndex history reportKey component eventCode days value
  | .reportParticipation reportKey =>
    setReportParticipationLastGeneratedDayIndex history reportKey value

/-- One turn of a generation loop: the function returns, or an observation is generated where there
is one and the day is recorded for the source. -/
inductive Item
  | fail (status : Status)
  | generate (source : ObservationSource) (dayIndex : ℕ) (observation : Option Observation)

/-- Works off one item. -/
def runItem (backend : Backend) : Item → GenState → Status × GenState
  | .fail status, s => (status, s)
  | .generate source dayIndex none, s => record (setLastGenerated source dayIndex) s
  | .generate source dayIndex (some observation), s =>
    andThen (generateSingle backend ⟨source, dayIndex, observation⟩ s)
      (record (setLastGenerated source dayIndex))

/-- The observation that an item writes when nothing fails. -/
def Item.output : Item → List Written
  | .generate source dayIndex (some observation) => [⟨source, dayIndex, observation⟩]
  | _ => []

/-- One item. Working off an item changes the history and adds observations in one of three
ways: nothing happens, the day is recorded, or the observation is written and the day recorded. -/
theorem runItem_cases (backend : Backend) (item : Item) (s : GenState) :
    ((runItem backend item s).2.obsHistory = s.obsHistory ∧
      (runItem backend item s).2.written = s.written ∧
      ((runItem backend item s).1 = .kOK → item = .fail .kOK)) ∨
    ∃ source dayIndex observation, item = .generate source dayIndex observation ∧
      (runItem backend item s).1 = .kOK ∧
      (runItem backend item s).2.obsHistory = setLastGenerated source dayIndex s.obsHistory ∧
      (runItem backend item s).2.written = s.written ++ item.output := by
  cases item with
  | fail status => exact Or.inl ⟨rfl, rfl, fun h => congrArg Item.fail h⟩
  | generate source dayIndex observation =>
    cases observation with
    | none => exact Or.inr ⟨source, dayIndex, none, rfl, rfl, rfl, (List.append_nil _).symm⟩
    | some o =>
      rw [runItem]
      rcases generateSingle_cases backend ⟨source, dayIndex, o⟩ s with ⟨hne, hs⟩ | h
      · rw [andThen, if_neg hne, hs]
        exact Or.inl ⟨rfl, rfl, fun hok => absurd hok hne⟩
      · rw [h]
        exact Or.inr ⟨source, dayIndex, some o, rfl, rfl, rfl, rfl⟩

end Cobalt.LocalAggregation
