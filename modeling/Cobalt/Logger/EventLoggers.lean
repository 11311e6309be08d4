import Cobalt.LocalAggregation.EventAggregator
import Cobalt.LocalAggregation.GenerateObservations

/-!
# Event loggers

An `EventLogger` validates an event against its metric, dates it, and then goes through the reports
of the metric: for each of them the event is passed to the local aggregator or encoded as an
observation, which is written at once. There is one class of event loggers for each type of events;
the `Logger` fills in the member of the event that goes with the class, so here the type of the
event selects the branch.

## Main definitions

* `validateEventCodes`, `prepareAndValidateEvent`: what the logger accepts.
* `EventLogger`, `EventLogger.log`.
-/

namespace Cobalt.Logger

open LocalAggregation

/-! ### Validation -/

/-- The check of one event code against its dimension. -/
def isValidEventCode (dimension : MetricDimension) (code : ℕ) : Bool :=
  if 0 < dimension.maxEventCode then code ≤ dimension.maxEventCode
  else code ∈ dimension.eventCodes

/-- `ValidateEventCodes`. A metric without dimensions accepts a single zero, and fewer event codes
than dimensions are accepted. -/
def validateEventCodes (metric : MetricDefinition) (eventCodes : List ℕ) : Status :=
  if metric.metricDimensions = [] ∧ eventCodes = [0] then .kOK
  else if metric.metricDimensions.length < eventCodes.length then .kInvalidArguments
  else if (eventCodes.zip metric.metricDimensions).all fun (code, dimension) =>
      isValidEventCode dimension code then .kOK
  else .kInvalidArguments

/-- Which event codes are accepted. -/
theorem validateEventCodes_eq_kOK_iff {metric : MetricDefinition} {eventCodes : List ℕ} :
    validateEventCodes metric eventCodes = .kOK ↔
      (metric.metricDimensions = [] ∧ eventCodes = [0]) ∨
        (eventCodes.length ≤ metric.metricDimensions.length ∧
          ∀ p ∈ eventCodes.zip metric.metricDimensions, isValidEventCode p.2 p.1 = true) := by
  rw [validateEventCodes]
  split_ifs with hzero hlength hall
  · exact iff_of_true rfl (Or.inl hzero)
  · refine iff_of_false (by simp) ?_
    rintro (h | h)
    · exact hzero h
    · exact absurd h.1 (not_le.mpr hlength)
  · exact iff_of_true rfl (Or.inr ⟨not_lt.mp hlength, fun p hp => List.all_eq_true.mp hall p hp⟩)
  · refine iff_of_false (by simp) ?_
    rintro (h | h)
    · exact hzero h
    · exact hall (List.all_eq_true.mpr fun p hp => h.2 p hp)

/-- `IntHistogramEventLogger::ValidateEvent`. The buckets below and above the ones of the metric
are valid too. -/
def validateIntHistogramEvent (metric : MetricDefinition) (eventCodes : List ℕ)
    (buckets : List HistogramBucket) : Status :=
  if validateEventCodes metric eventCodes ≠ .kOK then validateEventCodes metric eventCodes
  else match metric.intBuckets with
  | none | some .bucketsNotSet => .kInvalidConfig
  | some (.exponential numBuckets) | some (.linear numBuckets) =>
    if buckets.any fun bucket => U32.add numBuckets 2 ≤ bucket.index then .kInvalidArguments
    else .kOK

/-- `ValidateEvent`, by the type of the event. -/
def validateEvent (metric : MetricDefinition) : EventType → Status
  | .eventOccurredEvent eventCode =>
    match metric.metricDimensions with
    | [dimension] => if dimension.maxEventCode < eventCode then .kInvalidArguments else .kOK
    | _ => .kInvalidConfig
  | .eventCountEvent eventCode _ _ _ => validateEventCodes metric eventCode
  | .elapsedTimeEvent eventCode _ _ => validateEventCodes metric eventCode
  | .frameRateEvent eventCode _ _ => validateEventCodes metric eventCode
  | .memoryUsageEvent eventCode _ _ => validateEventCodes metric eventCode
  | .intHistogramEvent eventCode _ buckets => validateIntHistogramEvent metric eventCode buckets
  | .customEvent _ => .kOK
  | .typeNotSet => .kOK

/-- The metric type that goes with an event. -/
def EventType.metricType : EventType → MetricType
  | .eventOccurredEvent _ => .EVENT_OCCURRED
  | .eventCountEvent _ _ _ _ => .EVENT_COUNT
  | .elapsedTimeEvent _ _ _ => .ELAPSED_TIME
  | .frameRateEvent _ _ _ => .FRAME_RATE
  | .memoryUsageEvent _ _ _ => .MEMORY_USAGE
  | .intHistogramEvent _ _ _ => .INT_HISTOGRAM
  | .customEvent _ => .CUSTOM
  | .typeNotSet => .other 0

/-- `PrepareAndValidateEvent`. -/
def prepareAndValidateEvent (expectedType : MetricType) (record : EventRecord) : Status :=
  match record.metric with
  | none => .kInvalidArguments
  | some metric =>
    if metric.metricType ≠ expectedType then .kInvalidArguments
    else validateEvent metric record.event.type

/-! ### Immediate observations -/

/-- The observation that the encoder is asked for. -/
inductive EncodeType
  | basicRapporObservation (valueIndex numCategories : ℕ)
  | integerEventObservation (eventCodes : List ℕ) (component : String) (value : ℤ)
  | histogramObservation (eventCodes : List ℕ) (component : String)
      (histogram : List HistogramBucket)
  | customObservation (eventValues : List (String × CustomDimensionValue))
  deriving DecidableEq, Repr

/-- A call of the encoder: the function with its own arguments, and those that all the functions
have. -/
structure EncodeRequest where
  metric : MetricDefinition
  report : ReportDefinition
  dayIndex : ℕ
  type : EncodeType
  deriving DecidableEq, Repr

/-- The `switch` of `MaybeEncodeImmediateObservation` on the report type, by the type of the event:
what is encoded, `none` where nothing is, and an error where the report does not go with the
metric. -/
def immediateObservation (metric : MetricDefinition) (reportType : ReportType) :
    EventType → Except Status (Option EncodeType)
  | .eventOccurredEvent eventCode =>
    match reportType with
    | .SIMPLE_OCCURRENCE_COUNT =>
      .ok (some (.basicRapporObservation eventCode (basicRapporNumCategories metric)))
    | .UNIQUE_N_DAY_ACTIVES => .ok none
    | _ => .error .kInvalidConfig
  | .eventCountEvent eventCode component _ count =>
    match reportType with
    | .EVENT_COMPONENT_OCCURRENCE_COUNT | .INT_RANGE_HISTOGRAM | .NUMERIC_AGGREGATION =>
      .ok (some (.integerEventObservation eventCode component count))
    | .PER_DEVICE_NUMERIC_STATS | .PER_DEVICE_HISTOGRAM => .ok none
    | _ => .error .kInvalidConfig
  | .elapsedTimeEvent eventCode component value | .frameRateEvent eventCode component value
  | .memoryUsageEvent eventCode component value =>
    match reportType with
    | .NUMERIC_AGGREGATION | .NUMERIC_PERF_RAW_DUMP | .INT_RANGE_HISTOGRAM =>
      .ok (some (.integerEventObservation eventCode component value))
    | .PER_DEVICE_NUMERIC_STATS | .PER_DEVICE_HISTOGRAM => .ok none
    | _ => .error .kInvalidConfig
  | .intHistogramEvent eventCode component buckets =>
    match reportType with
    | .INT_RANGE_HISTOGRAM => .ok (some (.histogramObservation eventCode component buckets))
    | _ => .error .kInvalidConfig
  | .customEvent values =>
    match reportType with
    | .CUSTOM_RAW_DUMP => .ok (some (.customObservation values))
    | _ => .error .kInvalidConfig
  | .typeNotSet => .ok none

/-! ### Logging -/

/-- What an event logger works with: the encoder, the observation writer, and the release stage of
the system where it is known. Observations are of some type `Obs`, and they are written to a store
with states `W`. -/
structure EventLogger (Obs W : Type) where
  encode : EncodeRequest → Status × Option Obs
  writeObservation : Obs → W → Status × W
  releaseStage : Option ℕ

/-- The two stores that an event can reach. -/
structure Stores (W : Type) where
  aggregateStore : AggregateStore
  observationStore : W

/-- `FinalizeEvent`. -/
def finalizeEvent (metric : MetricDefinition) (time : Timestamp) (event : Event) : Event :=
  { event with
    dayIndex := timeToDayIndex time metric.timeZonePolicy
    hourIndex := timeToHourIndex time metric.timeZonePolicy }

/-- `MaybeUpdateLocalAggregation`, by the type of the event. -/
def maybeUpdateLocalAggregation (report : ReportDefinition) (metric : MetricDefinition)
    (event : Event) (s : AggregateStore) : Status × AggregateStore :=
  match event.type with
  | .eventOccurredEvent _ =>
    if isUniqueActives report.reportType then addUniqueActivesEvent report.id metric event s
    else (.kOK, s)
  | .eventCountEvent _ _ _ _ =>
    if isPerDeviceNumeric report.reportType then addEventCountEvent report.id metric event s
    else (.kOK, s)
  | .elapsedTimeEvent _ _ _ =>
    if isPerDeviceNumeric report.reportType then addElapsedTimeEvent report.id metric event s
    else (.kOK, s)
  | .frameRateEvent _ _ _ =>
    if isPerDeviceNumeric report.reportType then addFrameRateEvent report.id metric event s
    else (.kOK, s)
  | .memoryUsageEvent _ _ _ =>
    if isPerDeviceNumeric report.reportType then addMemoryUsageEvent report.id metric event s
    else (.kOK, s)
  | _ => (.kOK, s)

namespace EventLogger

variable {Obs W : Type} (logger : EventLogger Obs W)

/-- `MaybeGenerateImmediateObservation`. -/
def maybeGenerateImmediateObservation (report : ReportDefinition) (metric : MetricDefinition)
    (event : Event) (w : W) : Status × W :=
  match immediateObservation metric report.reportType event.type with
  | .error status => (status, w)
  | .ok none => (.kOK, w)
  | .ok (some type) =>
    match logger.encode ⟨metric, report, event.dayIndex, type⟩ with
    | (.kOK, some observation) => logger.writeObservation observation w
    | (.kOK, none) => (.kOK, w)
    | (status, _) => (status, w)

/-- The body of the loop of `Log` over the reports of the metric. For the last report the encoder
may move data out of the event instead of copying it; nothing reads the event after that. -/
def logReport (metric : MetricDefinition) (event : Event) (report : ReportDefinition)
    (s : Stores W) : Status × Stores W :=
  let update := maybeUpdateLocalAggregation report metric event s.aggregateStore
  let s := { s with aggregateStore := update.2 }
  if update.1 ≠ .kOK then (update.1, s)
  else
    let observation := logger.maybeGenerateImmediateObservation report metric event
      s.observationStore
    (observation.1, { s with observationStore := observation.2 })

/-- `EventLogger::Log`. A metric that is not to be collected in the current release stage is
ignored. -/
def log (time : Timestamp) (metric : MetricDefinition) (event : Event) (s : Stores W) :
    Status × Stores W :=
  if logger.releaseStage.any (metric.maxReleaseStage < ·) then (.kOK, s)
  else Loop.runAll .kOK (logger.logReport metric (finalizeEvent metric time event))
    metric.reports s

end EventLogger

end Cobalt.Logger
