import Cobalt.Logger.Encoder

/-!
# Moving the payload out of an event

For the last report of the metric an event logger sets `may_invalidate`, and the loggers of
histogram and custom events then swap the histogram or the values out of the event record instead of
copying them. A report that came after would find them gone.

`EventLogger.log` leaves the record alone. Here it is a part of the state of the loop, as the source
has it, with the counter of the reports that decides when the payload may be moved.

## Main definitions

* `maybeEncodeImmediateObservation`: what is encoded for a report, and the event that is left.
* `EventLogger.logMoving`: `EventLogger::Log` with the record that it changes.
* `Encoder.eventLogger`: an event logger with the functions of the encoder.

## Main results

* `EventLogger.outcome_logMoving`: moving the payload makes no difference to the stores.
* `EventLogger.made_of_logMoving_eq_kOK`: there is one observation for each report, with the whole
  payload and the day of the event.
-/

namespace Cobalt.Logger

/-- `MaybeEncodeImmediateObservation` up to the call of the encoder: what is encoded, and the event
that is left in the record. A swap leaves the empty payload of the new object in the event. -/
def maybeEncodeImmediateObservation (metric : MetricDefinition) (reportType : ReportType)
    (mayInvalidate : Bool) (event : Event) : Except Status (Option EncodeType) × Event :=
  match event.type with
  | .intHistogramEvent eventCode component buckets =>
    match reportType with
    | .INT_RANGE_HISTOGRAM =>
      (.ok (some (.histogramObservation eventCode component buckets)),
        if mayInvalidate then { event with type := .intHistogramEvent eventCode component [] }
        else event)
    | _ => (.error .kInvalidConfig, event)
  | .customEvent values =>
    match reportType with
    | .CUSTOM_RAW_DUMP =>
      (.ok (some (.customObservation values)),
        if mayInvalidate then { event with type := .customEvent [] } else event)
    | _ => (.error .kInvalidConfig, event)
  | type => (immediateObservation metric reportType type, event)

/-- What is encoded does not depend on whether it is moved. -/
theorem maybeEncodeImmediateObservation_fst (metric : MetricDefinition) (reportType : ReportType)
    (mayInvalidate : Bool) (event : Event) :
    (maybeEncodeImmediateObservation metric reportType mayInvalidate event).1 =
      immediateObservation metric reportType event.type := by
  rw [maybeEncodeImmediateObservation]
  cases event.type <;> cases reportType <;> rfl

/-- The event is left as it is unless it may be invalidated. -/
theorem maybeEncodeImmediateObservation_snd (metric : MetricDefinition) (reportType : ReportType)
    (event : Event) :
    (maybeEncodeImmediateObservation metric reportType false event).2 = event := by
  rw [maybeEncodeImmediateObservation]
  cases event.type <;> cases reportType <;> rfl

@[simp] theorem dayIndex_maybeEncodeImmediateObservation (metric : MetricDefinition)
    (reportType : ReportType) (mayInvalidate : Bool) (event : Event) :
    (maybeEncodeImmediateObservation metric reportType mayInvalidate event).2.dayIndex =
      event.dayIndex := by
  rw [maybeEncodeImmediateObservation]
  cases event.type <;> cases reportType <;> cases mayInvalidate <;> rfl

/-- The state of `Log`: the event in the record, the stores, and the observations that the
observation writer was called with. -/
structure LogState (Obs W : Type) where
  event : Event
  stores : Stores W
  made : List Obs := []

namespace EventLogger

variable {Obs W : Type} (logger : EventLogger Obs W)

/-- What `MaybeGenerateImmediateObservation` does with what is to be encoded. -/
def encodeAndWrite (metric : MetricDefinition) (report : ReportDefinition) (s : LogState Obs W) :
    Except Status (Option EncodeType) → Status × LogState Obs W
  | .error status => (status, s)
  | .ok none => (.kOK, s)
  | .ok (some type) =>
    match logger.encode ⟨metric, report, s.event.dayIndex, type⟩ with
    | (.kOK, some observation) =>
      let written := logger.writeObservation observation s.stores.observationStore
      (written.1,
        { s with
          stores := { s.stores with observationStore := written.2 }
          made := s.made ++ [observation] })
    | (.kOK, none) => (.kOK, s)
    | (status, _) => (status, s)

/-- `MaybeGenerateImmediateObservation`, with the record that it changes. -/
def generateMoving (metric : MetricDefinition) (report : ReportDefinition) (mayInvalidate : Bool)
    (s : LogState Obs W) : Status × LogState Obs W :=
  let encoded := maybeEncodeImmediateObservation metric report.reportType mayInvalidate s.event
  logger.encodeAndWrite metric report { s with event := encoded.2 } encoded.1

/-- The body of the loop of `Log`, for a report that is the last one or not. -/
def logReportMoving (metric : MetricDefinition) (mayInvalidate : Bool) (report : ReportDefinition)
    (s : LogState Obs W) : Status × LogState Obs W :=
  let update := maybeUpdateLocalAggregation report metric s.event s.stores.aggregateStore
  let s := { s with stores := { s.stores with aggregateStore := update.2 } }
  if update.1 ≠ .kOK then (update.1, s)
  else logger.generateMoving metric report mayInvalidate s

/-- The loop of `Log` over the reports of the metric, of which `reportIndex` have been processed. -/
def logReportsMoving (metric : MetricDefinition) (numReports : ℕ) :
    List ReportDefinition → ℕ → LogState Obs W → Status × LogState Obs W
  | [], _, s => (.kOK, s)
  | report :: reports, reportIndex, s =>
    let mayInvalidate := decide (reportIndex + 1 = numReports)
    let logged := logger.logReportMoving metric mayInvalidate report s
    if logged.1 ≠ .kOK then logged
    else logReportsMoving metric numReports reports (reportIndex + 1) logged.2

/-- `EventLogger::Log`, with the record that it changes. -/
def logMoving (time : Timestamp) (metric : MetricDefinition) (event : Event) (stores : Stores W) :
    Status × LogState Obs W :=
  let s := { event := finalizeEvent metric time event, stores := stores }
  if logger.releaseStage.any (metric.maxReleaseStage < ·) then (.kOK, s)
  else logger.logReportsMoving metric metric.reports.length metric.reports 0 s

/-! ### The stores -/

variable {logger} {metric : MetricDefinition} {report : ReportDefinition}
  {reports : List ReportDefinition} {mayInvalidate : Bool} {s : LogState Obs W}

/-- The status and the stores, which are what `EventLogger.log` returns. -/
def outcome (logged : Status × LogState Obs W) : Status × Stores W :=
  (logged.1, logged.2.stores)

@[simp] theorem event_encodeAndWrite (encoded : Except Status (Option EncodeType)) :
    (logger.encodeAndWrite metric report s encoded).2.event = s.event := by
  rcases encoded with status | _ | type
  · rfl
  · rfl
  rw [encodeAndWrite]
  split <;> rfl

theorem outcome_generateMoving :
    outcome (logger.generateMoving metric report mayInvalidate s) =
      ((logger.maybeGenerateImmediateObservation report metric s.event
          s.stores.observationStore).1,
        { s.stores with
          observationStore := (logger.maybeGenerateImmediateObservation report metric s.event
            s.stores.observationStore).2 }) := by
  rw [generateMoving, maybeGenerateImmediateObservation, maybeEncodeImmediateObservation_fst]
  rcases immediateObservation metric report.reportType s.event.type with status | _ | type
  · rfl
  · rfl
  simp only [encodeAndWrite, dayIndex_maybeEncodeImmediateObservation]
  generalize logger.encode ⟨metric, report, s.event.dayIndex, type⟩ = result
  obtain ⟨status, observation⟩ := result
  cases status <;> cases observation <;> rfl

theorem outcome_logReportMoving :
    outcome (logger.logReportMoving metric mayInvalidate report s) =
      logger.logReport metric s.event report s.stores := by
  rw [logReportMoving, logReport]
  split_ifs with hupdate
  · rfl
  · exact outcome_generateMoving

/-- The event is left in the record for the reports that follow. -/
theorem event_logReportMoving :
    (logger.logReportMoving metric false report s).2.event = s.event := by
  rw [logReportMoving]
  split_ifs with hupdate
  · rfl
  · rw [generateMoving, event_encodeAndWrite, maybeEncodeImmediateObservation_snd]

/-- The record still holds the event where a report follows. -/
theorem event_logReportMoving_of_cons {report' : ReportDefinition} {reportIndex numReports : ℕ}
    (hindex : reportIndex + (report :: report' :: reports).length = numReports) :
    (logger.logReportMoving metric (decide (reportIndex + 1 = numReports)) report s).2.event =
      s.event := by
  have hnot : reportIndex + 1 ≠ numReports := by
    rw [List.length_cons, List.length_cons] at hindex
    omega
  rw [decide_eq_false hnot]
  exact event_logReportMoving

theorem outcome_logReportsMoving {reportIndex numReports : ℕ}
    (hindex : reportIndex + reports.length = numReports) :
    outcome (logger.logReportsMoving metric numReports reports reportIndex s) =
      Loop.runAll .kOK (logger.logReport metric s.event) reports s.stores := by
  induction reports generalizing reportIndex s with
  | nil => rfl
  | cons report reports ih =>
    rw [logReportsMoving, Loop.runAll, ← outcome_logReportMoving]
    split_ifs with hfail hok hok
    · exact absurd hok hfail
    · rfl
    · rw [ih (by rw [← hindex, List.length_cons]; omega)]
      cases reports with
      | nil => rw [Loop.runAll_nil, Loop.runAll_nil, outcome]
      | cons report' reports => rw [event_logReportMoving_of_cons hindex, outcome]
    · exact absurd (not_not.mp hfail) hok

/-- Moving the payload of the last report makes no difference to the status and the stores. -/
theorem outcome_logMoving (time : Timestamp) (metric : MetricDefinition) (event : Event)
    (stores : Stores W) :
    outcome (logger.logMoving time metric event stores) = logger.log time metric event stores := by
  rw [logMoving, log]
  split_ifs with hstage
  · rfl
  · exact outcome_logReportsMoving (Nat.zero_add _)

end EventLogger

/-! ### The observations -/

/-- An observation, with the id that is drawn for it left open. -/
abbrev OpenObservation : Type := List UInt8 → Observation2 × ObservationMetadata

/-- The result of a function of the encoder, whose status does not depend on the random id. -/
def openResult (result : List UInt8 → EncoderResult) : Status × Option OpenObservation :=
  ((result []).status, some fun randomId =>
    ((result randomId).observation, (result randomId).metadata))

/-- The calls of the encoder by an event logger. A project context has metrics of its own project
only. The fields of the system profile are looked up in the report, and observations that are
randomised are made by `basicRappor`. -/
def Encoder.encode (encoder : Encoder)
    (systemProfileField : ReportDefinition → List SystemProfileField)
    (basicRappor : EncodeRequest → Status × Option OpenObservation) (request : EncodeRequest) :
    Status × Option OpenObservation :=
  let metric : MetricRef :=
    ⟨⟨request.metric.customerId, request.metric.projectId⟩, request.metric.id⟩
  let report : EncodedReport := ⟨request.report, systemProfileField request.report⟩
  match request.type with
  | .basicRapporObservation _ _ => basicRappor request
  | .integerEventObservation eventCodes component value =>
    openResult fun randomId => encoder.encodeIntegerEventObservation randomId metric report
      request.dayIndex eventCodes component value
  | .histogramObservation eventCodes component histogram =>
    openResult fun randomId => encoder.encodeHistogramObservation randomId metric report
      request.dayIndex eventCodes component histogram
  | .customObservation eventValues =>
    openResult fun randomId => encoder.encodeCustomObservation randomId metric report
      request.dayIndex eventValues

/-- An event logger with the functions of the encoder. -/
def Encoder.eventLogger {W : Type} (encoder : Encoder)
    (systemProfileField : ReportDefinition → List SystemProfileField)
    (basicRappor : EncodeRequest → Status × Option OpenObservation)
    (writeObservation : OpenObservation → W → Status × W) (releaseStage : Option ℕ) :
    EventLogger OpenObservation W where
  encode := encoder.encode systemProfileField basicRappor
  writeObservation := writeObservation
  releaseStage := releaseStage

/-- The whole payload of a histogram or a custom event, as an observation carries it. -/
def Encoder.payload (encoder : Encoder) : EventType → Option Observation2Type
  | .intHistogramEvent eventCode component buckets =>
    some (.histogram (Config.packEventCodes eventCode)
      (encoder.hashComponentNameIfNotEmpty component).2 buckets)
  | .customEvent values => some (.custom values)
  | _ => none

/-- The observation has the payload, and its metadata names the report and the day. -/
def Carries (payload : Observation2Type) (metricId dayIndex : ℕ) (report : ReportDefinition)
    (observation : OpenObservation) : Prop :=
  ∀ randomId, (observation randomId).1 = ⟨randomId, payload⟩ ∧
    (observation randomId).2.metricId = metricId ∧ (observation randomId).2.reportId = report.id ∧
    (observation randomId).2.dayIndex = dayIndex

namespace EventLogger

variable {W : Type} {encoder : Encoder}
  {systemProfileField : ReportDefinition → List SystemProfileField}
  {basicRappor : EncodeRequest → Status × Option OpenObservation}
  {logger : EventLogger OpenObservation W}
  {metric : MetricDefinition} {report : ReportDefinition} {mayInvalidate : Bool}
  {s : LogState OpenObservation W} {payload : Observation2Type}

/-- What the encoder makes of a histogram or a custom event carries the payload. -/
theorem carries_of_encode {reportType : ReportType} {type : EventType} {encodeType : EncodeType}
    {dayIndex : ℕ} {result : Option OpenObservation}
    (hpayload : encoder.payload type = some payload)
    (htype : immediateObservation metric reportType type = .ok (some encodeType))
    (hencode : encoder.encode systemProfileField basicRappor
      ⟨metric, report, dayIndex, encodeType⟩ = (.kOK, result)) :
    ∃ o, result = some o ∧ Carries payload metric.id dayIndex report o := by
  cases type with
  | intHistogramEvent eventCode component buckets =>
    cases reportType <;> cases htype
    cases hpayload
    exact ⟨_, (Prod.ext_iff.mp hencode).2.symm, fun randomId => ⟨rfl, rfl, rfl, rfl⟩⟩
  | customEvent values =>
    cases reportType <;> cases htype
    cases hpayload
    exact ⟨_, (Prod.ext_iff.mp hencode).2.symm, fun randomId => ⟨rfl, rfl, rfl, rfl⟩⟩
  | _ => cases hpayload

/-- A histogram or a custom event is encoded for a report, or it is refused. -/
theorem exists_encodeType {reportType : ReportType} {type : EventType}
    {encoded : Option EncodeType} (hpayload : encoder.payload type = some payload)
    (htype : immediateObservation metric reportType type = .ok encoded) :
    ∃ encodeType, encoded = some encodeType := by
  cases type with
  | intHistogramEvent eventCode component buckets =>
    cases reportType <;> cases htype
    exact ⟨_, rfl⟩
  | customEvent values =>
    cases reportType <;> cases htype
    exact ⟨_, rfl⟩
  | _ => cases hpayload

theorem status_of_error {reportType : ReportType} {type : EventType} {status : Status}
    (htype : immediateObservation metric reportType type = .error status) :
    status = .kInvalidConfig := by
  cases type <;> cases reportType <;> cases htype <;> rfl

/-- An event that is encoded without an error adds the observation that the encoder makes of it. -/
theorem made_encodeAndWrite {encodeType : EncodeType}
    (hok : (logger.encodeAndWrite metric report s (.ok (some encodeType))).1 = .kOK) :
    ∃ result, logger.encode ⟨metric, report, s.event.dayIndex, encodeType⟩ = (.kOK, result) ∧
      (logger.encodeAndWrite metric report s (.ok (some encodeType))).2.made =
        s.made ++ result.toList := by
  rw [encodeAndWrite] at hok ⊢
  generalize logger.encode ⟨metric, report, s.event.dayIndex, encodeType⟩ = result at hok ⊢
  obtain ⟨status, result⟩ := result
  refine ⟨result, ?_⟩
  cases result with
  | none =>
    cases status with
    | kOK => exact ⟨rfl, (List.append_nil _).symm⟩
    | _ => cases hok
  | some observation =>
    cases status with
    | kOK => exact ⟨rfl, rfl⟩
    | _ => cases hok

/-- One report. An observation that carries the payload is added. -/
theorem made_logReportMoving
    (hlogger : logger.encode = encoder.encode systemProfileField basicRappor)
    (hpayload : encoder.payload s.event.type = some payload)
    (hok : (logger.logReportMoving metric mayInvalidate report s).1 = .kOK) :
    ∃ o, (logger.logReportMoving metric mayInvalidate report s).2.made = s.made ++ [o] ∧
      Carries payload metric.id s.event.dayIndex report o := by
  rw [logReportMoving] at hok ⊢
  split_ifs at hok ⊢ with hupdate
  · exact absurd hok hupdate
  rw [generateMoving, maybeEncodeImmediateObservation_fst] at hok ⊢
  cases htype : immediateObservation metric report.reportType s.event.type with
  | error status =>
    rw [htype, status_of_error htype] at hok
    cases hok
  | ok encoded =>
    rw [htype] at hok
    obtain ⟨encodeType, rfl⟩ := exists_encodeType hpayload htype
    obtain ⟨result, hencode, hmade⟩ := made_encodeAndWrite hok
    rw [hlogger, dayIndex_maybeEncodeImmediateObservation] at hencode
    obtain ⟨o, rfl, hcarries⟩ := carries_of_encode hpayload htype hencode
    exact ⟨o, hmade, hcarries⟩

/-- The loop. One observation is added for each report, in the order of the reports. -/
theorem made_logReportsMoving {reports : List ReportDefinition} {reportIndex numReports : ℕ}
    (hlogger : logger.encode = encoder.encode systemProfileField basicRappor)
    (hindex : reportIndex + reports.length = numReports)
    (hpayload : encoder.payload s.event.type = some payload)
    (hok : (logger.logReportsMoving metric numReports reports reportIndex s).1 = .kOK) :
    ∃ made, (logger.logReportsMoving metric numReports reports reportIndex s).2.made =
        s.made ++ made ∧
      List.Forall₂ (Carries payload metric.id s.event.dayIndex) reports made := by
  induction reports generalizing reportIndex s with
  | nil => exact ⟨[], (List.append_nil _).symm, .nil⟩
  | cons report reports ih =>
    rw [logReportsMoving] at hok ⊢
    split_ifs at hok ⊢ with hfail
    · exact absurd hok hfail
    obtain ⟨o, hmade, hcarries⟩ := made_logReportMoving hlogger hpayload (not_not.mp hfail)
    cases reports with
    | nil => exact ⟨[o], hmade, .cons hcarries .nil⟩
    | cons report' reports =>
      have hevent := @event_logReportMoving_of_cons _ _ logger metric report reports s report'
        reportIndex numReports hindex
      have hindex' : reportIndex + 1 + (report' :: reports).length = numReports := by
        simp only [List.length_cons] at hindex ⊢
        omega
      obtain ⟨made, hrest, hall⟩ := ih hindex' (by rw [hevent]; exact hpayload) hok
      rw [hevent] at hall
      refine ⟨o :: made, ?_, .cons hcarries hall⟩
      rw [hrest, hmade, List.append_assoc, List.singleton_append]

/-- **Every report of a histogram or a custom event gets the whole payload.** Where `Log` returns
`kOK` and the metric is collected in the release stage of the system, it has made one observation
for each report of the metric, which carries the histogram or the values of the event and the day
that the event is dated with. -/
theorem made_of_logMoving_eq_kOK (encoder : Encoder)
    (systemProfileField : ReportDefinition → List SystemProfileField)
    (basicRappor : EncodeRequest → Status × Option OpenObservation)
    (writeObservation : OpenObservation → W → Status × W) (releaseStage : Option ℕ)
    (time : Timestamp) (metric : MetricDefinition) (event : Event) (stores : Stores W)
    (payload : Observation2Type) (hpayload : encoder.payload event.type = some payload)
    (hok : ((encoder.eventLogger systemProfileField basicRappor writeObservation
      releaseStage).logMoving time metric event stores).1 = .kOK) :
    (releaseStage.any (metric.maxReleaseStage < ·) = false →
      List.Forall₂ (Carries payload metric.id (timeToDayIndex time metric.timeZonePolicy))
        metric.reports
        ((encoder.eventLogger systemProfileField basicRappor writeObservation
          releaseStage).logMoving time metric event stores).2.made) ∧
    (releaseStage.any (metric.maxReleaseStage < ·) = true →
      ((encoder.eventLogger systemProfileField basicRappor writeObservation
        releaseStage).logMoving time metric event stores).2.made = []) := by
  refine ⟨fun hstage => ?_, fun hstage => ?_⟩
  · rw [logMoving, if_neg (by simpa [Encoder.eventLogger] using hstage)] at hok ⊢
    obtain ⟨made, hmade, hall⟩ := made_logReportsMoving rfl (Nat.zero_add _) hpayload hok
    rw [hmade]
    exact hall
  · rw [logMoving, if_pos (by simpa [Encoder.eventLogger] using hstage)]

/-- A metric with two reports. -/
def histogramMetric : MetricDefinition :=
  { customerId := 1
    projectId := 2
    id := 3
    metricType := .INT_HISTOGRAM
    reports := [{ id := 4, reportType := .INT_RANGE_HISTOGRAM },
      { id := 5, reportType := .INT_RANGE_HISTOGRAM }] }

/-- Stores without data, of which the second counts the observations. -/
def countingStores : Stores ℕ where
  aggregateStore :=
    { localAggregateStore := LocalAggregation.makeNewLocalAggregateStore
      emptyLocalAggregateStore := LocalAggregation.makeNewLocalAggregateStore
      obsHistory := LocalAggregation.makeNewObservationHistoryStore
      isDisabled := false
      backfillDays := 0
      backfillDays_le := Nat.zero_le _ }
  observationStore := 0

/-- An event logger that counts the observations. -/
def countingLogger : EventLogger OpenObservation ℕ :=
  (⟨none, fun _ => none⟩ : Encoder).eventLogger (fun _ => []) (fun _ => (.kOther, none))
    (fun _ n => (.kOK, n + 1)) none

/-- Both reports get the bucket of the event. -/
theorem made_of_logMoving_two_reports :
    List.Forall₂ (Carries (.histogram 0 [] [⟨1, 2⟩]) 3 7) histogramMetric.reports
      (countingLogger.logMoving ⟨7, 7, 168, 168⟩ histogramMetric
        { type := .intHistogramEvent [] "" [⟨1, 2⟩] } countingStores).2.made :=
  (made_of_logMoving_eq_kOK ⟨none, fun _ => none⟩ (fun _ => []) (fun _ => (.kOther, none))
    (fun _ n => (.kOK, n + 1)) none ⟨7, 7, 168, 168⟩ histogramMetric
    { type := .intHistogramEvent [] "" [⟨1, 2⟩] } countingStores
    (.histogram 0 [] [⟨1, 2⟩]) rfl rfl).1 rfl

end EventLogger

end Cobalt.Logger
