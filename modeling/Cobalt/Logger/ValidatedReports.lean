import Cobalt.Logger.MovedPayload
import Cobalt.Logger.RapporObservations

/-!
# Logging for validated reports

The validator of the registry has a table of the report types that go with a metric type, and the
client has a `switch` for each type of events. A metric that passes the validation is logged for, in
the client, as far as the two agree, the aggregator knows the reports, and the encoder can encode
what it is asked for.

## Main definitions

* `ValidatedRegistry`: projects whose definitions pass, with ids of their own.
* `RapporEncoder.eventLogger`: an event logger with all the functions of the encoder.

## Main results

* `exists_immediateObservation_iff`: the `switch` statements and the table agree.
* `log_kOK_iff`: for which validated metrics logging a valid event succeeds.
* `updateAggregationConfigs_kOK_iff`: which validated projects are registered.
-/

namespace Cobalt.Logger

open LocalAggregation ConfigValidator

/-! ### The table and the `switch` statements -/

/-- The client encodes an event for the report types that the validator allows, and no
others. -/
theorem exists_immediateObservation_iff {mt : ConfigValidator.MetricType}
    {rt : ConfigValidator.ReportType} {type : EventType} (htype : mt.toClient = type.metricType)
    (hset : type ≠ .typeNotSet) (metric : Cobalt.MetricDefinition) :
    (∃ encoded, immediateObservation metric rt.toClient type = .ok encoded) ↔
      ∃ types, allowedReportTypes mt = some types ∧ rt ∈ types := by
  cases type with
  | typeNotSet => exact absurd rfl hset
  | _ =>
    cases mt <;> cases htype
    all_goals cases rt <;>
      simp [immediateObservation, allowedReportTypes, ConfigValidator.ReportType.toClient]

/-- Whether an observation is randomised. -/
def EncodeType.isRandomised : EncodeType → Bool
  | .basicRapporObservation _ _ => true
  | _ => false

/-- Only `SIMPLE_OCCURRENCE_COUNT` reports have randomised observations that are made at once. -/
theorem isRandomised_of_immediateObservation {metric : Cobalt.MetricDefinition}
    {rt : ConfigValidator.ReportType} {type : EventType} {encodeType : EncodeType}
    (hreport : rt ≠ .SIMPLE_OCCURRENCE_COUNT)
    (h : immediateObservation metric rt.toClient type = .ok (some encodeType)) :
    encodeType.isRandomised = false := by
  cases type <;> cases rt <;> cases h <;> first | rfl | exact absurd rfl hreport

/-! ### Projects whose definitions pass -/

/-- The projects of a registry that was validated. No check looks at the aggregation types, which
are named in the text of the registry. -/
structure ValidatedRegistry (validateMetadata : Metadata → Option String)
    (projects : List RegistryProject) : Prop where
  ids : (projects.map fun project => (project.customerId, project.projectId)).Nodup
  valid : ∀ project ∈ projects,
    RegistryMetric.validateConfiguredMetricDefinitions validateMetadata project.metrics = none
  aggregationTypes : ∀ project ∈ projects, ∀ m ∈ project.metrics, ∀ r ∈ m.reportDefinitions,
    ∀ n, r.aggregationType ≠ .unrecognized n

/-- The client's view of a validated registry. -/
theorem ValidatedRegistry.validRegistry {validateMetadata : Metadata → Option String}
    {projects : List RegistryProject} (h : ValidatedRegistry validateMetadata projects) :
    ValidRegistry (projects.map RegistryProject.toClient) := by
  refine ⟨?_, fun context hcontext => ?_⟩
  · rw [List.map_map]
    refine List.Nodup.of_map (fun p : Project => (p.customerId, p.projectId)) ?_
    rw [List.map_map]
    exact h.ids
  · obtain ⟨project, hproject, rfl⟩ := List.mem_map.mp hcontext
    exact validProject_toClient (h.valid project hproject) (h.aggregationTypes project hproject)

theorem validateMetricDefinition_of_mem {validateMetadata : Metadata → Option String}
    {metrics : List RegistryMetric} {m : RegistryMetric}
    (h : RegistryMetric.validateConfiguredMetricDefinitions validateMetadata metrics = none)
    (hm : m ∈ metrics) : m.validateMetricDefinition validateMetadata = none :=
  (definitionsLoop_eq_none_iff.mp h).2.2 m hm

/-- The report of a project that a report of the client stands for. -/
def reportIn (project : RegistryProject) (metric : Cobalt.MetricDefinition)
    (report : Cobalt.ReportDefinition) : Option RegistryReport :=
  (project.metrics.find? (·.id = metric.id)).bind fun m =>
    m.reportDefinitions.find? (·.id = report.id)

/-- The element of a list with a given id, where no two share one. -/
theorem find?_id_eq_some {α : Type} {id : α → ℕ} {l : List α} {a : α} (h : (l.map id).Nodup)
    (ha : a ∈ l) : l.find? (fun b => decide (id b = id a)) = some a := by
  cases hfind : l.find? (fun b => decide (id b = id a)) with
  | none => exact absurd (List.find?_eq_none.mp hfind a ha) (by simp)
  | some b =>
    have hid : id b = id a := by simpa using List.find?_some hfind
    rw [List.inj_on_of_nodup_map h (List.mem_of_find?_eq_some hfind) ha hid]

theorem reportIn_toClient {validateMetadata : Metadata → Option String} {project : RegistryProject}
    {m : RegistryMetric} {r : RegistryReport}
    (h : RegistryMetric.validateConfiguredMetricDefinitions validateMetadata project.metrics = none)
    (hm : m ∈ project.metrics) (hr : r ∈ m.reportDefinitions) :
    reportIn project m.toClient r.toClient = some r := by
  have hmetrics := (definitionsLoop_eq_none_iff.mp h).1.1
  have hreports :=
    (validReport_of_validateMetricDefinition (validateMetricDefinition_of_mem h hm)).1
  rw [reportIn]
  refine Option.bind_eq_some_iff.mpr ⟨m, find?_id_eq_some hmetrics hm, ?_⟩
  exact find?_id_eq_some hreports hr

/-! ### The event logger -/

namespace RapporEncoder

/-- An observation of the encoder, with its random id left open. -/
abbrev LoggedObservation : Type :=
  OpenObservation ⊕ (List UInt8 → RapporObservation × ObservationMetadata)

variable (encoder : RapporEncoder) (project : RegistryProject)
  (words : EncodeRequest → List UInt32 × List UInt32)

/-- The report of a request, with the fields that only the encoder reads. -/
def reportOf (metric : Cobalt.MetricDefinition) (report : Cobalt.ReportDefinition) :
    RapporReport where
  toReportDefinition := report
  systemProfileField :=
    ((reportIn project metric report).map RegistryReport.systemProfileField).getD []
  localPrivacyNoiseLevel :=
    ((reportIn project metric report).map RegistryReport.localPrivacyNoiseLevel).getD
      .NOISE_LEVEL_UNSET

/-- A Basic RAPPOR observation is made whatever the two numbers are. -/
theorem isSome_encodeBasicRapporObservation {words : List UInt32 × List UInt32}
    {randomId : List UInt8} {metric : MetricRef} {report : RapporReport}
    {dayIndex valueIndex numCategories : ℕ} :
    (encoder.encodeBasicRapporObservation words randomId metric report dayIndex valueIndex
      numCategories).isSome := by
  have hmod (n : ℕ) : UInt32.ofNat (n % 2 ^ 32) = UInt32.ofNat n := by
    apply UInt32.toNat.inj
    rw [UInt32.toNat_ofNat', UInt32.toNat_ofNat', Nat.mod_mod]
  obtain ⟨result, hresult, -⟩ := @exists_encodeBasicRapporObservation encoder words randomId metric
    report dayIndex (valueIndex % 2 ^ 32) (numCategories % 2 ^ 32) (Nat.mod_lt _ (by decide))
    (Nat.mod_lt _ (by decide))
  rw [encodeBasicRapporObservation, hmod, basicRapporEncoder, basicRapporConfig, hmod] at hresult
  rw [encodeBasicRapporObservation, basicRapporEncoder, basicRapporConfig, hresult]
  rfl

/-- The call of `EncodeBasicRapporObservation` for a request. -/
def basicRapporResult (request : EncodeRequest) (valueIndex numCategories : ℕ)
    (randomId : List UInt8) : RapporResult :=
  (encoder.encodeBasicRapporObservation (words request) randomId
    ⟨⟨request.metric.customerId, request.metric.projectId⟩, request.metric.id⟩
    (reportOf project request.metric request.report) request.dayIndex valueIndex numCategories).get
      encoder.isSome_encodeBasicRapporObservation

/-- The calls of the encoder by an event logger. -/
def encodeRequest (request : EncodeRequest) : Status × Option LoggedObservation :=
  match request.type with
  | .basicRapporObservation valueIndex numCategories =>
    let result := encoder.basicRapporResult project words request valueIndex numCategories
    ((result []).status,
      some (.inr fun randomId => ((result randomId).observation, (result randomId).metadata)))
  | _ =>
    let encoded := encoder.toEncoder.encode
      (fun report => (reportOf project request.metric report).systemProfileField)
      (fun _ => (.kOther, none)) request
    (encoded.1, encoded.2.map .inl)

/-- An event logger with the functions of the encoder. -/
def eventLogger {W : Type} (writeObservation : LoggedObservation → W → Status × W)
    (releaseStage : Option ℕ) : EventLogger LoggedObservation W where
  encode := encoder.encodeRequest project words
  writeObservation := writeObservation
  releaseStage := releaseStage

end RapporEncoder

/-! ### The aggregator accepts what is forwarded -/

/-- An event that is forwarded changes no report of the store. -/
theorem sameShapes_maybeUpdateLocalAggregation (report : Cobalt.ReportDefinition)
    (metric : Cobalt.MetricDefinition) (event : Event) (s : AggregateStore) :
    SameShapes s (maybeUpdateLocalAggregation report metric event s).2 := by
  have hrefl : SameShapes s s := ⟨fun _ => rfl, rfl⟩
  have hnumeric (read : EventType → Option (List ℕ × String × ℤ)) :
      SameShapes s (addNumericEvent report.id metric event s read).2 := by
    rw [addNumericEvent]
    split
    · exact sameShapes_updateNumericAggregate _ _ _ _ _ _
    · exact hrefl
  have hunique : SameShapes s (addUniqueActivesEvent report.id metric event s).2 := by
    rw [addUniqueActivesEvent]
    split
    · exact sameShapes_setActive _ _ _ _
    · exact hrefl
  rw [maybeUpdateLocalAggregation]
  split
  · split_ifs
    exacts [hunique, hrefl]
  · split_ifs
    exacts [hnumeric _, hrefl]
  · split_ifs
    exacts [hnumeric _, hrefl]
  · split_ifs
    exacts [hnumeric _, hrefl]
  · split_ifs
    exacts [hnumeric _, hrefl]
  · exact hrefl

/-- The store knows the reports of a project, and agrees with the registry. -/
def Serves (projects : List RegistryProject) (project : RegistryProject) (s : AggregateStore) :
    Prop :=
  BothAgree (projects.map RegistryProject.toClient) s ∧ Registered project.toClient s

theorem Serves.of_sameShapes {projects : List RegistryProject} {project : RegistryProject}
    {s s' : AggregateStore} (h : Serves projects project s) (hsame : SameShapes s s') :
    Serves projects project s' :=
  ⟨hsame.agrees h.1, fun metric hmetric report hreport hforwards =>
    hsame.inBoth (h.2 metric hmetric report hreport hforwards)⟩

/-- After a registration that succeeded, and any calls after it, the store knows the reports. -/
theorem serves_of_run {projects : List RegistryProject} {project : RegistryProject}
    {s s' : AggregateStore} (hproject : project ∈ projects)
    (hs : Populated (projects.map RegistryProject.toClient) s)
    (hupdate : (updateAggregationConfigs project.toClient s).1 = .kOK)
    (hrun : Relation.ReflTransGen (RegistryStep (projects.map RegistryProject.toClient))
      (updateAggregationConfigs project.toClient s).2 s') : Serves projects project s' := by
  obtain ⟨hregister, hregistered⟩ :=
    registered_updateAggregationConfigs (List.mem_map_of_mem hproject) s
  have hagree := agrees_of_populated hs
  induction hrun with
  | refl =>
    exact ⟨⟨hregister.1.agrees hagree.1, hregister.2.agrees hagree.2⟩, hregistered hupdate⟩
  | tail _ hstep ih =>
    obtain ⟨hagree', hregistered'⟩ := ih hregister hregistered
    exact ⟨hstep.keeps.1 hagree', fun metric hmetric report hreport hforwards =>
      hstep.keeps.2 _ (hregistered' metric hmetric report hreport hforwards)⟩

/-! ### Logging -/

section Log

variable {encoder : RapporEncoder} {project : RegistryProject}
  {words : EncodeRequest → List UInt32 × List UInt32}

/-- The encoder encodes what the `switch` asks for. -/
def Encodes (encoder : RapporEncoder) (project : RegistryProject)
    (words : EncodeRequest → List UInt32 × List UInt32) (metric : Cobalt.MetricDefinition)
    (event : Event) (report : Cobalt.ReportDefinition) : Prop :=
  ∃ encoded, immediateObservation metric report.reportType event.type = .ok encoded ∧
    ∀ type ∈ encoded,
      (encoder.encodeRequest project words ⟨metric, report, event.dayIndex, type⟩).1 = .kOK

/-- What is not randomised is encoded if the hash function does not fail. -/
theorem status_encodeRequest (hhash : ∀ component, (encoder.hash component).isSome)
    {request : EncodeRequest} (hrandomised : request.type.isRandomised = false) :
    (encoder.encodeRequest project words request).1 = .kOK := by
  have hstatus (component : String) (status : Status) :
      encoder.toEncoder.hashStatus component status = status := by
    obtain ⟨digest, hdigest⟩ := Option.isSome_iff_exists.mp (hhash component)
    rw [Encoder.hashStatus, if_pos]
    rw [Encoder.hashComponentNameIfNotEmpty, hdigest]
    split_ifs <;> rfl
  rw [RapporEncoder.encodeRequest]
  cases htype : request.type with
  | basicRapporObservation valueIndex numCategories =>
    rw [htype] at hrandomised
    cases hrandomised
  | integerEventObservation eventCodes component value =>
    simp only [Encoder.encode, htype]
    exact hstatus component _
  | histogramObservation eventCodes component histogram =>
    simp only [Encoder.encode, htype]
    exact hstatus component _
  | customObservation eventValues =>
    simp only [Encoder.encode, htype]
    rfl

/-- A randomised observation is encoded if the client has a secret, the noise level is
recognized, there are not too many categories, and the value is one of them. -/
theorem status_encodeRequest_basicRappor {metric : Cobalt.MetricDefinition}
    {report : Cobalt.ReportDefinition} {dayIndex valueIndex numCategories : ℕ}
    (hnum : numCategories < 2 ^ 32) (hvalue : valueIndex < 2 ^ 32) :
    (encoder.encodeRequest project words
        ⟨metric, report, dayIndex, .basicRapporObservation valueIndex numCategories⟩).1 = .kOK ↔
      encoder.clientSecret ≠ [] ∧
        isRecognized (RapporEncoder.reportOf project metric report).localPrivacyNoiseLevel ∧
        numCategories < 1024 ∧ valueIndex < numCategories := by
  obtain ⟨result, hresult, hstatus⟩ := @RapporEncoder.exists_encodeBasicRapporObservation encoder
    (words ⟨metric, report, dayIndex, .basicRapporObservation valueIndex numCategories⟩) []
    ⟨⟨metric.customerId, metric.projectId⟩, metric.id⟩
    (RapporEncoder.reportOf project metric report) dayIndex valueIndex numCategories hnum hvalue
  rw [← hstatus, RapporEncoder.encodeRequest]
  simp only [RapporEncoder.basicRapporResult, hresult, Option.get_some]

/-- One report. Where the aggregator accepts the event and the writer does not fail, logging for
a report succeeds if what the `switch` asks for is encoded. -/
theorem logReport_kOK_iff {W : Type}
    {writeObservation : RapporEncoder.LoggedObservation → W → Status × W} {releaseStage : Option ℕ}
    (hwrite : ∀ observation w, (writeObservation observation w).1 = .kOK)
    {metric : Cobalt.MetricDefinition} {event : Event} {report : Cobalt.ReportDefinition}
    {stores : Stores W}
    (hupdate : (maybeUpdateLocalAggregation report metric event stores.aggregateStore).1 = .kOK) :
    ((encoder.eventLogger project words writeObservation releaseStage).logReport metric event report
        stores).1 = .kOK ↔ Encodes encoder project words metric event report := by
  rw [EventLogger.logReport]
  dsimp only
  rw [if_neg (not_not.mpr hupdate), EventLogger.maybeGenerateImmediateObservation, Encodes]
  cases himmediate : immediateObservation metric report.reportType event.type with
  | error status =>
    rw [EventLogger.status_of_error himmediate]
    exact iff_of_false (by rintro ⟨⟩) (by rintro ⟨_, ⟨⟩, _⟩)
  | ok encoded =>
    simp only [Except.ok.injEq, exists_eq_left']
    cases encoded with
    | none => simp
    | some type =>
      simp only [Option.mem_def, Option.some.injEq, forall_eq', RapporEncoder.eventLogger]
      generalize encoder.encodeRequest project words ⟨metric, report, event.dayIndex, type⟩ = result
      obtain ⟨status, observation⟩ := result
      cases status <;> cases observation <;> simp [hwrite]

/-! ### Validated metrics -/

variable {validateMetadata : Metadata → Option String} {m : RegistryMetric} {r : RegistryReport}

/-- An event of a type that has reports is not left unset. -/
theorem ne_typeNotSet_of_allowedReportTypes {mt : ConfigValidator.MetricType} {type : EventType}
    {types : List ConfigValidator.ReportType} (htype : mt.toClient = type.metricType)
    (h : allowedReportTypes mt = some types) : type ≠ .typeNotSet := by
  rintro rfl
  cases mt <;> cases htype <;> cases h

/-- The dimension of a validated metric whose events are occurrences: the number of its categories
is computed as one that is small enough. -/
theorem add_maxEventCode_lt {md : ConfigValidator.MetricDimension}
    (h : m.validateMetricDefinition validateMetadata = none)
    (htype : m.metricType = .EVENT_OCCURRED) (hdimensions : m.metricDimensions = [md]) :
    U32.add md.maxEventCode 1 < 1024 := by
  have hforType := (of_validateMetricDefinition h).2.1
  rw [validateMetricDefinitionForType, htype] at hforType
  dsimp only at hforType
  rw [validateEventOccurred, hdimensions] at hforType
  have hmax : md.maxEventCode ≠ 0 := (ite_some_eq_none.mp hforType).1
  have hcobalt10 : isCobalt11MetricType m.metricType = false := by
    rw [htype]
    rfl
  have hbound := (valid_of_validateMetricDimensions
    (validateMetricDimensions_of_validateMetricDefinition h) hcobalt10).2.2
  have hlt : U32.add md.maxEventCode 1 < 2 ^ 32 := Nat.mod_lt _ (by decide)
  rw [hdimensions, List.map_singleton, List.prod_singleton, dimensionFactor, if_pos hmax,
    Int.bmod_eq_of_le (by omega) (by omega)] at hbound
  exact_mod_cast hbound

/-- The one dimension of a metric for which an occurrence is valid. -/
theorem exists_dimension_of_validateEvent {eventCode : ℕ}
    (h : validateEvent m.toClient (.eventOccurredEvent eventCode) = .kOK) :
    ∃ md, m.metricDimensions = [md] ∧ eventCode ≤ md.maxEventCode := by
  have hclient : m.toClient.metricDimensions =
      m.metricDimensions.map ConfigValidator.MetricDimension.toClient := rfl
  rw [validateEvent, hclient] at h
  cases hdimensions : m.metricDimensions with
  | nil => simp [hdimensions] at h
  | cons md mds =>
    cases mds with
    | nil =>
      refine ⟨md, rfl, not_lt.mp fun hlt => ?_⟩
      rw [hdimensions] at h
      simp only [List.map_singleton, ConfigValidator.MetricDimension.toClient, if_pos hlt] at h
      cases h
    | cons _ _ => simp [hdimensions] at h

/-- What the encoder needs beside what is validated: a randomised report has a noise level that the
client recognizes, and the number of its categories does not wrap. -/
def CanEncode (m : RegistryMetric) (r : RegistryReport) : Prop :=
  r.reportType = .SIMPLE_OCCURRENCE_COUNT →
    isRecognized r.localPrivacyNoiseLevel ∧ ∀ md ∈ m.metricDimensions, md.maxEventCode ≠ U32.max

/-- A report of a validated metric. What the `switch` asks for is encoded for a valid event if
and only if the report is encodable. -/
theorem encodes_iff
    (hvalid : RegistryMetric.validateConfiguredMetricDefinitions validateMetadata project.metrics =
      none)
    (hm : m ∈ project.metrics) (hr : r ∈ m.reportDefinitions) {event : Event}
    (htype : m.metricType.toClient = event.type.metricType)
    (haccepted : validateEvent m.toClient event.type = .kOK) (hsecret : encoder.clientSecret ≠ [])
    (hhash : ∀ component, (encoder.hash component).isSome) :
    Encodes encoder project words m.toClient event r.toClient ↔ CanEncode m r := by
  have hmetric := validateMetricDefinition_of_mem hvalid hm
  obtain ⟨types, htypes, hallowed⟩ :=
    ((validReport_of_validateMetricDefinition hmetric).2 r hr).allowed
  obtain ⟨encoded, himmediate⟩ := (exists_immediateObservation_iff htype
    (ne_typeNotSet_of_allowedReportTypes htype htypes) m.toClient).mpr ⟨types, htypes, hallowed⟩
  by_cases hsimple : r.reportType = .SIMPLE_OCCURRENCE_COUNT
  · -- Only occurrences have reports of this type.
    obtain ⟨eventCode, hevent⟩ : ∃ eventCode, event.type = .eventOccurredEvent eventCode := by
      rw [hsimple] at himmediate
      cases hevent : event.type with
      | eventOccurredEvent eventCode => exact ⟨eventCode, rfl⟩
      | typeNotSet => exact absurd hevent (ne_typeNotSet_of_allowedReportTypes htype htypes)
      | _ =>
        rw [hevent] at himmediate
        cases himmediate
    have hoccurred : m.metricType = .EVENT_OCCURRED := by
      rw [hevent] at htype
      cases hmt : m.metricType <;> rw [hmt] at htype <;> cases htype
    rw [hevent] at haccepted
    obtain ⟨md, hdimensions, hle⟩ := exists_dimension_of_validateEvent haccepted
    have hsmall := add_maxEventCode_lt hmetric hoccurred hdimensions
    have hmax := md.maxEventCode_lt
    have hcategories : basicRapporNumCategories m.toClient = U32.add md.maxEventCode 1 := by
      rw [basicRapporNumCategories, RegistryMetric.toClient, hdimensions]
      rfl
    have hencode : immediateObservation m.toClient r.toClient.reportType event.type =
        .ok (some (.basicRapporObservation eventCode (U32.add md.maxEventCode 1))) := by
      rw [hevent, RegistryReport.toClient, hsimple, ← hcategories]
      rfl
    have hlevel : (RapporEncoder.reportOf project m.toClient r.toClient).localPrivacyNoiseLevel =
        r.localPrivacyNoiseLevel := by
      rw [RapporEncoder.reportOf, reportIn_toClient hvalid hm hr]
      rfl
    have hcode : eventCode < U32.add md.maxEventCode 1 ↔ md.maxEventCode ≠ U32.max := by
      rw [U32.add, U32.max]
      rw [U32.size] at hmax ⊢
      omega
    rw [Encodes, hencode, CanEncode, hdimensions, List.forall_mem_singleton, ← hcode, ← hlevel]
    simp only [Except.ok.injEq, exists_eq_left', Option.mem_def, Option.some.injEq, forall_eq']
    rw [status_encodeRequest_basicRappor (by omega) (by rw [U32.size] at hmax; omega)]
    constructor
    · rintro ⟨-, hrecognized, -, hlt⟩ -
      exact ⟨hrecognized, hlt⟩
    · intro h
      obtain ⟨hrecognized, hlt⟩ := h hsimple
      exact ⟨hsecret, hrecognized, hsmall, hlt⟩
  · refine iff_of_true ⟨encoded, himmediate, fun type hencoded => ?_⟩ fun h => absurd h hsimple
    rw [Option.mem_def.mp hencoded] at himmediate
    exact status_encodeRequest hhash (isRandomised_of_immediateObservation hsimple himmediate)

/-- **Logging for a validated metric.** Let the projects of a registry be validated, and one of them
be registered with a store that was made with the registry. After any calls on the store, logging a
valid event for a metric of the project succeeds if and only if the metric is not collected in the
release stage of the system, or each of its reports is encodable: a `SIMPLE_OCCURRENCE_COUNT` report
has a noise level that the client recognizes, and a metric with such a report no dimension whose
largest event code is the largest number of 32 bits. -/
theorem log_kOK_iff {W : Type} {projects : List RegistryProject}
    (hregistry : ValidatedRegistry validateMetadata projects) (hproject : project ∈ projects)
    {s : AggregateStore} (hs : Populated (projects.map RegistryProject.toClient) s)
    (hupdate : (updateAggregationConfigs project.toClient s).1 = .kOK) {stores : Stores W}
    (hrun : Relation.ReflTransGen (RegistryStep (projects.map RegistryProject.toClient))
      (updateAggregationConfigs project.toClient s).2 stores.aggregateStore)
    (hm : m ∈ project.metrics) {event : Event}
    (htype : m.metricType.toClient = event.type.metricType)
    (haccepted : validateEvent m.toClient event.type = .kOK) (hsecret : encoder.clientSecret ≠ [])
    (hhash : ∀ component, (encoder.hash component).isSome)
    {writeObservation : RapporEncoder.LoggedObservation → W → Status × W}
    (hwrite : ∀ observation w, (writeObservation observation w).1 = .kOK)
    (releaseStage : Option ℕ) (time : Timestamp) :
    ((encoder.eventLogger project words writeObservation releaseStage).log time m.toClient event
        stores).1 = .kOK ↔
      releaseStage.any (m.toClient.maxReleaseStage < ·) = true ∨
        ∀ r ∈ m.reportDefinitions, r.reportType = .SIMPLE_OCCURRENCE_COUNT →
          isRecognized r.localPrivacyNoiseLevel ∧
            ∀ md ∈ m.metricDimensions, md.maxEventCode ≠ U32.max := by
  have hvalid := hregistry.valid project hproject
  rw [EventLogger.log, RapporEncoder.eventLogger]
  by_cases hstage : releaseStage.any (m.toClient.maxReleaseStage < ·) = true
  · rw [if_pos hstage]
    exact iff_of_true rfl (Or.inl hstage)
  rw [if_neg hstage, or_iff_right hstage, ← RapporEncoder.eventLogger]
  have hserves := serves_of_run hproject hs hupdate hrun
  -- Every report is logged for in a store that knows the reports.
  have hbody : ∀ report ∈ m.toClient.reports, ∀ stores : Stores W,
      Serves projects project stores.aggregateStore →
      (((encoder.eventLogger project words writeObservation releaseStage).logReport m.toClient
          (finalizeEvent m.toClient time event) report stores).1 = .kOK ↔
        Encodes encoder project words m.toClient (finalizeEvent m.toClient time event) report) ∧
      Serves projects project ((encoder.eventLogger project words writeObservation
        releaseStage).logReport m.toClient (finalizeEvent m.toClient time event) report
          stores).2.aggregateStore := by
    intro report hreport stores hserves
    have hforwarded : (maybeUpdateLocalAggregation report m.toClient
        (finalizeEvent m.toClient time event) stores.aggregateStore).1 = .kOK :=
      maybeUpdateLocalAggregation_kOK hregistry.validRegistry hserves.1
        (List.mem_map_of_mem hproject) hserves.2 (List.mem_map_of_mem hm) hreport htype
    refine ⟨logReport_kOK_iff hwrite hforwarded, ?_⟩
    rw [EventLogger.logReport]
    dsimp only
    rw [if_neg (not_not.mpr hforwarded)]
    exact hserves.of_sameShapes (sameShapes_maybeUpdateLocalAggregation _ _ _ _)
  refine (Loop.runAll_ok_iff hbody hserves).trans ?_
  rw [RegistryMetric.toClient, List.forall_mem_map]
  exact forall₂_congr fun r hr => encodes_iff hvalid hm hr htype haccepted hsecret hhash

/-- A metric of occurrences with a report of each of the two types. -/
def occurredMetric : RegistryMetric where
  metricName := "the_metric_name"
  customerId := 1
  projectId := 2
  id := 3
  metricType := .EVENT_OCCURRED
  metaData := some
    { expirationDate := "2021/01/01", owner := ["google@example.com"], maxReleaseStage := 20 }
  metricDimensions := [{ dimension := "Dimension 0", maxEventCode := 4 }]
  reports := [⟨"the_counts", false⟩, ⟨"the_actives", false⟩]
  reportDefinitions :=
    [{ reportName := "the_counts"
       id := 4
       reportType := .SIMPLE_OCCURRENCE_COUNT
       localPrivacyNoiseLevel := .SMALL },
     { reportName := "the_actives"
       id := 5
       reportType := .UNIQUE_N_DAY_ACTIVES
       localPrivacyNoiseLevel := .NONE
       windowSize := [1, 7] }]

/-- A project with this metric. -/
def occurredProject : RegistryProject where
  customerId := 1
  projectId := 2
  metrics := [occurredMetric]
  ids := by
    intro m hm
    rw [List.mem_singleton.mp hm]
    exact ⟨rfl, rfl⟩

theorem validate_occurredProject :
    RegistryMetric.validateConfiguredMetricDefinitions metadataValidators.validateMetadata
      occurredProject.metrics = none := by
  rfl

/-- The metric is logged for. -/
theorem log_kOK_iff_occurred :
    let s := restoreAggregateStore none makeNewObservationHistoryStore 0 (by decide)
    let encoder : RapporEncoder :=
      { systemProfile := none, hash := fun _ => some (List.replicate 32 0), clientSecret := [1] }
    ((encoder.eventLogger occurredProject (fun _ => ([], [])) (fun _ w => (.kOK, w)) (some 20)).log
      ⟨18000, 18000, 432000, 432000⟩ occurredMetric.toClient { type := .eventOccurredEvent 2 }
      ⟨(updateAggregationConfigs occurredProject.toClient s).2, ()⟩).1 = .kOK := by
  intro s encoder
  have hregistry : ValidatedRegistry metadataValidators.validateMetadata [occurredProject] := by
    refine ⟨by decide, List.forall_mem_singleton.mpr validate_occurredProject,
      List.forall_mem_singleton.mpr (List.forall_mem_singleton.mpr ?_)⟩
    exact List.forall_mem_cons.mpr ⟨nofun, List.forall_mem_singleton.mpr nofun⟩
  refine (log_kOK_iff hregistry (List.mem_singleton_self _) (Populated.new _ _ _)
    (by decide) Relation.ReflTransGen.refl (List.mem_singleton_self _) rfl
    (by decide) (by decide) (fun _ => rfl) (fun _ _ => rfl) (some 20) _).mpr (Or.inr ?_)
  refine List.forall_mem_cons.mpr ⟨fun _ => ⟨rfl, ?_⟩, List.forall_mem_singleton.mpr nofun⟩
  exact List.forall_mem_singleton.mpr (by decide)

end Log

/-! ### Registering a validated project -/

section Register

variable {context : ProjectContext} {metric : Cobalt.MetricDefinition}
  {report : Cobalt.ReportDefinition} {s s' : AggregateStore}

/-- The windows that `GetSortedAggregationWindowsFromReport` does not refuse. -/
def WindowInRange : OnDeviceAggregationWindow → Prop
  | .unitsNotSet => True
  | .hours n => 0 < n ∧ n ≤ kMaxAllowedAggregationHours
  | .days n => 0 < n ∧ n ≤ kMaxAllowedAggregationDays

theorem isSome_collectAggregationWindows_iff {windows : List OnDeviceAggregationWindow}
    {days hours : List ℕ} :
    (collectAggregationWindows windows days hours).isSome ↔ ∀ w ∈ windows, WindowInRange w := by
  induction windows generalizing days hours with
  | nil => simp [collectAggregationWindows]
  | cons window windows ih =>
    rw [List.forall_mem_cons]
    cases window with
    | unitsNotSet =>
      rw [collectAggregationWindows, ih]
      exact (and_iff_right trivial).symm
    | hours n | days n =>
      rw [collectAggregationWindows, WindowInRange]
      split_ifs with hn
      · exact iff_of_false (by simp) fun h => by omega
      · rw [ih]
        exact (and_iff_right (by omega)).symm

/-- The reports that have windows for the aggregator. -/
theorem isSome_getSortedAggregationWindowsFromReport_iff :
    (getSortedAggregationWindowsFromReport report).isSome ↔
      (report.windowSize ≠ [] ∨ report.aggregationWindow ≠ []) ∧
        (∀ n ∈ report.windowSize, 0 < n ∧ n ≤ kMaxAllowedAggregationDays) ∧
        ∀ w ∈ report.aggregationWindow, WindowInRange w := by
  rw [getSortedAggregationWindowsFromReport]
  split_ifs with hempty hsizes
  · rw [List.isEmpty_iff, List.isEmpty_iff] at hempty
    exact iff_of_false (by simp) fun h => h.1.elim (absurd hempty.1) (absurd hempty.2)
  · refine iff_of_false (by simp) fun h => ?_
    obtain ⟨n, hn, hbad⟩ := List.any_eq_true.mp hsizes
    have hgood := h.2.1 n hn
    have hbad : n = 0 ∨ kMaxAllowedAggregationDays < n := of_decide_eq_true hbad
    omega
  · rw [Option.isSome_map, isSome_collectAggregationWindows_iff]
    rw [List.isEmpty_iff, List.isEmpty_iff, not_and_or] at hempty
    refine (and_iff_right hempty |>.trans (and_iff_right fun n hn => ?_)).symm
    have hgood : ¬ (n = 0 ∨ kMaxAllowedAggregationDays < n) := fun hbad =>
      hsizes (List.any_eq_true.mpr ⟨n, hn, decide_eq_true hbad⟩)
    omega

theorem isSome_of_populateReportAggregates {aggregates : ReportAggregates}
    (h : populateReportAggregates context metric report = some aggregates) :
    (getSortedAggregationWindowsFromReport report).isSome := by
  obtain ⟨windows, hwindows, -⟩ := Option.bind_eq_some_iff.mp h
  rw [hwindows]
  rfl

/-- Only reports of the project that have windows are added to the store without data. -/
def OnlyAdds (context : ProjectContext) (s s' : AggregateStore) : Prop :=
  ∀ key, (s'.emptyLocalAggregateStore.shapeOf key).isSome →
    (s.emptyLocalAggregateStore.shapeOf key).isSome ∨
      ∃ metric ∈ context.metrics, ∃ report ∈ metric.reports,
        key = registeredKey context metric report ∧
          (getSortedAggregationWindowsFromReport report).isSome

theorem OnlyAdds.refl (context : ProjectContext) (s : AggregateStore) : OnlyAdds context s s :=
  fun _ => Or.inl

theorem OnlyAdds.trans (s₁ s₂ s₃ : AggregateStore) (h : OnlyAdds context s₁ s₂)
    (h' : OnlyAdds context s₂ s₃) : OnlyAdds context s₁ s₃ :=
  fun key hkey => (h' key hkey).elim (h key) Or.inr

theorem onlyAdds_maybeInsertReportConfig (hmetric : metric ∈ context.metrics)
    (hreport : report ∈ metric.reports) (s : AggregateStore) :
    OnlyAdds context s (maybeInsertReportConfig context metric report s).2 := by
  rw [maybeInsertReportConfig]
  dsimp only
  split
  · exact .refl context s
  · split
    · exact fun _ => Or.inl
    · next empty hempty =>
      intro key hkey
      obtain hsame | ⟨rfl, hnone, -⟩ := (shapeOf_insertReportConfig hempty).2 key
      · exact Or.inl (hsame ▸ hkey)
      · refine Or.inr ⟨metric, hmetric, report, hreport, rfl, ?_⟩
        rw [insertReportConfig] at hempty
        have hpresent : ¬ (s.emptyLocalAggregateStore.byReportKey.lookup
            (registeredKey context metric report)).isSome := by
          rw [LocalAggregateStore.shapeOf, Option.map_eq_none_iff] at hnone
          rw [hnone]
          exact Bool.false_ne_true
        rw [registeredKey] at hpresent
        rw [if_neg hpresent] at hempty
        obtain ⟨aggregates, haggregates, -⟩ := Option.map_eq_some_iff.mp hempty
        exact isSome_of_populateReportAggregates haggregates

theorem onlyAdds_insertReportConfigs (hmetric : metric ∈ context.metrics)
    (isAggregated : Cobalt.ReportType → Bool) (s : AggregateStore) :
    OnlyAdds context s (insertReportConfigs context metric isAggregated s).2 := by
  refine Loop.runAll_rel (OnlyAdds.refl context) OnlyAdds.trans (fun report hreport s => ?_) s
  split_ifs
  · exact onlyAdds_maybeInsertReportConfig hmetric hreport s
  · exact .refl context s

/-- `UpdateAggregationConfigs` adds only reports of the project that have windows. -/
theorem onlyAdds_updateAggregationConfigs (context : ProjectContext) (s : AggregateStore) :
    OnlyAdds context s (updateAggregationConfigs context s).2 := by
  refine Loop.runAll_rel (OnlyAdds.refl context) OnlyAdds.trans (fun metric hmetric s => ?_) s
  have hinsert := @onlyAdds_insertReportConfigs _ metric hmetric
  split
  · dsimp only
    split_ifs
    · exact OnlyAdds.trans _ _ _ (hinsert isUniqueActives s) (hinsert isPerDeviceNumeric _)
    · exact hinsert isUniqueActives s
  all_goals first | exact hinsert isPerDeviceNumeric s | exact .refl context s

/-- A report with windows is inserted into every store. -/
theorem maybeInsertReportConfig_kOK
    (htype : isUniqueActives report.reportType ∨ isPerDeviceNumeric report.reportType)
    (h : (getSortedAggregationWindowsFromReport report).isSome) (s : AggregateStore) :
    (maybeInsertReportConfig context metric report s).1 = .kOK := by
  obtain ⟨windows, hwindows⟩ := Option.isSome_iff_exists.mp h
  obtain ⟨aggregates, haggregates⟩ : ∃ aggregates,
      populateReportAggregates context metric report = some aggregates := by
    rw [populateReportAggregates, hwindows]
    cases hr : report.reportType <;> rw [hr] at htype <;>
      first | exact ⟨_, rfl⟩ | (simp [isUniqueActives, isPerDeviceNumeric] at htype)
  have hinsert (store : LocalAggregateStore) (key : ReportAggregationKey) :
      ∃ store', insertReportConfig store key (some aggregates) = some store' := by
    rw [insertReportConfig]
    split_ifs
    · exact ⟨_, rfl⟩
    · exact ⟨_, rfl⟩
  rw [maybeInsertReportConfig, haggregates]
  dsimp only
  obtain ⟨store, hstore⟩ := hinsert s.localAggregateStore
    ⟨context.project.customerId, context.project.projectId, metric.id, report.id⟩
  obtain ⟨empty, hempty⟩ := hinsert s.emptyLocalAggregateStore
    ⟨context.project.customerId, context.project.projectId, metric.id, report.id⟩
  rw [hstore]
  dsimp only
  rw [hempty]

theorem insertReportConfigs_kOK {isAggregated : Cobalt.ReportType → Bool}
    (htype : ∀ report ∈ metric.reports, isAggregated report.reportType →
      (isUniqueActives report.reportType ∨ isPerDeviceNumeric report.reportType) ∧
        (getSortedAggregationWindowsFromReport report).isSome) (s : AggregateStore) :
    (insertReportConfigs context metric isAggregated s).1 = .kOK := by
  refine Loop.runAll_ok (fun report hreport s => ?_) s
  split_ifs with haggregated
  · obtain ⟨hkind, hwindows⟩ := htype report hreport haggregated
    exact maybeInsertReportConfig_kOK hkind hwindows s
  · rfl

variable {validateMetadata : Metadata → Option String} {project : RegistryProject}
  {m m' : RegistryMetric} {r r' : RegistryReport}

/-- The report types that the aggregator keeps aggregates for. -/
def IsAggregated (rt : ConfigValidator.ReportType) : Prop :=
  rt = .UNIQUE_N_DAY_ACTIVES ∨ rt = .PER_DEVICE_NUMERIC_STATS ∨ rt = .PER_DEVICE_HISTOGRAM

theorem isAggregated_iff {rt : ConfigValidator.ReportType} :
    isUniqueActives rt.toClient ∨ isPerDeviceNumeric rt.toClient ↔ IsAggregated rt := by
  cases rt <;>
    simp [isUniqueActives, isPerDeviceNumeric, IsAggregated, ConfigValidator.ReportType.toClient]

/-- The events of a validated metric are forwarded for its reports with aggregates. -/
theorem forwards_iff (h : ValidReport m r) :
    Forwards m.toClient r.toClient ↔ IsAggregated r.reportType := by
  obtain ⟨types, htypes, hallowed⟩ := h.allowed
  rw [Forwards, RegistryMetric.toClient, RegistryReport.toClient, IsAggregated]
  cases hm : m.metricType <;> rw [hm] at htypes <;> cases htypes <;>
    cases hr : r.reportType <;>
    simp [hr, isUniqueActives, isPerDeviceNumeric, ConfigValidator.MetricType.toClient,
      ConfigValidator.ReportType.toClient] at hallowed ⊢

/-- In a validated project a key belongs to one report. -/
theorem eq_of_registeredKey
    (h : RegistryMetric.validateConfiguredMetricDefinitions validateMetadata project.metrics = none)
    (hm : m ∈ project.metrics) (hm' : m' ∈ project.metrics) (hr : r ∈ m.reportDefinitions)
    (hr' : r' ∈ m'.reportDefinitions)
    (hkey : registeredKey project.toClient m.toClient r.toClient =
      registeredKey project.toClient m'.toClient r'.toClient) : r = r' := by
  obtain ⟨-, -, hmetricId, hreportId⟩ := ReportAggregationKey.mk.inj hkey
  obtain rfl := List.inj_on_of_nodup_map (definitionsLoop_eq_none_iff.mp h).1.1 hm hm' hmetricId
  exact List.inj_on_of_nodup_map (validReport_of_validateMetricDefinition
    (validateMetricDefinition_of_mem h hm)).1 hr hr' hreportId

/-- **Registering a validated project.** With a store in which no report of the project was
registered since it was constructed, whatever data were restored, the registration of a validated
project succeeds if and only if the windows of all its reports with aggregates are in the ranges of
the client. -/
theorem updateAggregationConfigs_kOK_iff
    (h : RegistryMetric.validateConfiguredMetricDefinitions validateMetadata project.metrics = none)
    (hnew : ∀ m ∈ project.metrics, ∀ r ∈ m.reportDefinitions,
      s.emptyLocalAggregateStore.shapeOf (registeredKey project.toClient m.toClient r.toClient) =
        none) :
    (updateAggregationConfigs project.toClient s).1 = .kOK ↔
      ∀ m ∈ project.metrics, ∀ r ∈ m.reportDefinitions, IsAggregated r.reportType →
        (∀ n ∈ r.windowSize, n ≤ kMaxAllowedAggregationDays) ∧
          ∀ w ∈ r.aggregationWindow, WindowInRange w := by
  have hreports (m) (hm : m ∈ project.metrics) := (validReport_of_validateMetricDefinition
    (validateMetricDefinition_of_mem h hm)).2
  constructor
  · intro hok m hm r hr haggregated
    have hregistered := (registered_updateAggregationConfigs (List.mem_singleton_self _) s).2 hok
    have hkey := hregistered m.toClient (List.mem_map_of_mem hm) r.toClient (List.mem_map_of_mem hr)
      ((forwards_iff (hreports m hm r hr)).mpr haggregated)
    obtain hold | ⟨metric, hmetric, report, hreport, heq, hwindows⟩ :=
      onlyAdds_updateAggregationConfigs project.toClient s _ hkey.2
    · rw [hnew m hm r hr] at hold
      cases hold
    · obtain ⟨m', hm', rfl⟩ := List.mem_map.mp hmetric
      obtain ⟨r', hr', rfl⟩ := List.mem_map.mp hreport
      obtain rfl := eq_of_registeredKey h hm hm' hr hr' heq
      obtain ⟨-, hsizes, hwindows⟩ := isSome_getSortedAggregationWindowsFromReport_iff.mp hwindows
      exact ⟨fun n hn => (hsizes n hn).2, hwindows⟩
  · intro hall
    have hinsert (metric) (hmetric : metric ∈ project.toClient.metrics)
        (isAggregated : Cobalt.ReportType → Bool)
        (hkind : ∀ rt, isAggregated rt → isUniqueActives rt ∨ isPerDeviceNumeric rt) (s) :
        (insertReportConfigs project.toClient metric isAggregated s).1 = .kOK := by
      obtain ⟨m, hm, rfl⟩ := List.mem_map.mp hmetric
      refine insertReportConfigs_kOK (fun report hreport haggregated => ?_) s
      obtain ⟨r, hr, rfl⟩ := List.mem_map.mp hreport
      have hkind := hkind _ haggregated
      have hr' := isAggregated_iff.mp hkind
      obtain ⟨hne, hzero⟩ := (hreports m hm r hr).windows hr'
      obtain ⟨hsizes, hwindows⟩ := hall m hm r hr hr'
      refine ⟨hkind, isSome_getSortedAggregationWindowsFromReport_iff.mpr
        ⟨Or.inl hne, fun n hn => ⟨?_, hsizes n hn⟩, hwindows⟩⟩
      exact Nat.pos_of_ne_zero fun heq => hzero (heq ▸ hn)
    refine Loop.runAll_ok (fun metric hmetric s => ?_) s
    have hunique := hinsert metric hmetric isUniqueActives (fun _ => Or.inl)
    have hnumeric := hinsert metric hmetric isPerDeviceNumeric (fun _ => Or.inr)
    split
    · dsimp only
      rw [if_pos (hunique s)]
      exact hnumeric _
    all_goals first | exact hnumeric s | rfl

/-- The project is registered. -/
theorem updateAggregationConfigs_kOK_iff_occurred :
    (updateAggregationConfigs occurredProject.toClient
      (restoreAggregateStore none makeNewObservationHistoryStore 0 (by decide))).1 = .kOK := by
  refine (updateAggregationConfigs_kOK_iff validate_occurredProject fun _ _ _ _ => rfl).mpr ?_
  refine List.forall_mem_singleton.mpr (List.forall_mem_cons.mpr ⟨?_, ?_⟩)
  · exact fun _ => ⟨nofun, nofun⟩
  · exact List.forall_mem_singleton.mpr fun _ => ⟨by decide, nofun⟩

end Register

end Cobalt.Logger
