import Cobalt.ConfigValidator.MetricDefinitions
import Cobalt.Lib.Checks
import Cobalt.LocalAggregation.RegisteredReports
import Cobalt.Logger.Encoder
import Cobalt.Registry.BucketsConfig

/-!
# The validation of report definitions

The last check of a metric definition is that of its reports: each report has an id and a name of its
own, its type is one that goes with the type of the metric, and the fields that its type needs are
set. A definition that passes is what the client then reads.

The reports are not a part of `MetricDefinition` beyond what the checks of the metric read; here a
`RegistryMetric` carries them in full.

## Main definitions

* `RegistryReport`, `RegistryMetric`, `RegistryProject`: the definitions with all that is checked or
  read by the client.
* `validateReportDefinitions`: the check of the reports.
* `RegistryMetric.validateMetricDefinition`, `RegistryMetric.validateConfiguredMetricDefinitions`: the
  whole validation.
* `RegistryMetric.toClient`, `RegistryProject.toClient`: what the client makes of the definitions.

## Main results

* `validReport_of_validateMetricDefinition`: what holds of the reports of a metric that passes.
* `validProject_toClient`: the keys of the client are those of one report each.
-/

namespace Cobalt.ConfigValidator

/-! ### Report definitions -/

/-- `ReportDefinition.ReportType`, with the types of Cobalt 1.1. -/
inductive ReportType
  | REPORT_TYPE_UNSET
  | SIMPLE_OCCURRENCE_COUNT
  | EVENT_COMPONENT_OCCURRENCE_COUNT
  | NUMERIC_AGGREGATION
  | INT_RANGE_HISTOGRAM
  | NUMERIC_PERF_RAW_DUMP
  | UNIQUE_N_DAY_ACTIVES
  | PER_DEVICE_NUMERIC_STATS
  | PER_DEVICE_HISTOGRAM
  | FLEETWIDE_OCCURRENCE_COUNTS
  | UNIQUE_DEVICE_COUNTS
  | UNIQUE_DEVICE_HISTOGRAMS
  | HOURLY_VALUE_HISTOGRAMS
  | FLEETWIDE_HISTOGRAMS
  | FLEETWIDE_MEANS
  | UNIQUE_DEVICE_NUMERIC_STATS
  | HOURLY_VALUE_NUMERIC_STATS
  | STRING_HISTOGRAMS
  | CUSTOM_RAW_DUMP
  | unrecognized (n : ℕ)
  deriving DecidableEq, Repr

/-- The name of a report type in an error; a number without a name is printed as it is. -/
def ReportType.name : ReportType → String
  | .REPORT_TYPE_UNSET => "REPORT_TYPE_UNSET"
  | .SIMPLE_OCCURRENCE_COUNT => "SIMPLE_OCCURRENCE_COUNT"
  | .EVENT_COMPONENT_OCCURRENCE_COUNT => "EVENT_COMPONENT_OCCURRENCE_COUNT"
  | .NUMERIC_AGGREGATION => "NUMERIC_AGGREGATION"
  | .INT_RANGE_HISTOGRAM => "INT_RANGE_HISTOGRAM"
  | .NUMERIC_PERF_RAW_DUMP => "NUMERIC_PERF_RAW_DUMP"
  | .UNIQUE_N_DAY_ACTIVES => "UNIQUE_N_DAY_ACTIVES"
  | .PER_DEVICE_NUMERIC_STATS => "PER_DEVICE_NUMERIC_STATS"
  | .PER_DEVICE_HISTOGRAM => "PER_DEVICE_HISTOGRAM"
  | .FLEETWIDE_OCCURRENCE_COUNTS => "FLEETWIDE_OCCURRENCE_COUNTS"
  | .UNIQUE_DEVICE_COUNTS => "UNIQUE_DEVICE_COUNTS"
  | .UNIQUE_DEVICE_HISTOGRAMS => "UNIQUE_DEVICE_HISTOGRAMS"
  | .HOURLY_VALUE_HISTOGRAMS => "HOURLY_VALUE_HISTOGRAMS"
  | .FLEETWIDE_HISTOGRAMS => "FLEETWIDE_HISTOGRAMS"
  | .FLEETWIDE_MEANS => "FLEETWIDE_MEANS"
  | .UNIQUE_DEVICE_NUMERIC_STATS => "UNIQUE_DEVICE_NUMERIC_STATS"
  | .HOURLY_VALUE_NUMERIC_STATS => "HOURLY_VALUE_NUMERIC_STATS"
  | .STRING_HISTOGRAMS => "STRING_HISTOGRAMS"
  | .CUSTOM_RAW_DUMP => "CUSTOM_RAW_DUMP"
  | .unrecognized n => toString n

/-- The name of a metric type in an error. -/
def MetricType.name : MetricType → String
  | .UNSET => "UNSET"
  | .EVENT_OCCURRED => "EVENT_OCCURRED"
  | .EVENT_COUNT => "EVENT_COUNT"
  | .ELAPSED_TIME => "ELAPSED_TIME"
  | .FRAME_RATE => "FRAME_RATE"
  | .MEMORY_USAGE => "MEMORY_USAGE"
  | .INT_HISTOGRAM => "INT_HISTOGRAM"
  | .OCCURRENCE => "OCCURRENCE"
  | .INTEGER => "INTEGER"
  | .INTEGER_HISTOGRAM => "INTEGER_HISTOGRAM"
  | .STRING => "STRING"
  | .CUSTOM => "CUSTOM"
  | .unrecognized n => toString n

/-- `ReportDefinition.LocalPrivacyNoiseLevel`. -/
inductive LocalPrivacyNoiseLevel
  | NOISE_LEVEL_UNSET
  | NONE
  | SMALL
  | MEDIUM
  | LARGE
  | unrecognized (n : ℕ)
  deriving DecidableEq, Repr

/-- `ReportDefinition`, with the fields that are validated or read by the client. A window size is its
number of days, and `UNSET` is 0. -/
structure RegistryReport where
  reportName : String
  id : ℕ
  reportType : ReportType
  localPrivacyNoiseLevel : LocalPrivacyNoiseLevel := .NOISE_LEVEL_UNSET
  intBuckets : Option Config.IntegerBuckets := none
  windowSize : List ℕ := []
  aggregationWindow : List OnDeviceAggregationWindow := []
  aggregationType : OnDeviceAggregationType := .SUM
  percentiles : List ℕ := []
  systemProfileField : List Logger.SystemProfileField := []

/-- What the checks of the metric read of a report. -/
def RegistryReport.toReportDefinition (r : RegistryReport) : ReportDefinition :=
  ⟨r.reportName, r.intBuckets.isSome⟩

/-- `MetricDefinition` with its buckets and its reports in full. -/
structure RegistryMetric extends MetricDefinition where
  timeZonePolicy : TimeZonePolicy := .UTC
  intBuckets : Option Config.IntegerBuckets := none
  reportDefinitions : List RegistryReport := []
  hasIntBuckets_eq : hasIntBuckets = intBuckets.isSome := by rfl
  reports_eq : reports = reportDefinitions.map RegistryReport.toReportDefinition := by rfl

/-! ### The fields of a report -/

/-- `validateWindowSize`. -/
def validateWindowSize (r : RegistryReport) : Option String :=
  if r.windowSize.length = 0 then
    some ("No window_size specified for report of type " ++ r.reportType.name ++ ".")
  else r.windowSize.findSome? fun ws =>
    if ws = 0 then some ("Unset window size found for report of type " ++ r.reportType.name ++ ".")
    else none

/-- `validateLocalPrivacyNoiseLevel`. -/
def validateLocalPrivacyNoiseLevel (r : RegistryReport) : Option String :=
  if r.localPrivacyNoiseLevel = .NOISE_LEVEL_UNSET then
    some ("No local_privacy_noise_level specified for report of type " ++ r.reportType.name ++ ".")
  else none

/-- `validatePercentiles`. The type of a percentile is unsigned. -/
def validatePercentiles (r : RegistryReport) : Option String :=
  r.percentiles.findSome? fun percentage =>
    if 100 < percentage then
      some ("Percentiles must be in the range 0-100.  Received value " ++ toString percentage ++
        " for report of type " ++ r.reportType.name ++ ".")
    else none

/-! ### The types of reports -/

/-- `validateSimpleOccurrenceCountReportDef`. -/
def validateSimpleOccurrenceCountReportDef (r : RegistryReport) : Option String :=
  validateLocalPrivacyNoiseLevel r

/-- `validateUniqueActivesReportDef`. -/
def validateUniqueActivesReportDef (r : RegistryReport) : Option String :=
  (validateWindowSize r).or (validateLocalPrivacyNoiseLevel r)

/-- `validatePerDeviceNumericStatsReportDef`. -/
def validatePerDeviceNumericStatsReportDef (r : RegistryReport) : Option String :=
  validateWindowSize r

/-- `validatePerDeviceHistogramReportDef`. -/
def validatePerDeviceHistogramReportDef (r : RegistryReport) : Option String :=
  if r.intBuckets = none then
    some ("No int_buckets specified for report of type " ++ r.reportType.name ++ ".")
  else validateWindowSize r

/-- `validateNumericAggregationReportDef`. -/
def validateNumericAggregationReportDef (r : RegistryReport) : Option String :=
  validatePercentiles r

/-- `validateStringHistogramsReportDef`. -/
def validateStringHistogramsReportDef (r : RegistryReport) : Option String :=
  if r.intBuckets ≠ none then
    some ("int_buckets can not be specified for report of type " ++ r.reportType.name ++ ".")
  else none

/-- `validateReportDefinitionForType`. -/
def validateReportDefinitionForType (r : RegistryReport) : Option String :=
  match r.reportType with
  | .SIMPLE_OCCURRENCE_COUNT => validateSimpleOccurrenceCountReportDef r
  | .UNIQUE_N_DAY_ACTIVES => validateUniqueActivesReportDef r
  | .PER_DEVICE_NUMERIC_STATS => validatePerDeviceNumericStatsReportDef r
  | .PER_DEVICE_HISTOGRAM => validatePerDeviceHistogramReportDef r
  | .NUMERIC_AGGREGATION => validateNumericAggregationReportDef r
  | .STRING_HISTOGRAMS => validateStringHistogramsReportDef r
  | _ => none

/-- `allowedReportTypes`, `none` for a metric type that is not in the map. -/
def allowedReportTypes : MetricType → Option (List ReportType)
  | .EVENT_OCCURRED => some [.SIMPLE_OCCURRENCE_COUNT, .UNIQUE_N_DAY_ACTIVES]
  | .EVENT_COUNT =>
    some [.EVENT_COMPONENT_OCCURRENCE_COUNT, .INT_RANGE_HISTOGRAM, .NUMERIC_AGGREGATION,
      .PER_DEVICE_NUMERIC_STATS, .PER_DEVICE_HISTOGRAM]
  | .ELAPSED_TIME | .FRAME_RATE | .MEMORY_USAGE =>
    some [.INT_RANGE_HISTOGRAM, .NUMERIC_AGGREGATION, .NUMERIC_PERF_RAW_DUMP,
      .PER_DEVICE_NUMERIC_STATS, .PER_DEVICE_HISTOGRAM]
  | .INT_HISTOGRAM => some [.INT_RANGE_HISTOGRAM]
  | .OCCURRENCE =>
    some [.FLEETWIDE_OCCURRENCE_COUNTS, .UNIQUE_DEVICE_COUNTS, .UNIQUE_DEVICE_HISTOGRAMS,
      .HOURLY_VALUE_HISTOGRAMS, .UNIQUE_DEVICE_NUMERIC_STATS, .HOURLY_VALUE_NUMERIC_STATS]
  | .INTEGER =>
    some [.UNIQUE_DEVICE_HISTOGRAMS, .HOURLY_VALUE_HISTOGRAMS, .FLEETWIDE_HISTOGRAMS,
      .FLEETWIDE_MEANS, .UNIQUE_DEVICE_NUMERIC_STATS, .HOURLY_VALUE_NUMERIC_STATS]
  | .INTEGER_HISTOGRAM => some [.FLEETWIDE_HISTOGRAMS]
  | .STRING => some [.STRING_HISTOGRAMS]
  | .CUSTOM => some [.CUSTOM_RAW_DUMP]
  | .UNSET | .unrecognized _ => none

/-- `validateReportType`. -/
def validateReportType (mt : MetricType) (rt : ReportType) : Option String :=
  if rt = .REPORT_TYPE_UNSET then some "report_type is not set."
  else match allowedReportTypes mt with
  | none => some ("Unknown metric type " ++ mt.name ++ ".")
  | some rts =>
    if rt ∉ rts then
      some ("Reports of type " ++ rt.name ++ " cannot be used with metrics of type " ++ mt.name)
    else none

/-! ### Buckets -/

/-- The report types that need buckets of their own. -/
def ReportType.needsIntBuckets : ReportType → Bool
  | .PER_DEVICE_HISTOGRAM | .INT_RANGE_HISTOGRAM | .UNIQUE_DEVICE_HISTOGRAMS
  | .HOURLY_VALUE_HISTOGRAMS | .FLEETWIDE_HISTOGRAMS => true
  | _ => false

/-- `checkHasIntBuckets`. -/
def checkHasIntBuckets (m : RegistryMetric) (r : RegistryReport) : Option String :=
  if m.metricType = .INT_HISTOGRAM ∨ m.metricType = .INTEGER_HISTOGRAM then
    if m.intBuckets = none then
      some (m.metricType.name ++ " metric types must define an int_buckets field.")
    else if r.intBuckets ≠ none then
      some ("Reports for a " ++ m.metricType.name ++ " metric must not redefine int_buckets.")
    else none
  else if m.intBuckets ≠ none then
    some ("int_buckets should not be specified for metrics of type " ++ m.metricType.name ++ ".")
  else if r.reportType.needsIntBuckets ∧ r.intBuckets = none then
    some ("No int_buckets specified for report of type " ++ r.reportType.name ++ ".")
  else none

/-- The error of a check. -/
def errorOf : Except String Unit → Option String
  | .error error => some error
  | .ok () => none

/-- `validateIntBucketsForReport`. The buckets of the report take priority. -/
def validateIntBucketsForReport (m : RegistryMetric) (r : RegistryReport) : Option String :=
  (checkHasIntBuckets m r).or <|
  match r.intBuckets, m.intBuckets with
  | some buckets, _ => errorOf (Config.validateIntBuckets buckets)
  | none, some buckets => errorOf (Config.validateIntBuckets buckets)
  | none, none => none

/-! ### The reports of a metric -/

/-- `validateReportDefinition`. -/
def validateReportDefinition (r : RegistryReport) : Option String :=
  if ¬ isValidName r.reportName then
    some (invalidNameError "Invalid report name. Report names" validNameRegexp ++ ".")
  else if r.id = 0 then
    some "Report ID of zero is not allowed. Please specify a positive report ID."
  else (validateReportDefinitionForType r).map ("Report " ++ r.reportName ++ ": " ++ ·)

/-- `validateReportDefinitionForMetric`. -/
def validateReportDefinitionForMetric (m : RegistryMetric) (r : RegistryReport) : Option String :=
  (validateReportType m.metricType r.reportType).or <|
  (validateIntBucketsForReport m r).or <|
  validateReportDefinition r

/-- The loop over definitions of a kind that each have an id and a name. -/
def definitionsLoop {α : Type} (kind : String) (id : α → ℕ) (name : α → String)
    (validate : α → Option String) : List ℕ → List String → List α → Option String
  | _, _, [] => none
  | ids, names, a :: as =>
    if id a ∈ ids then
      some ("There are two " ++ kind ++ "s with id=" ++ toString (id a) ++ ".")
    else if name a ∈ names then
      some ("There are two " ++ kind ++ "s with name=" ++ name a ++ ".")
    else
      ((validate a).map ("Error validating " ++ kind ++ " '" ++ name a ++ "': " ++ ·)).or
      (definitionsLoop kind id name validate (id a :: ids) (name a :: names) as)

/-- `validateReportDefinitions`. -/
def validateReportDefinitions (m : RegistryMetric) : Option String :=
  definitionsLoop "report" RegistryReport.id RegistryReport.reportName
    (validateReportDefinitionForMetric m) [] [] m.reportDefinitions

namespace RegistryMetric

/-- `validateMetricDefinition`, with the check of the reports. -/
def validateMetricDefinition (validateMetadata : Metadata → Option String) (m : RegistryMetric) :
    Option String :=
  ConfigValidator.validateMetricDefinition ⟨validateMetadata, fun _ => validateReportDefinitions m⟩
    m.toMetricDefinition

/-- `validateConfiguredMetricDefinitions`, with the check of the reports. -/
def validateConfiguredMetricDefinitions (validateMetadata : Metadata → Option String)
    (metrics : List RegistryMetric) : Option String :=
  definitionsLoop "metric" (fun m => m.id) (fun m => m.metricName)
    (validateMetricDefinition validateMetadata) [] [] metrics

end RegistryMetric

/-- A project of the registry. The config parser gives the ids of the project to its metrics, before
they are validated. -/
structure RegistryProject where
  customerId : ℕ
  projectId : ℕ
  metrics : List RegistryMetric
  ids : ∀ m ∈ metrics, m.customerId = customerId ∧ m.projectId = projectId

/-! ### What the client makes of them -/

/-- The type of a metric as the client reads it. -/
def MetricType.toClient : MetricType → Cobalt.MetricType
  | .UNSET => .other 0
  | .EVENT_OCCURRED => .EVENT_OCCURRED
  | .EVENT_COUNT => .EVENT_COUNT
  | .ELAPSED_TIME => .ELAPSED_TIME
  | .FRAME_RATE => .FRAME_RATE
  | .MEMORY_USAGE => .MEMORY_USAGE
  | .INT_HISTOGRAM => .INT_HISTOGRAM
  | .OCCURRENCE => .other 8
  | .INTEGER => .other 9
  | .INTEGER_HISTOGRAM => .other 10
  | .STRING => .other 11
  | .CUSTOM => .CUSTOM
  | .unrecognized n => .other n

/-- The type of a report as the client reads it. -/
def ReportType.toClient : ReportType → Cobalt.ReportType
  | .REPORT_TYPE_UNSET => .other 0
  | .SIMPLE_OCCURRENCE_COUNT => .SIMPLE_OCCURRENCE_COUNT
  | .EVENT_COMPONENT_OCCURRENCE_COUNT => .EVENT_COMPONENT_OCCURRENCE_COUNT
  | .NUMERIC_AGGREGATION => .NUMERIC_AGGREGATION
  | .INT_RANGE_HISTOGRAM => .INT_RANGE_HISTOGRAM
  | .NUMERIC_PERF_RAW_DUMP => .NUMERIC_PERF_RAW_DUMP
  | .UNIQUE_N_DAY_ACTIVES => .UNIQUE_N_DAY_ACTIVES
  | .PER_DEVICE_NUMERIC_STATS => .PER_DEVICE_NUMERIC_STATS
  | .PER_DEVICE_HISTOGRAM => .PER_DEVICE_HISTOGRAM
  | .FLEETWIDE_OCCURRENCE_COUNTS => .other 11
  | .UNIQUE_DEVICE_COUNTS => .other 12
  | .UNIQUE_DEVICE_HISTOGRAMS => .other 13
  | .HOURLY_VALUE_HISTOGRAMS => .other 14
  | .FLEETWIDE_HISTOGRAMS => .other 15
  | .FLEETWIDE_MEANS => .other 16
  | .UNIQUE_DEVICE_NUMERIC_STATS => .other 17
  | .HOURLY_VALUE_NUMERIC_STATS => .other 18
  | .STRING_HISTOGRAMS => .other 19
  | .CUSTOM_RAW_DUMP => .CUSTOM_RAW_DUMP
  | .unrecognized n => .other n

/-- The buckets as the client reads them. -/
def bucketsToClient : Config.IntegerBuckets → IntegerBuckets
  | .bucketsNotSet => .bucketsNotSet
  | .exponential e => .exponential e.numBuckets.toNat
  | .linear l => .linear l.numBuckets.toNat

/-- The report as the client reads it. -/
def RegistryReport.toClient (r : RegistryReport) : Cobalt.ReportDefinition where
  id := r.id
  reportType := r.reportType.toClient
  aggregationType := r.aggregationType
  windowSize := r.windowSize
  aggregationWindow := r.aggregationWindow

/-- The metric as the client reads it. -/
def RegistryMetric.toClient (m : RegistryMetric) : Cobalt.MetricDefinition where
  customerId := m.customerId
  projectId := m.projectId
  id := m.id
  metricType := m.metricType.toClient
  timeZonePolicy := m.timeZonePolicy
  intBuckets := m.intBuckets.map bucketsToClient
  maxReleaseStage := (m.metaData.map Metadata.maxReleaseStage).getD 0
  metricDimensions := m.metricDimensions.map MetricDimension.toClient
  reports := m.reportDefinitions.map RegistryReport.toClient

/-- The project as the client reads it. -/
def RegistryProject.toClient (project : RegistryProject) : LocalAggregation.ProjectContext where
  project := ⟨project.customerId, project.projectId⟩
  metrics := project.metrics.map RegistryMetric.toClient

/-! ### What was checked -/

/-- The loop passes definitions with ids and names of their own that pass one by one. -/
theorem definitionsLoop_eq_none_iff {α : Type} {kind : String} {id : α → ℕ} {name : α → String}
    {validate : α → Option String} {ids : List ℕ} {names : List String} {as : List α} :
    definitionsLoop kind id name validate ids names as = none ↔
      Checks.Fresh ids (as.map id) ∧ Checks.Fresh names (as.map name) ∧
        ∀ a ∈ as, validate a = none := by
  induction as generalizing ids names with
  | nil => simp [definitionsLoop, Checks.fresh_nil]
  | cons a as ih =>
    rw [definitionsLoop, ite_some_eq_none, ite_some_eq_none, Option.or_eq_none_iff,
      Option.map_eq_none_iff, ih, List.map_cons, List.map_cons, Checks.fresh_cons,
      Checks.fresh_cons, List.forall_mem_cons]
    constructor
    · rintro ⟨hid, hname, hvalid, hids, hnames, hall⟩
      exact ⟨⟨hid, hids⟩, ⟨hname, hnames⟩, hvalid, hall⟩
    · rintro ⟨⟨hid, hids⟩, ⟨hname, hnames⟩, hvalid, hall⟩
      exact ⟨hid, hname, hvalid, hids, hnames, hall⟩

/-- What the client relies on in a report of a metric that passes. -/
structure ValidReport (m : RegistryMetric) (r : RegistryReport) : Prop where
  /-- The type goes with the type of the metric. -/
  allowed : ∃ types, allowedReportTypes m.metricType = some types ∧ r.reportType ∈ types
  noise : r.reportType = .SIMPLE_OCCURRENCE_COUNT ∨ r.reportType = .UNIQUE_N_DAY_ACTIVES →
    r.localPrivacyNoiseLevel ≠ .NOISE_LEVEL_UNSET
  windows : r.reportType = .UNIQUE_N_DAY_ACTIVES ∨ r.reportType = .PER_DEVICE_NUMERIC_STATS ∨
    r.reportType = .PER_DEVICE_HISTOGRAM → r.windowSize ≠ [] ∧ 0 ∉ r.windowSize
  buckets : r.reportType = .PER_DEVICE_HISTOGRAM → m.metricType ≠ .INT_HISTOGRAM →
    m.metricType ≠ .INTEGER_HISTOGRAM →
    ∃ buckets, r.intBuckets = some buckets ∧ Config.validateIntBuckets buckets = .ok ()

theorem of_validateWindowSize {r : RegistryReport} (h : validateWindowSize r = none) :
    r.windowSize ≠ [] ∧ 0 ∉ r.windowSize := by
  rw [validateWindowSize, ite_some_eq_none, List.findSome?_eq_none_iff] at h
  obtain ⟨hlength, hsizes⟩ := h
  refine ⟨fun hnil => hlength (List.length_eq_zero_iff.mpr hnil), fun hmem => ?_⟩
  have hzero := hsizes 0 hmem
  simp at hzero

theorem of_validateLocalPrivacyNoiseLevel {r : RegistryReport}
    (h : validateLocalPrivacyNoiseLevel r = none) :
    r.localPrivacyNoiseLevel ≠ .NOISE_LEVEL_UNSET := by
  intro hunset
  rw [validateLocalPrivacyNoiseLevel, if_pos hunset] at h
  cases h

theorem of_validateReportType {mt : MetricType} {rt : ReportType}
    (h : validateReportType mt rt = none) :
    ∃ types, allowedReportTypes mt = some types ∧ rt ∈ types := by
  rw [validateReportType, ite_some_eq_none] at h
  obtain ⟨-, h⟩ := h
  cases htypes : allowedReportTypes mt with
  | none => simp [htypes] at h
  | some types =>
    rw [htypes] at h
    exact ⟨types, rfl, by_contra fun hnot => by simp [hnot] at h⟩

/-- A report that passes has what the client relies on. -/
theorem validReport_of_validateReportDefinitionForMetric {m : RegistryMetric} {r : RegistryReport}
    (h : validateReportDefinitionForMetric m r = none) : ValidReport m r := by
  rw [validateReportDefinitionForMetric, Option.or_eq_none_iff, Option.or_eq_none_iff,
    validateIntBucketsForReport, Option.or_eq_none_iff, validateReportDefinition, ite_some_eq_none,
    ite_some_eq_none, Option.map_eq_none_iff] at h
  obtain ⟨htype, ⟨hhas, hbuckets⟩, -, -, hdef⟩ := h
  rw [validateReportDefinitionForType] at hdef
  refine ⟨of_validateReportType htype, ?_, ?_, ?_⟩
  · rintro (hr | hr) <;> rw [hr] at hdef
    · exact of_validateLocalPrivacyNoiseLevel hdef
    · exact of_validateLocalPrivacyNoiseLevel (Option.or_eq_none_iff.mp hdef).2
  · rintro (hr | hr | hr) <;> rw [hr] at hdef
    · exact of_validateWindowSize (Option.or_eq_none_iff.mp hdef).1
    · exact of_validateWindowSize hdef
    · exact of_validateWindowSize (ite_some_eq_none.mp hdef).2
  · intro hr hint hinteger
    rw [checkHasIntBuckets, if_neg (not_or.mpr ⟨hint, hinteger⟩), ite_some_eq_none,
      ite_some_eq_none, hr] at hhas
    obtain ⟨-, hneeds, -⟩ := hhas
    cases hr' : r.intBuckets with
    | none => exact absurd ⟨rfl, hr'⟩ hneeds
    | some buckets =>
      rw [hr'] at hbuckets
      refine ⟨buckets, rfl, ?_⟩
      cases hvalid : Config.validateIntBuckets buckets with
      | error error => simp [hvalid, errorOf] at hbuckets
      | ok u => rfl

/-- What passes `validateMetricDefinition` beside the dimensions. -/
theorem of_validateMetricDefinition {others : OtherValidators} {m : MetricDefinition}
    (h : ConfigValidator.validateMetricDefinition others m = none) :
    m.metricType ≠ .UNSET ∧ validateMetricDefinitionForType m = none ∧
      others.validateReportDefinitions m = none := by
  rw [ConfigValidator.validateMetricDefinition, ite_some_eq_none, ite_some_eq_none,
    ite_some_eq_none] at h
  obtain ⟨_, _, hunset, h⟩ := h
  cases hmetaData : m.metaData with
  | none => simp [hmetaData] at h
  | some metaData =>
    rw [hmetaData] at h
    dsimp only at h
    rw [Option.or_eq_none_iff, Option.or_eq_none_iff, ite_some_eq_none, ite_some_eq_none,
      ite_some_eq_none, ite_some_eq_none, ite_some_eq_none, Option.or_eq_none_iff,
      Option.or_eq_none_iff] at h
    obtain ⟨_, _, _, _, _, _, _, htype, _, hreports⟩ := h
    exact ⟨hunset, Option.map_eq_none_iff.mp htype, hreports⟩

/-- **A metric that passes** has reports with ids of their own, which have what the client relies
on. -/
theorem validReport_of_validateMetricDefinition {validateMetadata : Metadata → Option String}
    {m : RegistryMetric} (h : m.validateMetricDefinition validateMetadata = none) :
    (m.reportDefinitions.map RegistryReport.id).Nodup ∧
      ∀ r ∈ m.reportDefinitions, ValidReport m r := by
  have hreports := (of_validateMetricDefinition h).2.2
  obtain ⟨hids, -, hall⟩ := definitionsLoop_eq_none_iff.mp hreports
  exact ⟨hids.1, fun r hr => validReport_of_validateReportDefinitionForMetric (hall r hr)⟩

/-- The client's view of a project that passes. Its metrics carry its ids, and neither they nor
the reports of one of them share an id. -/
theorem validProject_toClient {validateMetadata : Metadata → Option String}
    {project : RegistryProject}
    (h : RegistryMetric.validateConfiguredMetricDefinitions validateMetadata project.metrics = none)
    (haggregation : ∀ m ∈ project.metrics, ∀ r ∈ m.reportDefinitions,
      ∀ n, r.aggregationType ≠ .unrecognized n) :
    LocalAggregation.ValidProject project.toClient := by
  obtain ⟨hids, -, hmetrics⟩ := definitionsLoop_eq_none_iff.mp h
  refine ⟨?_, ?_, ?_, ?_⟩
  · rintro metric hmetric
    obtain ⟨m, hm, rfl⟩ := List.mem_map.mp hmetric
    exact project.ids m hm
  · rw [RegistryProject.toClient, List.map_map]
    exact hids.1
  · rintro metric hmetric
    obtain ⟨m, hm, rfl⟩ := List.mem_map.mp hmetric
    rw [RegistryMetric.toClient, List.map_map]
    exact (validReport_of_validateMetricDefinition (hmetrics m hm)).1
  · rintro metric hmetric report hreport
    obtain ⟨m, hm, rfl⟩ := List.mem_map.mp hmetric
    obtain ⟨r, hr, rfl⟩ := List.mem_map.mp hreport
    exact haggregation m hm r hr

end Cobalt.ConfigValidator
