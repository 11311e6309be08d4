import Cobalt.Lib.MachineInt
import Cobalt.Logger.EventLoggers
import Cobalt.Registry.PackedEventCodes
import Mathlib.Algebra.Order.BigOperators.GroupWithZero.List
import Mathlib.Data.Set.Card

/-!
# The validation of metric definitions

Before a registry is published, the config parser validates it. For the dimensions of a metric it
bounds the number of combinations of event codes, so that the event codes that the client accepts
for the metric can be packed without loss.

The number of combinations is computed with the integers of the machine: the largest value of
`max_event_code` makes the 32-bit sum `max_event_code + 1` zero, and the 64-bit product can
overflow. Definitions for which this happens pass the check of the bound.

A function that returns an `error` returns `none` where the error is `nil`.

## Main definitions

* `validateConfiguredMetricDefinitions`, `validateMetricDefinition`, `validateMetricDimensions`: the
  validation.
* `MetricDimension.numOptions`: the number of event codes of a dimension.

## Main results

* `encard_fullLength`: how many vectors of event codes the client accepts.
* `lossless_iff`: for which definitions that pass the validation the event codes can be packed without
  loss, and the bound is kept.
-/

namespace Cobalt.ConfigValidator

/-! ### Metric definitions -/

/-- `MetricDefinition.MetricType`, with the types of Cobalt 1.1. -/
inductive MetricType
  | UNSET
  | EVENT_OCCURRED
  | EVENT_COUNT
  | ELAPSED_TIME
  | FRAME_RATE
  | MEMORY_USAGE
  | INT_HISTOGRAM
  | OCCURRENCE
  | INTEGER
  | INTEGER_HISTOGRAM
  | STRING
  | CUSTOM
  | unrecognized (n : ℕ)
  deriving DecidableEq, Repr

/-- `MetricDefinition.MetricDimension`, as the config parser reads it. -/
structure MetricDimension where
  dimension : String
  eventCodes : ProtoMap ℕ String := ∅
  maxEventCode : ℕ := 0
  eventCodeAliases : ProtoMap String String := ∅
  maxEventCode_lt : maxEventCode < U32.size := by decide

/-- `MetricDefinition.Metadata`. -/
structure Metadata where
  expirationDate : String := ""
  owner : List String := []
  maxReleaseStage : ℕ := 0
  alsoLogLocally : Bool := false

/-- The fields of `ReportDefinition` that the validation of a metric reads. -/
structure ReportDefinition where
  reportName : String
  hasIntBuckets : Bool := false

/-- `MetricDefinition`, with the fields that the tools of the registry read. Of the parts only the
names are read; of the units, whether they are one of the predefined ones. -/
structure MetricDefinition where
  metricName : String
  customerId : ℕ := 0
  projectId : ℕ := 0
  id : ℕ
  metricType : MetricType
  metaData : Option Metadata := none
  hasMetricUnits : Bool := false
  metricUnitsOther : String := ""
  metricSemantics : List ℕ := []
  hasIntBuckets : Bool := false
  parts : List String := []
  protoName : String := ""
  stringCandidateFile : String := ""
  stringBufferMax : ℕ := 0
  metricDimensions : List MetricDimension := []
  reports : List ReportDefinition := []

/-- `cobalt11MetricTypesSet`. -/
def isCobalt11MetricType : MetricType → Bool
  | .OCCURRENCE | .INTEGER | .INTEGER_HISTOGRAM | .STRING => true
  | _ => false

/-! ### The dimensions -/

/-- The checks of the names of the event codes and of the aliases. The order in which the aliases
are visited decides which error is found first. -/
def eventCodeNamesError (md : MetricDimension) : Option String :=
  let names := md.eventCodes.entries.map Sigma.snd
  if ¬ names.Nodup then
    some ("duplicate event_code name in metric_dimensions " ++ md.dimension)
  else md.eventCodeAliases.entries.findSome? fun ⟨codeName, aliasName⟩ =>
    if codeName ∉ names then
      if aliasName ∈ names then
        some ("unknown event_code " ++ codeName ++ " for alias " ++ codeName ++ ": " ++ aliasName ++
          ". Did you mean " ++ aliasName ++ ": " ++ codeName ++ "?")
      else some ("unknown event_code_alias: " ++ codeName ++ ": " ++ aliasName)
    else if aliasName ∈ names then
      some ("cannot have event_code_alias " ++ aliasName ++
        ", when that name already exists in event_codes")
    else none

/-- The check of one event code of a dimension, where the metric has so many dimensions. -/
def eventIndexError (cobalt10MetricType : Bool) (numDimensions : ℕ) (md : MetricDimension) (j : ℕ) :
    Option String :=
  let eventIndex := "event index " ++ toString j ++ " in metric_dimension " ++ md.dimension
  if md.maxEventCode ≠ 0 then
    if md.maxEventCode < j then
      some (eventIndex ++ " is greater than max_event_code " ++ toString md.maxEventCode)
    else none
  else if cobalt10MetricType ∧ 1024 ≤ j ∧ 4 < numDimensions then
    some (eventIndex ++ " is greater than 1023, which means that this metric cannot support more " ++
      "than 4 metric_dimensions")
  else if 32768 ≤ j then some (eventIndex ++ " is is too large (greater than 32,767)")
  else none

/-- The body of the loop of `validateMetricDimensions`, up to the number of options. -/
def dimensionError (cobalt10MetricType : Bool) (numDimensions i : ℕ) (seenNames : List String)
    (md : MetricDimension) : Option String :=
  if md.dimension = "" then some ("dimension " ++ toString i ++ " has no 'dimension' name")
  else if md.dimension ∈ seenNames then
    some ("duplicate dimension name in metric_dimensions " ++ md.dimension)
  else (eventCodeNamesError md).or <|
    if md.eventCodes.keys = [] ∧ md.maxEventCode = 0 then
      some ("For metric dimension " ++ md.dimension ++ ", you must either define max_event_code or " ++
        "explicitly define at least one event code.")
    else md.eventCodes.keys.findSome? (eventIndexError cobalt10MetricType numDimensions md)

/-- The number that a dimension multiplies the number of options with. -/
def dimensionFactor (md : MetricDimension) : ℕ :=
  if md.maxEventCode ≠ 0 then U32.add md.maxEventCode 1 else md.eventCodes.keys.length

/-- The loop of `validateMetricDimensions`, which ends with the number of options. -/
def dimensionLoop (cobalt10MetricType : Bool) (numDimensions : ℕ) :
    ℕ → List String → ℤ → List MetricDimension → Except String ℤ
  | _, _, numOptions, [] => .ok numOptions
  | i, seenNames, numOptions, md :: mds =>
    match dimensionError cobalt10MetricType numDimensions i seenNames md with
    | some error => .error error
    | none => dimensionLoop cobalt10MetricType numDimensions (i + 1) (md.dimension :: seenNames)
        (I64.mul numOptions (dimensionFactor md)) mds

/-- `validateMetricDimensions`. -/
def validateMetricDimensions (m : MetricDefinition) : Option String :=
  let cobalt10MetricType := !isCobalt11MetricType m.metricType
  if m.metricDimensions = [] then none
  else if 5 < m.metricDimensions.length then
    some "there can be at most 5 dimensions in metric_dimensions"
  else match dimensionLoop cobalt10MetricType m.metricDimensions.length 0 [] 1 m.metricDimensions with
  | .error error => some error
  | .ok numOptions =>
    if cobalt10MetricType ∧ 1024 ≤ numOptions then
      some ("metric_dimensions have too many possible representations: " ++ toString numOptions ++
        ". May be no more than 1023")
    else none

/-! ### The whole definition -/

/-- `validNameRegexp`. -/
def isValidName (name : String) : Bool :=
  match name.toList with
  | [] => false
  | c :: cs => c.isAlpha && 1 ≤ cs.length && cs.length ≤ 65 &&
      cs.all fun c => c == '_' || c.isAlphanum

/-- `validProtoNameRegexp`. -/
def isValidProtoName (name : String) : Bool :=
  match name.toList with
  | [] => false
  | c :: cs => (c == '$' || c.isAlpha) && 2 ≤ cs.length && cs.length ≤ 65 &&
      (cs.getLast?.any Char.isAlphanum) &&
      cs.dropLast.all fun c => c == '_' || c == '.' || c == '$' || c.isAlphanum

/-- The error for a name that does not match. -/
def invalidNameError (what : String) (regexp : String) : String :=
  what ++ " must match the regular expression '" ++ regexp ++ "'"

def validNameRegexp : String := "^[a-zA-Z][_a-zA-Z0-9]\x7b1,65\x7d$"

def validProtoNameRegexp : String := "^[$a-zA-Z][_.$a-zA-Z0-9]\x7b1,64\x7d[a-zA-Z0-9]$"

/-- `validateMetricUnits`. -/
def validateMetricUnits (m : MetricDefinition) : Option String :=
  let hasOtherMetricUnit := decide (m.metricUnitsOther ≠ "")
  if m.metricType ≠ .INTEGER ∧ m.metricType ≠ .INTEGER_HISTOGRAM then
    if m.hasMetricUnits || hasOtherMetricUnit then
      some ("metric_units and metric_units_other must be set only for INTEGER and " ++
        "INTEGER_HISTOGRAM metrics.")
    else none
  else if m.hasMetricUnits = hasOtherMetricUnit then
    some ("metrics of type INTEGER and INTEGER_HISTOGRAM must have exactly one of metric_unit or " ++
      "other_metric_unit specified.")
  else none

/-- `validateEventOccurred`. -/
def validateEventOccurred (m : MetricDefinition) : Option String :=
  match m.metricDimensions with
  | [] => some "No max_event_code specified for metric of type EVENT_OCCURRED."
  | md :: mds =>
    if md.maxEventCode = 0 then
      some "No max_event_code specified for metric of type EVENT_OCCURRED."
    else if mds ≠ [] then
      some "Too many metric dimensions specified for metric of type EVENT_OCCURRED."
    else none

/-- `validateIntHistogram`. -/
def validateIntHistogram (m : MetricDefinition) : Option String :=
  if ¬ m.hasIntBuckets then some "No int_buckets specified for metric of type INT_HISTOGRAM."
  else m.reports.findSome? fun r =>
    if r.hasIntBuckets then
      some ("for report \"" ++ r.reportName ++ "\": both report and metric contain int_buckets " ++
        "stanzas, the stanza in \"" ++ r.reportName ++ "\" will be ignored")
    else none

/-- `validateString`. -/
def validateString (m : MetricDefinition) : Option String :=
  if m.stringCandidateFile = "" then
    some "No string_candidate_file specified for metric of type STRING."
  else if m.stringBufferMax = 0 then
    some "No string_buffer_max specified for metric of type STRING."
  else none

/-- `validateCustomOld`. -/
def validateCustomOld (m : MetricDefinition) : Option String :=
  if m.metricDimensions ≠ [] then
    some "metric_dimensions must not be set for metrics of type CUSTOM"
  else if m.parts = [] then some "No parts specified for metric of type CUSTOM."
  else m.parts.findSome? fun n =>
    if ¬ isValidName n then
      some (invalidNameError ("Invalid part name '" ++ n ++ "'. Part names") validNameRegexp)
    else none

/-- `validateCustom`. -/
def validateCustom (m : MetricDefinition) : Option String :=
  if validateCustomOld m = none then none
  else if m.metricDimensions ≠ [] then
    some "metric_dimensions must not be set for metrics of type CUSTOM"
  else if m.protoName = "" then
    some "Missing proto_name. Proto names are required for metrics of type CUSTOM."
  else if ¬ isValidProtoName m.protoName then
    some (invalidNameError "Invalid proto_name. Proto names" validProtoNameRegexp ++ ".")
  else none

/-- `validateMetricDefinitionForType`. -/
def validateMetricDefinitionForType (m : MetricDefinition) : Option String :=
  match m.metricType with
  | .EVENT_OCCURRED => validateEventOccurred m
  | .INT_HISTOGRAM | .INTEGER_HISTOGRAM => validateIntHistogram m
  | .EVENT_COUNT | .FRAME_RATE | .MEMORY_USAGE | .ELAPSED_TIME | .OCCURRENCE | .INTEGER => none
  | .CUSTOM => validateCustom m
  | .STRING => validateString m
  | .UNSET => some "Unknown MetricType: UNSET"
  | .unrecognized n => some ("Unknown MetricType: " ++ toString n)

/-- The checks of a definition that do not read its dimensions: of the metadata, which depend on the
current time and on the syntax of addresses, and of the reports. -/
structure OtherValidators where
  validateMetadata : Metadata → Option String
  validateReportDefinitions : MetricDefinition → Option String

/-- `validateMetricDefinition`. -/
def validateMetricDefinition (others : OtherValidators) (m : MetricDefinition) : Option String :=
  if ¬ isValidName m.metricName then
    some (invalidNameError "Invalid metric name. Metric names" validNameRegexp ++ ".")
  else if m.id = 0 then
    some "Metric ID of zero is not allowed. Please specify a positive metric ID."
  else if m.metricType = .UNSET then some "metric_type is not set."
  else match m.metaData with
  | none => some ("meta_data is not set, additionally, in meta_data: " ++
      (others.validateMetadata {}).getD "<nil>")
  | some metaData =>
    ((others.validateMetadata metaData).map ("in meta_data: " ++ ·)).or <|
    (validateMetricUnits m).or <|
    if m.hasIntBuckets ∧ m.metricType ≠ .INT_HISTOGRAM ∧ m.metricType ≠ .INTEGER_HISTOGRAM then
      some ("Metric " ++ m.metricName ++ " has int_buckets set. int_buckets can only be set for " ++
        "metrics for metric type INT_HISTOGRAM and INTEGER_HISTOGRAM.")
    else if m.parts ≠ [] ∧ m.metricType ≠ .CUSTOM then
      some ("Metric " ++ m.metricName ++ " has parts set. parts can only be set for metrics for " ++
        "metric type CUSTOM.")
    else if m.protoName ≠ "" ∧ m.metricType ≠ .CUSTOM then
      some ("Metric " ++ m.metricName ++ " has proto_name set. proto_name can only be set for " ++
        "metrics for metric type CUSTOM.")
    else if isCobalt11MetricType m.metricType ∧ m.metricSemantics = [] then
      some ("Metric " ++ m.metricName ++ " does not have metric_semantics. metric_semantics is " ++
        "required for this metric.")
    else if ¬ isCobalt11MetricType m.metricType ∧ m.metricSemantics ≠ [] then
      some ("Metric " ++ m.metricName ++ " has metric_semantics set. metric_semantics can only be " ++
        "set for Cobalt 1.1 metrics.")
    else
      ((validateMetricDefinitionForType m).map ("Metric " ++ m.metricName ++ ": " ++ ·)).or <|
      (if m.metricType ≠ .CUSTOM then
        (validateMetricDimensions m).map ("Metric " ++ m.metricName ++ ": " ++ ·) else none).or <|
      others.validateReportDefinitions m

/-- The loop of `validateConfiguredMetricDefinitions`. -/
def configuredMetricsLoop (others : OtherValidators) :
    List ℕ → List String → List MetricDefinition → Option String
  | _, _, [] => none
  | metricIds, metricNames, metric :: metrics =>
    if metric.id ∈ metricIds then
      some ("There are two metrics with id=" ++ toString metric.id ++ ".")
    else if metric.metricName ∈ metricNames then
      some ("There are two metrics with name=" ++ metric.metricName ++ ".")
    else
      ((validateMetricDefinition others metric).map
        ("Error validating metric '" ++ metric.metricName ++ "': " ++ ·)).or
      (configuredMetricsLoop others (metric.id :: metricIds) (metric.metricName :: metricNames)
        metrics)

/-- `validateConfiguredMetricDefinitions`. -/
def validateConfiguredMetricDefinitions (others : OtherValidators)
    (metrics : List MetricDefinition) : Option String :=
  configuredMetricsLoop others [] [] metrics

/-! ### What the client makes of it -/

/-- The dimension as the client reads it. -/
def MetricDimension.toClient (md : MetricDimension) : Cobalt.MetricDimension where
  maxEventCode := md.maxEventCode
  eventCodes := md.eventCodes.keys

/-- The number of event codes that the client accepts for a dimension. -/
def MetricDimension.numOptions (md : MetricDimension) : ℕ :=
  if md.maxEventCode ≠ 0 then md.maxEventCode + 1 else md.eventCodes.keys.length

/-- A check passes if the condition of its error does not hold, and the rest passes. -/
theorem ite_some_eq_none {p : Prop} [Decidable p] {error : String} {rest : Option String} :
    (if p then some error else rest) = none ↔ ¬ p ∧ rest = none := by
  split_ifs with hp <;> simp [hp]

/-- The loop passes definitions with names that were not seen before. -/
theorem of_configuredMetricsLoop {others : OtherValidators} {metricIds : List ℕ}
    {metricNames : List String} {metrics : List MetricDefinition}
    (h : configuredMetricsLoop others metricIds metricNames metrics = none) :
    (metrics.map MetricDefinition.metricName).Nodup ∧ ∀ m ∈ metrics,
      m.metricName ∉ metricNames ∧ validateMetricDefinition others m = none := by
  induction metrics generalizing metricIds metricNames with
  | nil => exact ⟨List.nodup_nil, fun _ hm => absurd hm List.not_mem_nil⟩
  | cons metric metrics ih =>
    rw [configuredMetricsLoop, ite_some_eq_none, ite_some_eq_none, Option.or_eq_none_iff,
      Option.map_eq_none_iff] at h
    obtain ⟨-, hname, hvalid, hrest⟩ := h
    obtain ⟨hnodup, hmetrics⟩ := ih hrest
    refine ⟨?_, List.forall_mem_cons.mpr ⟨⟨hname, hvalid⟩, fun m hm => ?_⟩⟩
    · rw [List.map_cons, List.nodup_cons]
      refine ⟨fun hmem => ?_, hnodup⟩
      obtain ⟨m, hm, heq⟩ := List.mem_map.mp hmem
      exact (hmetrics m hm).1 (heq ▸ List.mem_cons_self)
    · exact ⟨fun hmem => (hmetrics m hm).1 (List.mem_cons_of_mem _ hmem), (hmetrics m hm).2⟩

/-- Definitions that pass have distinct names, which are valid. -/
theorem names_of_validateConfiguredMetricDefinitions {others : OtherValidators}
    {metrics : List MetricDefinition}
    (h : validateConfiguredMetricDefinitions others metrics = none) :
    (metrics.map MetricDefinition.metricName).Nodup ∧
      ∀ m ∈ metrics, isValidName m.metricName = true := by
  obtain ⟨hnodup, hmetrics⟩ := of_configuredMetricsLoop h
  refine ⟨hnodup, fun m hm => ?_⟩
  have hvalid := (hmetrics m hm).2
  rw [validateMetricDefinition, ite_some_eq_none] at hvalid
  exact not_not.mp hvalid.1

theorem metricDimensions_of_validateCustom {m : MetricDefinition} (h : validateCustom m = none) :
    m.metricDimensions = [] := by
  by_contra hne
  rw [validateCustom, validateCustomOld, if_pos hne, if_neg (by simp), if_pos hne] at h
  exact absurd h (by simp)

/-- A definition that passes has no dimensions, or its dimensions pass. -/
theorem validateMetricDimensions_of_validateMetricDefinition {others : OtherValidators}
    {m : MetricDefinition} (h : validateMetricDefinition others m = none) :
    validateMetricDimensions m = none := by
  rw [validateMetricDefinition, ite_some_eq_none, ite_some_eq_none, ite_some_eq_none] at h
  obtain ⟨_, _, _, h⟩ := h
  cases hmetaData : m.metaData with
  | none => simp [hmetaData] at h
  | some metaData =>
    rw [hmetaData] at h
    dsimp only at h
    rw [Option.or_eq_none_iff, Option.or_eq_none_iff, ite_some_eq_none, ite_some_eq_none,
      ite_some_eq_none, ite_some_eq_none, ite_some_eq_none, Option.or_eq_none_iff,
      Option.or_eq_none_iff] at h
    obtain ⟨_, _, _, _, _, _, _, htype, hdimensions, _⟩ := h
    by_cases hcustom : m.metricType = .CUSTOM
    · have htype := Option.map_eq_none_iff.mp htype
      rw [validateMetricDefinitionForType, hcustom] at htype
      rw [validateMetricDimensions, if_pos (metricDimensions_of_validateCustom htype)]
    · rw [if_pos hcustom] at hdimensions
      exact Option.map_eq_none_iff.mp hdimensions

/-- What is known of a dimension for which no error was found. -/
structure MetricDimension.Valid (cobalt10MetricType : Bool) (numDimensions : ℕ)
    (md : MetricDimension) : Prop where
  numOptions_pos : 0 < md.numOptions
  lt : ∀ j ∈ md.eventCodes.keys, md.maxEventCode = 0 → j < 32768
  lt_of_five : cobalt10MetricType → 4 < numDimensions → ∀ j ∈ md.eventCodes.keys,
    md.maxEventCode = 0 → j < 1024

theorem valid_of_dimensionError {cobalt10MetricType : Bool} {numDimensions i : ℕ}
    {seenNames : List String} {md : MetricDimension}
    (h : dimensionError cobalt10MetricType numDimensions i seenNames md = none) :
    md.Valid cobalt10MetricType numDimensions := by
  rw [dimensionError, ite_some_eq_none, ite_some_eq_none, Option.or_eq_none_iff,
    ite_some_eq_none, List.findSome?_eq_none_iff] at h
  obtain ⟨_, _, _, hempty, hindex⟩ := h
  have hcode (j : ℕ) (hj : j ∈ md.eventCodes.keys) (hmax : md.maxEventCode = 0) :
      ¬ (cobalt10MetricType = true ∧ 1024 ≤ j ∧ 4 < numDimensions) ∧ ¬ 32768 ≤ j := by
    have hj := hindex j hj
    rw [eventIndexError, if_neg (not_not.mpr hmax), ite_some_eq_none, ite_some_eq_none] at hj
    exact ⟨hj.1, hj.2.1⟩
  refine ⟨?_, fun j hj hmax => not_le.mp (hcode j hj hmax).2, fun hcobalt hfive j hj hmax =>
    not_le.mp fun hle => (hcode j hj hmax).1 ⟨hcobalt, hle, hfive⟩⟩
  rw [MetricDimension.numOptions]
  split_ifs with hmax
  · exact Nat.succ_pos _
  · exact List.length_pos_iff.mpr fun hkeys => hempty ⟨hkeys, not_not.mp hmax⟩

/-- The loop ends with the product of the factors, if all dimensions are valid. -/
theorem dimensionLoop_ok {cobalt10MetricType : Bool} {numDimensions i : ℕ} {seenNames : List String}
    {mds : List MetricDimension} {start : ℤ} {numOptions : ℤ}
    (h : dimensionLoop cobalt10MetricType numDimensions i seenNames (start.bmod (2 ^ 64)) mds =
      .ok numOptions) :
    (∀ md ∈ mds, md.Valid cobalt10MetricType numDimensions) ∧
      numOptions = (start * (mds.map dimensionFactor).prod).bmod (2 ^ 64) := by
  induction mds generalizing i seenNames start with
  | nil =>
    rw [dimensionLoop] at h
    simpa using (Except.ok.inj h).symm
  | cons md mds ih =>
    rw [dimensionLoop] at h
    split at h
    · exact absurd h (by simp)
    · rename_i herror
      rw [I64.bmod_mul] at h
      obtain ⟨hvalid, heq⟩ := ih h
      refine ⟨List.forall_mem_cons.mpr ⟨valid_of_dimensionError herror, hvalid⟩, ?_⟩
      rw [heq, List.map_cons, List.prod_cons, Nat.cast_mul, mul_assoc]

/-- The factor is the number of options, if the sum does not wrap. -/
theorem dimensionFactor_eq {md : MetricDimension} (h : md.maxEventCode ≠ U32.max) :
    dimensionFactor md = md.numOptions := by
  have hlt := md.maxEventCode_lt
  rw [dimensionFactor, MetricDimension.numOptions, U32.add_of_lt]
  rw [U32.max] at h
  omega

/-- What passes `validateMetricDimensions` for a metric of Cobalt 1.0. -/
theorem valid_of_validateMetricDimensions {m : MetricDefinition}
    (h : validateMetricDimensions m = none) (hcobalt10 : isCobalt11MetricType m.metricType = false) :
    m.metricDimensions.length ≤ 5 ∧
      (∀ md ∈ m.metricDimensions, md.Valid true m.metricDimensions.length) ∧
      (((m.metricDimensions.map dimensionFactor).prod : ℕ) : ℤ).bmod (2 ^ 64) < 1024 := by
  rw [validateMetricDimensions, hcobalt10] at h
  simp only [Bool.not_false] at h
  split_ifs at h with hnil hlength
  · rw [hnil]
    exact ⟨Nat.zero_le _, by simp, by decide⟩
  · refine ⟨not_lt.mp hlength, ?_⟩
    split at h
    · exact absurd h (by simp)
    · rename_i numOptions hloop
      have hstart : (1 : ℤ) = (1 : ℤ).bmod (2 ^ 64) := by decide
      rw [hstart] at hloop
      obtain ⟨hvalid, heq⟩ := dimensionLoop_ok hloop
      rw [one_mul] at heq
      refine ⟨hvalid, ?_⟩
      rw [ite_some_eq_none] at h
      rw [← heq]
      exact not_le.mp fun hle => h.1 ⟨trivial, hle⟩

/-! ### How many vectors are accepted -/

/-- The event codes that the client accepts for the dimension. -/
theorem encard_isValidEventCode (md : MetricDimension) :
    {code | Logger.isValidEventCode md.toClient code = true}.encard = md.numOptions := by
  by_cases hmax : md.maxEventCode = 0
  · have hset : {code | Logger.isValidEventCode md.toClient code = true} =
        (md.eventCodes.keys.toFinset : Set ℕ) := by
      ext code
      simp [Logger.isValidEventCode, MetricDimension.toClient, hmax]
    rw [hset, Set.encard_coe_eq_coe_finsetCard, List.toFinset_card_of_nodup md.eventCodes.keys_nodup,
      MetricDimension.numOptions, if_neg (not_not.mpr hmax)]
  · have hset : {code | Logger.isValidEventCode md.toClient code = true} =
        (Finset.range (md.maxEventCode + 1) : Set ℕ) := by
      ext code
      rw [Set.mem_ofPred_eq, Logger.isValidEventCode, MetricDimension.toClient,
        if_pos (Nat.pos_of_ne_zero hmax), decide_eq_true_iff, Finset.mem_coe, Finset.mem_range,
        Nat.lt_succ_iff]
    rw [hset, Set.encard_coe_eq_coe_finsetCard, Finset.card_range, MetricDimension.numOptions,
      if_pos hmax]

/-- Vectors with one valid event code for each dimension. -/
theorem encard_forall₂ (mds : List MetricDimension) :
    {codes | List.Forall₂ (fun code md => Logger.isValidEventCode md.toClient code = true)
      codes mds}.encard = (mds.map MetricDimension.numOptions).prod := by
  induction mds with
  | nil =>
    have hset : {codes : List ℕ | List.Forall₂ (fun code (md : MetricDimension) =>
        Logger.isValidEventCode md.toClient code = true) codes []} = {[]} := by
      ext codes
      simp
    rw [hset, Set.encard_singleton]
    rfl
  | cons md mds ih =>
    have hset : {codes | List.Forall₂ (fun code (md : MetricDimension) =>
        Logger.isValidEventCode md.toClient code = true) codes (md :: mds)} =
        Set.image (fun p : ℕ × List ℕ => p.1 :: p.2)
          ({code | Logger.isValidEventCode md.toClient code = true} ×ˢ
            {codes | List.Forall₂ (fun code (md : MetricDimension) =>
              Logger.isValidEventCode md.toClient code = true) codes mds}) := by
      ext codes
      constructor
      · rintro (_ | ⟨hcode, hcodes⟩)
        exact ⟨(_, _), ⟨hcode, hcodes⟩, rfl⟩
      · rintro ⟨⟨code, codes⟩, ⟨hcode, hcodes⟩, rfl⟩
        exact .cons hcode hcodes
    have hinj : Function.Injective (fun p : ℕ × List ℕ => p.1 :: p.2) := fun p q h =>
      Prod.ext (List.cons.inj h).1 (List.cons.inj h).2
    rw [hset, hinj.injOn.encard_image, Set.encard_prod, encard_isValidEventCode, ih, List.map_cons,
      List.prod_cons, Nat.cast_mul]

/-- How many vectors of full length the client accepts. -/
theorem encard_fullLength {client : Cobalt.MetricDefinition} {mds : List MetricDimension}
    (hclient : client.metricDimensions = mds.map MetricDimension.toClient) :
    {codes | codes.length = mds.length ∧ Logger.validateEventCodes client codes = .kOK}.encard =
      (mds.map MetricDimension.numOptions).prod := by
  rw [← encard_forall₂ mds]
  congr 1
  ext codes
  rw [Set.mem_ofPred_eq, Set.mem_ofPred_eq, List.forall₂_iff_zip]
  refine and_congr_right fun hlength => ?_
  rw [Logger.validateEventCodes_eq_kOK_iff, hclient, List.zip_map_right]
  constructor
  · rintro (⟨hnil, rfl⟩ | ⟨-, hall⟩) code md hmem
    · rw [List.map_eq_nil_iff.mp hnil] at hlength
      exact absurd hlength (by simp)
    · exact hall _ (List.mem_map_of_mem hmem)
  · intro hall
    refine Or.inr ⟨by rw [List.length_map, hlength], fun p hp => ?_⟩
    obtain ⟨⟨code, md⟩, hmem, rfl⟩ := List.mem_map.mp hp
    exact hall hmem

/-! ### Packing what was accepted -/

/-- Every dimension has an event code, so that none has more of them than there are vectors. -/
theorem numOptions_le_prod {cobalt10MetricType : Bool} {mds : List MetricDimension} {n : ℕ}
    (hvalid : ∀ md ∈ mds, md.Valid cobalt10MetricType n) {md : MetricDimension} (hmd : md ∈ mds) :
    md.numOptions ≤ (mds.map MetricDimension.numOptions).prod := by
  have hpos : ∀ a ∈ mds.map MetricDimension.numOptions, 0 < a := by
    intro a ha
    obtain ⟨md', hmd', rfl⟩ := List.mem_map.mp ha
    exact (hvalid md' hmd').numOptions_pos
  exact Nat.le_of_dvd (List.prod_pos hpos) (List.dvd_prod (List.mem_map_of_mem hmd))

/-- An event code that is accepted fits into fifteen bits, and into ten bits if there are five
dimensions. -/
theorem lt_of_isValidEventCode {mds : List MetricDimension} {n : ℕ}
    (hvalid : ∀ md ∈ mds, md.Valid true n) (hprod : (mds.map MetricDimension.numOptions).prod < 1024)
    {md : MetricDimension} (hmd : md ∈ mds) {code : ℕ}
    (hcode : Logger.isValidEventCode md.toClient code = true) :
    code < 32768 ∧ (4 < n → code < 1024) := by
  have hoption := numOptions_le_prod hvalid hmd
  rw [Logger.isValidEventCode, MetricDimension.toClient] at hcode
  rw [MetricDimension.numOptions] at hoption
  split_ifs at hcode with hmax
  · have hle : code ≤ md.maxEventCode := of_decide_eq_true hcode
    rw [if_pos hmax.ne'] at hoption
    omega
  · have hzero := Nat.eq_zero_of_not_pos hmax
    have hmem := of_decide_eq_true hcode
    exact ⟨(hvalid md hmd).lt code hmem hzero,
      fun hfive => (hvalid md hmd).lt_of_five rfl hfive code hmem hzero⟩

/-- Unpacking. The event codes that the client accepts can be unpacked. -/
theorem unpack_of_accepted {client : Cobalt.MetricDefinition} {mds : List MetricDimension}
    (hclient : client.metricDimensions = mds.map MetricDimension.toClient)
    (hlength : mds.length ≤ 5) (hvalid : ∀ md ∈ mds, md.Valid true mds.length)
    (hprod : (mds.map MetricDimension.numOptions).prod < 1024) {codes : List ℕ}
    (haccepted : Logger.validateEventCodes client codes = .kOK) :
    ∃ n, (n = 4 ∨ n = 5) ∧ codes.length ≤ n ∧
      Config.unpackEventCodes (Config.packEventCodes codes) = Config.padded n codes := by
  rcases Logger.validateEventCodes_eq_kOK_iff.mp haccepted with ⟨-, rfl⟩ | ⟨hle, hall⟩
  · exact ⟨5, Or.inr rfl, by decide, by decide +kernel⟩
  rw [hclient, List.length_map] at hle
  have hcode (code : ℕ) (hmem : code ∈ codes) : code < 32768 ∧ (4 < mds.length → code < 1024) := by
    obtain ⟨i, hi, rfl⟩ := List.getElem_of_mem hmem
    have hi' : i < mds.length := hi.trans_le hle
    refine lt_of_isValidEventCode hvalid hprod (List.getElem_mem hi') ?_
    have hpair := hall (codes[i], (mds[i]).toClient)
    rw [hclient] at hpair
    refine hpair (List.mem_iff_getElem.mpr ⟨i, by simpa using ⟨hi, hi'⟩, by simp⟩)
  by_cases hlarge : ∃ code ∈ codes, 1024 ≤ code
  · obtain ⟨code, hmem, hge⟩ := hlarge
    have hfour : codes.length ≤ 4 := by
      by_contra hfive
      exact absurd ((hcode code hmem).2 (by omega)) (not_lt.mpr hge)
    exact ⟨4, Or.inl rfl, hfour, Config.unpackEventCodes_packEventCodes_v1 hfour
      (fun c hc => (hcode c hc).1) ⟨code, hmem, hge⟩⟩
  · refine ⟨5, Or.inr rfl, hle.trans hlength,
      Config.unpackEventCodes_packEventCodes_v0 (hle.trans hlength) fun c hc => ?_⟩
    by_contra hge
    exact hlarge ⟨c, hc, not_lt.mp hge⟩

/-- What a metric definition promises to the client that logs for it: the event codes can be
unpacked, different vectors of them are packed differently, and there are fewer than 1024 vectors of
full length. -/
structure Lossless (client : Cobalt.MetricDefinition) : Prop where
  unpack : ∀ codes, Logger.validateEventCodes client codes = .kOK → ∃ n, (n = 4 ∨ n = 5) ∧
    codes.length ≤ n ∧
    Config.unpackEventCodes (Config.packEventCodes codes) = Config.padded n codes
  inj : ∀ codes codes', Logger.validateEventCodes client codes = .kOK →
    Logger.validateEventCodes client codes' = .kOK →
    Config.packEventCodes codes = Config.packEventCodes codes' →
    ∃ k k', codes ++ List.replicate k 0 = codes' ++ List.replicate k' 0
  encard_lt : {codes | codes.length = client.metricDimensions.length ∧
    Logger.validateEventCodes client codes = .kOK}.encard < 1024

/-- **Event codes without loss.** A metric of Cobalt 1.0 that passes the validation keeps its
promise if and only if the numbers of options are computed without overflow: no `max_event_code` is
the largest number of 32 bits, and the product of the numbers is below `2 ^ 63`. -/
theorem lossless_iff {others : OtherValidators} {m : MetricDefinition}
    (hvalid : validateMetricDefinition others m = none)
    (hcobalt10 : isCobalt11MetricType m.metricType = false) {client : Cobalt.MetricDefinition}
    (hclient : client.metricDimensions = m.metricDimensions.map MetricDimension.toClient) :
    Lossless client ↔ (∀ md ∈ m.metricDimensions, md.maxEventCode ≠ U32.max) ∧
      (m.metricDimensions.map MetricDimension.numOptions).prod < 2 ^ 63 := by
  obtain ⟨hlength, hdimensions, hbound⟩ := valid_of_validateMetricDimensions
    (validateMetricDimensions_of_validateMetricDefinition hvalid) hcobalt10
  have hencard := encard_fullLength hclient
  constructor
  · intro h
    have hlt := h.encard_lt
    rw [hclient, List.length_map, hencard] at hlt
    have hprod : (m.metricDimensions.map MetricDimension.numOptions).prod < 1024 := by
      exact_mod_cast hlt
    refine ⟨fun md hmd heq => ?_, hprod.trans (by decide)⟩
    have hle := numOptions_le_prod hdimensions hmd
    rw [MetricDimension.numOptions, heq, if_pos (by decide)] at hle
    exact absurd (hle.trans_lt hprod) (by decide)
  · rintro ⟨hmax, hsmall⟩
    -- without overflow the number that was checked is the number of vectors
    have hfactors : m.metricDimensions.map dimensionFactor =
        m.metricDimensions.map MetricDimension.numOptions :=
      List.map_congr_left fun md hmd => dimensionFactor_eq (hmax md hmd)
    have hprod : (m.metricDimensions.map MetricDimension.numOptions).prod < 1024 := by
      rw [hfactors, Int.bmod_eq_of_le (by omega) (by omega)] at hbound
      exact_mod_cast hbound
    have hunpack {codes : List ℕ} (haccepted : Logger.validateEventCodes client codes = .kOK) :=
      unpack_of_accepted hclient hlength hdimensions hprod haccepted
    refine ⟨fun codes haccepted => hunpack haccepted, fun codes codes' haccepted haccepted' heq => ?_,
      ?_⟩
    · obtain ⟨n, _, _, hcodes⟩ := hunpack haccepted
      obtain ⟨n', _, _, hcodes'⟩ := hunpack haccepted'
      rw [heq, hcodes'] at hcodes
      exact ⟨_, _, hcodes.symm⟩
    · rw [hclient, List.length_map, hencard]
      exact_mod_cast hprod

/-- An `EVENT_COUNT` metric with one dimension. -/
def eventCountMetric (maxEventCode : ℕ) (h : maxEventCode < U32.size) : MetricDefinition where
  metricName := "the_metric_name"
  id := 1
  metricType := .EVENT_COUNT
  metaData := some
    { expirationDate := "2021/01/01", owner := ["google@example.com"], maxReleaseStage := 20 }
  metricDimensions :=
    [{ dimension := "Dimension 0", maxEventCode := maxEventCode, maxEventCode_lt := h }]

/-- The metric as the client reads it. -/
def eventCountClient (maxEventCode : ℕ) : Cobalt.MetricDefinition where
  customerId := 1
  projectId := 2
  id := 1
  metricType := .EVENT_COUNT
  metricDimensions := [{ maxEventCode := maxEventCode }]

/-- The checks of the metadata that every definition has to pass. There are no reports. -/
def metadataValidators : OtherValidators where
  validateMetadata metaData :=
    if metaData.expirationDate = "" then some "expiration_date field is required"
    else if metaData.maxReleaseStage = 0 then some "max_release_stage is required"
    else none
  validateReportDefinitions _ := none

/-- Six event codes. -/
theorem lossless_iff_six : Lossless (eventCountClient 5) := by
  have hvalid : validateMetricDefinition metadataValidators (eventCountMetric 5 (by decide)) =
      none := by decide +kernel
  exact (lossless_iff hvalid rfl rfl).mpr (by decide +kernel)

/-- A definition that passes with too many event codes. The sum wraps, so that the number of
options is zero. Two event codes that are accepted are packed into the same number. -/
theorem not_lossless_wrapped :
    validateMetricDefinition metadataValidators (eventCountMetric 4294967295 (by decide)) = none ∧
      isCobalt11MetricType (eventCountMetric 4294967295 (by decide)).metricType = false ∧
      Logger.validateEventCodes (eventCountClient 4294967295) [32768] = .kOK ∧
      Logger.validateEventCodes (eventCountClient 4294967295) [65536] = .kOK ∧
      Config.packEventCodes [32768] = Config.packEventCodes [65536] ∧
      ¬ Lossless (eventCountClient 4294967295) := by
  have hfirst : Logger.validateEventCodes (eventCountClient 4294967295) [32768] = .kOK := by
    decide +kernel
  have hsecond : Logger.validateEventCodes (eventCountClient 4294967295) [65536] = .kOK := by
    decide +kernel
  have hpacked : Config.packEventCodes [32768] = Config.packEventCodes [65536] := by decide +kernel
  refine ⟨by decide +kernel, rfl, hfirst, hsecond, hpacked, fun h => ?_⟩
  obtain ⟨k, k', heq⟩ := h.inj _ _ hfirst hsecond hpacked
  exact absurd (List.cons.inj heq).1 (by decide)

end Cobalt.ConfigValidator
