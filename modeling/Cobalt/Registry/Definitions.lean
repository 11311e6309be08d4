import Mathlib.Algebra.Order.Ring.Int

/-!
# The parts of the registry that the client reads

Metric and report definitions as the logger and the local aggregator receive them, with the fields
that these two read. An enumeration of the registry is open, as every enumeration of a `proto3`
message: a registry newer than the client may hold a number for which the client has no name, and
the client's `switch` statements send it to their `default` branch.

## Main definitions

* `Status`: the status codes of the logger.
* `OnDeviceAggregationWindow`, `MetricDefinition`, `ReportDefinition`, `Project`.
-/

namespace Cobalt

/-- Status codes returned by the logger and the local aggregator. -/
inductive Status
  | kOK
  | kInvalidArguments
  | kInvalidConfig
  | kTooBig
  | kFull
  | kOther
  deriving DecidableEq, Repr

/-- `MetricDefinition.TimeZonePolicy`. -/
inductive TimeZonePolicy
  | UTC
  | LOCAL
  | unrecognized (n : ℕ)
  deriving DecidableEq, Repr

/-- `MetricDefinition.MetricType`; `other` stands for `UNSET` and the types that no `switch` of the
modelled code names. -/
inductive MetricType
  | EVENT_OCCURRED
  | EVENT_COUNT
  | ELAPSED_TIME
  | FRAME_RATE
  | MEMORY_USAGE
  | INT_HISTOGRAM
  | CUSTOM
  | other (n : ℕ)
  deriving DecidableEq, Repr

/-- `ReportDefinition.ReportType`; `other` as for `MetricType`. -/
inductive ReportType
  | SIMPLE_OCCURRENCE_COUNT
  | EVENT_COMPONENT_OCCURRENCE_COUNT
  | NUMERIC_AGGREGATION
  | INT_RANGE_HISTOGRAM
  | CUSTOM_RAW_DUMP
  | NUMERIC_PERF_RAW_DUMP
  | UNIQUE_N_DAY_ACTIVES
  | PER_DEVICE_NUMERIC_STATS
  | PER_DEVICE_HISTOGRAM
  | other (n : ℕ)
  deriving DecidableEq, Repr

/-- `ReportDefinition.OnDeviceAggregationType`. -/
inductive OnDeviceAggregationType
  | SUM
  | MIN
  | MAX
  | unrecognized (n : ℕ)
  deriving DecidableEq, Repr

/-- `OnDeviceAggregationWindow`: a message with the `oneof` field `units`, of which nothing, the
hours or the days are set. -/
inductive OnDeviceAggregationWindow
  | unitsNotSet
  | hours (n : ℕ)
  | days (n : ℕ)
  deriving DecidableEq, Repr

/-- `MetricDefinition.MetricDimension`; of the map `event_codes` only the keys are read. -/
structure MetricDimension where
  maxEventCode : ℕ := 0
  eventCodes : List ℕ := []
  deriving DecidableEq, Repr

/-- `IntegerBuckets`: the `oneof` field `buckets`, of which the number of buckets is read. -/
inductive IntegerBuckets
  | bucketsNotSet
  | exponential (numBuckets : ℕ)
  | linear (numBuckets : ℕ)
  deriving DecidableEq, Repr

/-- `ReportDefinition`. -/
structure ReportDefinition where
  id : ℕ
  reportType : ReportType
  aggregationType : OnDeviceAggregationType := .SUM
  windowSize : List ℕ := []
  aggregationWindow : List OnDeviceAggregationWindow := []
  deriving DecidableEq, Repr

/-- `MetricDefinition`. The largest release stage is a field of the metadata of the metric; release
stages are compared by their numbers. -/
structure MetricDefinition where
  customerId : ℕ
  projectId : ℕ
  id : ℕ
  metricType : MetricType
  timeZonePolicy : TimeZonePolicy := .UTC
  intBuckets : Option IntegerBuckets := none
  maxReleaseStage : ℕ := 0
  metricDimensions : List MetricDimension := []
  reports : List ReportDefinition := []
  deriving DecidableEq, Repr

/-- `Project`, by its two ids. -/
structure Project where
  customerId : ℕ
  projectId : ℕ
  deriving DecidableEq, Repr

end Cobalt
