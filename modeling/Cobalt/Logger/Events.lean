import Cobalt.LocalAggregation.Update

/-!
# Events

An event is what a client logs for a metric. It is carried, together with the project and the
metric, by an `EventRecord`, from the logger to the local aggregator or, while the clock is not
accurate, to the `UndatedEventManager`.

## Main definitions

* `Event`, `EventRecord`.
* `Timestamp`, `timeToDayIndex`: the day and the hour that an event is dated with.
-/

namespace Cobalt.Logger

open LocalAggregation (ProjectContext)

/-- `HistogramBucket`. -/
structure HistogramBucket where
  index : ℕ
  count : ℕ
  deriving DecidableEq, Repr

/-- `CustomDimensionValue`. The bits stand for a floating-point value, which is never computed
with. -/
inductive CustomDimensionValue
  | dataNotSet
  | stringValue (value : String)
  | intValue (value : ℤ)
  | blobValue (value : List UInt8)
  | indexValue (value : ℕ)
  | doubleValue (bits : UInt64)
  deriving DecidableEq, Repr

/-- The `oneof` field `type` of `Event`, with the members that a logger fills in. -/
inductive EventType
  | typeNotSet
  | eventOccurredEvent (eventCode : ℕ)
  | eventCountEvent (eventCode : List ℕ) (component : String) (periodDurationMicros count : ℤ)
  | elapsedTimeEvent (eventCode : List ℕ) (component : String) (elapsedMicros : ℤ)
  | frameRateEvent (eventCode : List ℕ) (component : String) (framesPer1000Seconds : ℤ)
  | memoryUsageEvent (eventCode : List ℕ) (component : String) (bytes : ℤ)
  | intHistogramEvent (eventCode : List ℕ) (component : String) (buckets : List HistogramBucket)
  | customEvent (values : List (String × CustomDimensionValue))
  deriving DecidableEq, Repr

/-- `Event`. The three ids of the message are not set by the logger and not read. -/
structure Event where
  type : EventType
  dayIndex : ℕ := 0
  hourIndex : ℕ := 0
  deriving DecidableEq, Repr

/-- `EventRecord`. The metric is a null pointer where the project does not have it. -/
structure EventRecord where
  projectContext : ProjectContext
  metric : Option MetricDefinition
  event : Event
  deriving DecidableEq, Repr

/-- The constructor of `EventRecord`, with the event that the caller fills in. -/
def EventRecord.new (projectContext : ProjectContext) (metricId : ℕ) (type : EventType) :
    EventRecord where
  projectContext := projectContext
  metric := projectContext.getMetric metricId
  event := { type := type }

/-- A point in time, by the day and the hour that it falls on in the two time zones. -/
structure Timestamp where
  dayIndexUtc : ℕ
  dayIndexLocal : ℕ
  hourIndexUtc : ℕ
  hourIndexLocal : ℕ
  deriving DecidableEq, Repr

/-- `TimeToDayIndex`. -/
def timeToDayIndex (time : Timestamp) : TimeZonePolicy → ℕ
  | .LOCAL => time.dayIndexLocal
  | .UTC => time.dayIndexUtc
  | .unrecognized _ => U32.max

/-- `TimeToHourIndex`. -/
def timeToHourIndex (time : Timestamp) : TimeZonePolicy → ℕ
  | .LOCAL => time.hourIndexLocal
  | .UTC => time.hourIndexUtc
  | .unrecognized _ => U32.max

end Cobalt.Logger
