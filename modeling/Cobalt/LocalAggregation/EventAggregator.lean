import Cobalt.Lib.Loop
import Cobalt.Logger.Events
import Cobalt.Registry.PackedEventCodes

/-!
# The event aggregator

The `EventAggregator` registers the reports of a project with the `AggregateStore` and passes the
logged events on to it. For numeric aggregates the event codes of an event are packed into one
number here.

## Main definitions

* `updateAggregationConfigs`.
* `addUniqueActivesEvent`, `addEventCountEvent`, `addElapsedTimeEvent`, `addFrameRateEvent`,
  `addMemoryUsageEvent`.
-/

namespace Cobalt.LocalAggregation

open Logger (Event EventType)

/-! ### Registering the reports of a project -/

/-- One loop over the reports of a metric: those of the given types are registered. -/
def insertReportConfigs (context : ProjectContext) (metric : MetricDefinition)
    (isAggregated : ReportType → Bool) : AggregateStore → Status × AggregateStore :=
  Loop.runAll .kOK
    (fun report s =>
      if isAggregated report.reportType then maybeInsertReportConfig context metric report s
      else (.kOK, s))
    metric.reports

/-- The report type of the unique-actives reports. -/
def isUniqueActives : ReportType → Bool
  | .UNIQUE_N_DAY_ACTIVES => true
  | _ => false

/-- The report types with numeric aggregates. -/
def isPerDeviceNumeric : ReportType → Bool
  | .PER_DEVICE_NUMERIC_STATS | .PER_DEVICE_HISTOGRAM => true
  | _ => false

/-- `UpdateAggregationConfigs`. The case of `EVENT_OCCURRED` falls through to the next one. -/
def updateAggregationConfigs (context : ProjectContext) : AggregateStore → Status × AggregateStore :=
  Loop.runAll .kOK
    (fun metric s =>
      match metric.metricType with
      | .EVENT_OCCURRED =>
        let r := insertReportConfigs context metric isUniqueActives s
        if r.1 = .kOK then insertReportConfigs context metric isPerDeviceNumeric r.2 else r
      | .EVENT_COUNT | .ELAPSED_TIME | .FRAME_RATE | .MEMORY_USAGE =>
        insertReportConfigs context metric isPerDeviceNumeric s
      | _ => (.kOK, s))
    context.metrics

/-! ### Adding events

The functions read the metric and the event of an `EventRecord`. -/

section Add

variable (reportId : ℕ) (metric : MetricDefinition) (event : Event) (s : AggregateStore)

/-- The key under which the aggregates of a report of the metric are stored. -/
def reportKeyOf : ReportAggregationKey :=
  ⟨metric.customerId, metric.projectId, metric.id, reportId⟩

/-- `AddUniqueActivesEvent`. -/
def addUniqueActivesEvent : Status × AggregateStore :=
  match event.type with
  | .eventOccurredEvent eventCode =>
    setActive (reportKeyOf reportId metric) eventCode event.dayIndex s
  | _ => (.kInvalidArguments, s)

/-- The body of the other `Add*Event` functions. The event codes, the component and the value are
read from an event of the expected type, and from no other one. -/
def addNumericEvent (read : EventType → Option (List ℕ × String × ℤ)) : Status × AggregateStore :=
  match read event.type with
  | some (eventCode, component, value) =>
    updateNumericAggregate (reportKeyOf reportId metric) component
      (Config.packEventCodes eventCode) event.dayIndex value s
  | none => (.kInvalidArguments, s)

/-- `AddEventCountEvent`. -/
def addEventCountEvent : Status × AggregateStore :=
  addNumericEvent reportId metric event s fun
    | .eventCountEvent eventCode component _ count => some (eventCode, component, count)
    | _ => none

/-- `AddElapsedTimeEvent`. -/
def addElapsedTimeEvent : Status × AggregateStore :=
  addNumericEvent reportId metric event s fun
    | .elapsedTimeEvent eventCode component elapsedMicros =>
      some (eventCode, component, elapsedMicros)
    | _ => none

/-- `AddFrameRateEvent`. -/
def addFrameRateEvent : Status × AggregateStore :=
  addNumericEvent reportId metric event s fun
    | .frameRateEvent eventCode component framesPer1000Seconds =>
      some (eventCode, component, framesPer1000Seconds)
    | _ => none

/-- `AddMemoryUsageEvent`. -/
def addMemoryUsageEvent : Status × AggregateStore :=
  addNumericEvent reportId metric event s fun
    | .memoryUsageEvent eventCode component bytes => some (eventCode, component, bytes)
    | _ => none

end Add

end Cobalt.LocalAggregation
