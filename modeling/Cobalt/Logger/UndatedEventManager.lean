import Cobalt.Logger.EventLoggers

/-!
# Events without a date

While the clock is not accurate, the logger gives the events to the `UndatedEventManager`, which
keeps the last `maxSavedEvents` of them together with the time of a monotonic clock. When the clock
becomes accurate, `Flush` dates the saved events and passes them on, and reports through the
internal logger how many events were saved and how many of these were dropped, for each project.

## Main definitions

* `EventCounts`: the numbers of events of the projects.
* `UndatedEventManager`, with `save` and `flush`.
* `logAt`: `Logger::Log` from the moment when it has the time.
-/

namespace Cobalt.Logger

open LocalAggregation (ProjectContext)

/-! ### Counts -/

/-- A map from the ids of a customer and a project to a number of events, in the order of its
keys. -/
abbrev EventCounts := List ((ℕ × ℕ) × ℕ)

/-- `++counts[id]`. -/
def EventCounts.increment (id : ℕ × ℕ) : EventCounts → EventCounts
  | [] => [(id, 1)]
  | (id', n) :: counts =>
    if id = id' then (id', n + 1) :: counts
    else if id.1 < id'.1 ∨ (id.1 = id'.1 ∧ id.2 < id'.2) then (id, 1) :: (id', n) :: counts
    else (id', n) :: EventCounts.increment id counts

/-! ### Logging at a time -/

/-- The ids of the internal metrics. The constants are generated from the internal registry. -/
structure InternalMetricIds where
  loggerCallsMade : ℕ
  perProjectLoggerCallsMade : ℕ
  inaccurateClockEventsCached : ℕ
  inaccurateClockEventsDropped : ℕ
  deriving DecidableEq, Repr

section

variable {Obs W : Type} (logger : EventLogger Obs W) (toTimestamp : ℤ → Timestamp)

/-- What `Logger::Log` does with an event when it has the time: the event is validated, and passed
to its event logger. System times are in microseconds; their days and hours depend on the local time
zone and are a parameter. -/
def logAt (context : ProjectContext) (metricId : ℕ) (type : EventType) (now : ℤ) (s : Stores W) :
    Status × Stores W :=
  let record := EventRecord.new context metricId type
  match prepareAndValidateEvent type.metricType record, record.metric with
  | .kOK, some metric => logger.log (toTimestamp now) metric record.event s
  | .kOK, none => (.kInvalidArguments, s)
  | status, _ => (status, s)

/-! ### The manager -/

/-- `SavedEventRecord`: an event that was validated against its metric, and the time of the
monotonic clock, in nanoseconds. No function reads the last field, the number of the call that has
saved the event. -/
structure SavedEventRecord where
  monotonicTime : ℤ
  metric : MetricDefinition
  event : Event
  call : ℕ
  deriving DecidableEq, Repr

/-- `UndatedEventManager`. -/
structure UndatedEventManager where
  maxSavedEvents : ℕ
  savedRecords : List SavedEventRecord := []
  numEventsCached : EventCounts := []
  numEventsDropped : EventCounts := []
  flushed : Bool := false
  referenceSystemTime : ℤ := 0
  referenceMonotonicTime : ℤ := 0
  deriving DecidableEq, Repr

/-- The project that the events of a record are counted for. -/
def SavedEventRecord.id (record : SavedEventRecord) : ℕ × ℕ :=
  (record.metric.customerId, record.metric.projectId)

/-- `FlushSavedRecord`. The difference of the monotonic times is rounded to seconds, towards
zero. -/
def flushSavedRecord (record : SavedEventRecord) (referenceSystemTime referenceMonotonicTime : ℤ)
    (s : Stores W) : Status × Stores W :=
  let timeShift := (referenceMonotonicTime - record.monotonicTime).tdiv 1000000000
  let eventTimestamp := referenceSystemTime - timeShift * 1000000
  match record.metric.metricType with
  | .other _ => (.kInvalidArguments, s)
  | _ => logger.log (toTimestamp eventTimestamp) record.metric record.event s

namespace UndatedEventManager

/-- The part of `Save` before the flush. With room for no event at all `front` would be called on an
empty queue; the manager of the service has room for 10000. -/
def enqueue (record : SavedEventRecord) (m : UndatedEventManager) : UndatedEventManager :=
  let m :=
    if m.maxSavedEvents ≤ m.savedRecords.length then
      match m.savedRecords with
      | [] => m
      | droppedRecord :: savedRecords =>
        { m with
          savedRecords := savedRecords
          numEventsDropped := m.numEventsDropped.increment droppedRecord.id }
    else m
  { m with
    savedRecords := m.savedRecords ++ [record]
    numEventsCached := m.numEventsCached.increment record.id }

/-- `Save`. -/
def save (record : SavedEventRecord) (m : UndatedEventManager) (s : Stores W) :
    Status × UndatedEventManager × Stores W :=
  if m.flushed then
    let r := flushSavedRecord logger toTimestamp record m.referenceSystemTime
      m.referenceMonotonicTime s
    (r.1, m, r.2)
  else (.kOK, m.enqueue record, s)

/-- The calls of `InaccurateClockEventsCached` or `InaccurateClockEventsDropped`, one for each
project: the events that they log. The counts are converted to `uint32`. -/
def countEvents (metricId : ℕ) (counts : EventCounts) : List (ℕ × EventType) :=
  counts.map fun (id, n) =>
    (metricId, .eventCountEvent [] (toString id.1 ++ "/" ++ toString id.2) 0 (U32.ofNat n))

/-- The events that `Flush` logs about itself. -/
def internalEvents (ids : InternalMetricIds) (m : UndatedEventManager) : List (ℕ × EventType) :=
  countEvents ids.inaccurateClockEventsCached m.numEventsCached ++
    countEvents ids.inaccurateClockEventsDropped m.numEventsDropped

/-- The first loop of `Flush`: the statuses are only logged. -/
def flushRecords (records : List SavedEventRecord)
    (referenceSystemTime referenceMonotonicTime : ℤ) (s : Stores W) : Stores W :=
  records.foldl (fun s record => (flushSavedRecord logger toTimestamp record referenceSystemTime
    referenceMonotonicTime s).2) s

/-- The other loops of `Flush`. The internal logger reads the validated clock for each event. If it
had no time, the logger would call `Save`, and wait for the lock that `Flush` has. -/
def logInternalEvents (context : ProjectContext) (now : ℕ → ℤ) (events : List (ℕ × EventType))
    (s : Stores W) : Stores W :=
  events.zipIdx.foldl (fun s event =>
    (logAt logger toTimestamp context event.1.1 event.1.2 (now event.2) s).2) s

/-- `Flush`. The flag tells whether the `CHECK` for the internal logger fails. -/
def flush (ids : InternalMetricIds) (internalLogger : Option ProjectContext)
    (referenceSystemTime referenceMonotonicTime : ℤ) (now : ℕ → ℤ) (m : UndatedEventManager)
    (s : Stores W) : Bool × UndatedEventManager × Stores W :=
  let s := flushRecords logger toTimestamp m.savedRecords referenceSystemTime
    referenceMonotonicTime s
  let m := { m with savedRecords := [], referenceSystemTime, referenceMonotonicTime }
  match internalLogger with
  | none => (true, m, s)
  | some context =>
    (false, { m with numEventsCached := [], numEventsDropped := [], flushed := true },
      logInternalEvents logger toTimestamp context now (m.internalEvents ids) s)

end UndatedEventManager

end

end Cobalt.Logger
