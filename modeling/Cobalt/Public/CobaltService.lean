import Cobalt.Logger.UndatedEventManager
import Cobalt.ObservationStore.FileObservationStore

/-!
# The service

A `CobaltService` has the two stores that logged events end up in, the observation store and the
aggregate store, and the `UndatedEventManager`. Events are logged through loggers of the projects,
and the device sets a policy for the collection of data.

The observation store is either of the two kinds. Its contents are of some type `W`; what storing an
observation and deleting the data do to them are parameters.

## Main definitions

* `ObservationStore`: the contents of the store and its flag.
* `Environment`: the other parts of the service, which do not change.
* `CobaltService`, with `setDataCollectionPolicy`, `systemClockIsAccurate`, `newLogger` and `log`.
* `Call`, `CobaltService.step`, `CobaltService.run`: the calls of a client, one after another.
-/

namespace Cobalt.Public

open LocalAggregation Logger ObservationStore

/-! ### The observation store and its writer -/

/-- An observation store: `is_disabled_`, and what is stored. -/
structure ObservationStore (W : Type) where
  isDisabled : Bool := false
  contents : W

/-- What the service works with: the encoder, the observation encrypter, the kind of the observation
store, the days and hours of system times, the release stage, and the project of the internal
logger. -/
structure Environment (Obs Enc W : Type) where
  encode : EncodeRequest → Status × Option Obs
  encrypt : Obs → Option Enc
  storeObservation : Enc → W → StoreStatus × W
  deleteData : W → W
  toTimestamp : ℤ → Timestamp
  releaseStage : Option ℕ
  internalLogger : Option ProjectContext
  internalMetricIds : InternalMetricIds

variable {Obs Enc W : Type}

namespace ObservationStore

/-- `StoreObservation`. -/
def storeObservation (env : Environment Obs Enc W) (observation : Enc) (store : ObservationStore W) :
    StoreStatus × ObservationStore W :=
  if store.isDisabled then (.kOk, store)
  else
    let r := env.storeObservation observation store.contents
    (r.1, { store with contents := r.2 })

/-- `Disable`. -/
def disable (isDisabled : Bool) (store : ObservationStore W) : ObservationStore W :=
  { store with isDisabled }

/-- `DeleteData`. -/
def deleteData (env : Environment Obs Enc W) (store : ObservationStore W) : ObservationStore W :=
  { store with contents := env.deleteData store.contents }

end ObservationStore

/-- `ObservationWriter::WriteObservation`. -/
def writeObservation (env : Environment Obs Enc W) (observation : Obs) (store : ObservationStore W) :
    Status × ObservationStore W :=
  match env.encrypt observation with
  | none => (.kOther, store)
  | some encryptedObservation =>
    let r := store.storeObservation env encryptedObservation
    (if r.1 = .kOk then .kOK else .kOther, r.2)

/-- The event logger of the service. -/
def Environment.eventLogger (env : Environment Obs Enc W) : EventLogger Obs (ObservationStore W) where
  encode := env.encode
  writeObservation := writeObservation env
  releaseStage := env.releaseStage

/-! ### The service -/

/-- `DataCollectionPolicy`. -/
inductive DataCollectionPolicy
  | COLLECT_AND_UPLOAD
  | DO_NOT_UPLOAD
  | DO_NOT_COLLECT
  deriving DecidableEq, Repr

/-- A `CobaltService`. After a `CHECK` has failed it is not alive.

The last four fields are a record of the calls: the policy, the number of calls, the calls whose
events were given to the `UndatedEventManager`, and the calls whose events were logged while the
policy was `DO_NOT_COLLECT` or were pending when it became so. -/
structure CobaltService (W : Type) where
  stores : Stores (ObservationStore W)
  shippingManagerDisabled : Bool := false
  undatedEventManager : Option UndatedEventManager
  alive : Bool := true
  policy : DataCollectionPolicy := .COLLECT_AND_UPLOAD
  calls : ℕ := 0
  saved : List ℕ := []
  withheld : List ℕ := []

/-- The readings of the clocks in `Logger::Log`: the validated clock, the validated clock again, and
the monotonic clock. -/
structure Clocks where
  now : Option ℤ
  retry : Option ℤ
  monotonic : ℤ
  deriving DecidableEq, Repr

namespace CobaltService

/-- A new service, with what is in its stores from earlier. Both stores are enabled. -/
def new (aggregateStore : AggregateStore) (contents : W) (maxSavedEvents : ℕ) : CobaltService W where
  stores := ⟨LocalAggregation.disable false aggregateStore, { contents }⟩
  undatedEventManager := some { maxSavedEvents }

variable (env : Environment Obs Enc W)

/-- The calls whose events are in the queue of the `UndatedEventManager`. -/
def pending (s : CobaltService W) : List ℕ :=
  match s.undatedEventManager with
  | none => []
  | some m => m.savedRecords.map (·.call)

/-- `SetDataCollectionPolicy`. -/
def setDataCollectionPolicy (policy : DataCollectionPolicy) (s : CobaltService W) :
    CobaltService W :=
  match policy with
  | .COLLECT_AND_UPLOAD =>
    { s with
      stores := ⟨LocalAggregation.disable false s.stores.aggregateStore,
        s.stores.observationStore.disable false⟩
      shippingManagerDisabled := false
      policy }
  | .DO_NOT_UPLOAD =>
    { s with
      stores := ⟨LocalAggregation.disable false s.stores.aggregateStore,
        s.stores.observationStore.disable false⟩
      shippingManagerDisabled := true
      policy }
  | .DO_NOT_COLLECT =>
    { s with
      stores := ⟨LocalAggregation.deleteData (LocalAggregation.disable true s.stores.aggregateStore),
        (s.stores.observationStore.disable true).deleteData env⟩
      shippingManagerDisabled := true
      policy
      withheld := s.withheld ++ s.pending }

/-- `SystemClockIsAccurate`. The worker threads that it starts are not part of the model. -/
def systemClockIsAccurate (referenceSystemTime referenceMonotonicTime : ℤ) (now : ℕ → ℤ)
    (s : CobaltService W) : CobaltService W :=
  match s.undatedEventManager with
  | none => s
  | some m =>
    let r := m.flush env.eventLogger env.toTimestamp env.internalMetricIds env.internalLogger
      referenceSystemTime referenceMonotonicTime now s.stores
    { s with alive := !r.1, stores := r.2.2, undatedEventManager := none }

/-- `NewLogger`: the constructor of `Logger` registers the reports of the project. -/
def newLogger (context : ProjectContext) (s : CobaltService W) : CobaltService W :=
  { s with stores :=
      { s.stores with
        aggregateStore := (updateAggregationConfigs context s.stores.aggregateStore).2 } }

/-- `Logger::Log`, of a logger of the given project. -/
def log (context : ProjectContext) (metricId : ℕ) (type : EventType) (clocks : Clocks)
    (s : CobaltService W) : Status × CobaltService W :=
  let record := EventRecord.new context metricId type
  match prepareAndValidateEvent type.metricType record, record.metric with
  | .kOK, some metric =>
    match clocks.now, s.undatedEventManager with
    | some now, _ =>
      let r := env.eventLogger.log (env.toTimestamp now) metric record.event s.stores
      (r.1, { s with stores := r.2 })
    | none, some m =>
      let r := m.save env.eventLogger env.toTimestamp ⟨clocks.monotonic, metric, record.event, s.calls⟩
        s.stores
      (r.1, { s with
        undatedEventManager := some r.2.1
        stores := r.2.2
        saved := s.saved ++ [s.calls] })
    | none, none =>
      match clocks.retry with
      | none => (.kOther, s)
      | some now =>
        let r := env.eventLogger.log (env.toTimestamp now) metric record.event s.stores
        (r.1, { s with stores := r.2 })
  | .kOK, none => (.kInvalidArguments, s)
  | status, _ => (status, s)

end CobaltService

/-! ### Calls -/

/-- A call. The methods of a logger that a client calls are sequences of calls of `Logger::Log`. -/
inductive Call
  | setDataCollectionPolicy (policy : DataCollectionPolicy)
  | systemClockIsAccurate (referenceSystemTime referenceMonotonicTime : ℤ) (now : ℕ → ℤ)
  | newLogger (context : ProjectContext)
  | log (context : ProjectContext) (metricId : ℕ) (type : EventType) (clocks : Clocks)

/-- The calls of `Logger::Log` that one of the methods `LogEvent`, `LogEventCount`,
`LogElapsedTime`, `LogFrameRate`, `LogMemoryUsage`, `LogIntHistogram` and `LogCustomEvent` makes:
`LoggerCalled` logs two events about the call with the internal logger, unless the logger is the
internal one. The codes of the methods are generated from the internal registry. -/
def logMethod (env : Environment Obs Enc W) (methodCode : MetricType → ℕ) (isInternalLogger : Bool)
    (projectName : String) (context : ProjectContext) (metricId : ℕ) (type : EventType)
    (clocks : Fin 3 → Clocks) : List Call :=
  let method := methodCode type.metricType
  let internalCalls :=
    match isInternalLogger, env.internalLogger with
    | false, some internal =>
      [.log internal env.internalMetricIds.loggerCallsMade (.eventCountEvent [method] "" 0 1) (clocks 0),
        .log internal env.internalMetricIds.perProjectLoggerCallsMade
          (.eventCountEvent [method] projectName 0 1) (clocks 1)]
    | _, _ => []
  internalCalls ++ [.log context metricId type (clocks 2)]

namespace CobaltService

/-- The service after a call. -/
def perform (env : Environment Obs Enc W) (call : Call) (s : CobaltService W) : CobaltService W :=
  match call with
  | .setDataCollectionPolicy policy =>
    { s.setDataCollectionPolicy env policy with calls := s.calls + 1 }
  | .systemClockIsAccurate referenceSystemTime referenceMonotonicTime now =>
    { s.systemClockIsAccurate env referenceSystemTime referenceMonotonicTime now with
      calls := s.calls + 1 }
  | .newLogger context => { s.newLogger context with calls := s.calls + 1 }
  | .log context metricId type clocks =>
    { (s.log env context metricId type clocks).2 with
      calls := s.calls + 1
      withheld := if s.policy = .DO_NOT_COLLECT then s.withheld ++ [s.calls] else s.withheld }

/-- Calls are only made while the service is alive. -/
def step (env : Environment Obs Enc W) (s : CobaltService W) (call : Call) :
    Option (CobaltService W) :=
  if s.alive then some (s.perform env call) else none

/-- The service after several calls. -/
def run (env : Environment Obs Enc W) (s : CobaltService W) (calls : List Call) :
    Option (CobaltService W) :=
  calls.foldlM (step env) s

end CobaltService

end Cobalt.Public
