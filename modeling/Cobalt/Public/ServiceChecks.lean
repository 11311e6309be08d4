import Cobalt.Public.CollectionPolicy

/-!
# The checks of the service

A `CobaltService` is constructed from a configuration that may have no registry, or a registry
without the project of the internal metrics. Without the project there is no internal logger, and
the service goes on without one. Without a registry the storage of local aggregates cannot be
initialized, and its constructor fails a `CHECK`.

## Main definitions

* `Check`: the checks.
* `CobaltConfig`, `construct`: the constructor of the service.
* `runChecked`: a service and the calls that are made on it, up to the first check that fails.

## Main results

* `performChecked_ok`: which calls pass the checks.
* `checks_of_registry`: with a registry the checks pass in every run.
-/

namespace Cobalt.Public

open LocalAggregation Logger

variable {Obs Enc W : Type}

/-! ### Construction -/

/-- A `CHECK` that fails, by the function that makes it: `CobaltService::NewLogger` with the ids of
a project, and the constructors of `LocalAggregateStorage` and `InternalMetricsImpl`. -/
inductive Check
  | newLogger
  | localAggregateStorage
  | internalMetricsImpl
  deriving DecidableEq, Repr

/-- A configuration: the registry, by the function `NewProjectContext` of its factory, the parts of
the service with the exception of the internal logger, and what is in the stores from earlier. -/
structure CobaltConfig (Obs Enc W : Type) where
  globalRegistry : Option (ℕ → ℕ → Option ProjectContext)
  environment : Environment Obs Enc W
  aggregateStore : AggregateStore
  contents : W

/-- The ids of the project of the internal metrics. The constants are generated from the internal
registry. -/
structure InternalProjectIds where
  kCustomerId : ℕ
  kProjectId : ℕ

/-- The constructor of `InternalMetricsImpl`. -/
def newInternalMetricsImpl : Option ProjectContext → Except Check ProjectContext
  | some logger => .ok logger
  | none => .error .internalMetricsImpl

/-- The internal metrics of a `Logger`, which are not made without an internal logger. -/
def newLoggerInternalMetrics (internalLogger : Option ProjectContext) :
    Except Check (Option ProjectContext) :=
  if internalLogger.isSome then (newInternalMetricsImpl internalLogger).map some else .ok none

/-- The constructor of `LocalAggregateStorage`. -/
def newLocalAggregateStorage (factory : Option (ℕ → ℕ → Option ProjectContext)) :
    Except Check Unit :=
  if factory.isSome then .ok () else .error .localAggregateStorage

/-- `NewLogger` with the ids of a project: the project of the logger, `none` where there is no
logger. -/
def newLoggerOf (factory : Option (ℕ → ℕ → Option ProjectContext)) (customerId projectId : ℕ) :
    Except Check (Option ProjectContext) :=
  match factory with
  | none => .error .newLogger
  | some newProjectContext => .ok (newProjectContext customerId projectId)

/-- The constructor of `CobaltService`. The internal logger is constructed last, and registers the
reports of its project. -/
def construct (ids : InternalProjectIds) (maxSavedEvents : ℕ) (cfg : CobaltConfig Obs Enc W) :
    Except Check (Environment Obs Enc W × CobaltService W) := do
  newLocalAggregateStorage cfg.globalRegistry
  let internalLogger ←
    if cfg.globalRegistry.isSome then newLoggerOf cfg.globalRegistry ids.kCustomerId ids.kProjectId
    else .ok none
  let s := CobaltService.new cfg.aggregateStore cfg.contents maxSavedEvents
  .ok ({ cfg.environment with internalLogger }, internalLogger.elim s fun context => s.newLogger context)

/-! ### Calls -/

/-- The checks that a call makes. A `Logger` makes its internal metrics when it is constructed, and
the flush makes them without a test for the internal logger. -/
def checkCall (env : Environment Obs Enc W) (s : CobaltService W) : Call → Except Check Unit
  | .newLogger _ => (newLoggerInternalMetrics env.internalLogger).map fun _ => ()
  | .systemClockIsAccurate _ _ _ =>
    if s.undatedEventManager.isSome then
      (newInternalMetricsImpl env.internalLogger).map fun _ => ()
    else .ok ()
  | _ => .ok ()

/-- A call that passes its checks. -/
def performChecked (env : Environment Obs Enc W) (s : CobaltService W) (call : Call) :
    Except Check (CobaltService W) :=
  (checkCall env s call).map fun _ => s.perform env call

/-- A service is constructed, and calls are made on it. -/
def runChecked (ids : InternalProjectIds) (maxSavedEvents : ℕ) (cfg : CobaltConfig Obs Enc W)
    (calls : List Call) : Except Check (CobaltService W) := do
  let (env, s) ← construct ids maxSavedEvents cfg
  calls.foldlM (performChecked env) s

/-- The clock becomes accurate. -/
def Call.IsSystemClockIsAccurate : Call → Prop
  | .systemClockIsAccurate _ _ _ => True
  | _ => False

/-! ### Which calls pass -/

/-- `Logger::Log` makes no check of these. -/
theorem alive_log (env : Environment Obs Enc W) (context : ProjectContext) (metricId : ℕ)
    (type : EventType) (clocks : Clocks) (s : CobaltService W) :
    (s.log env context metricId type clocks).2.alive = s.alive := by
  simp only [CobaltService.log]
  split
  · split
    · rfl
    · rfl
    · split <;> rfl
  · rfl
  · rfl

/-- A service dies exactly in a call that fails a check. -/
theorem alive_perform_iff (env : Environment Obs Enc W) {s : CobaltService W} (halive : s.alive = true)
    (call : Call) : (s.perform env call).alive = true ↔ checkCall env s call = .ok () := by
  cases call with
  | setDataCollectionPolicy policy =>
    refine iff_of_true ?_ rfl
    cases policy <;> exact halive
  | newLogger context =>
    refine iff_of_true halive ?_
    rw [checkCall, newLoggerInternalMetrics]
    cases env.internalLogger <;> rfl
  | log context metricId type clocks =>
    exact iff_of_true ((alive_log env context metricId type clocks s).trans halive) rfl
  | systemClockIsAccurate referenceSystemTime referenceMonotonicTime now =>
    rw [CobaltService.perform, CobaltService.systemClockIsAccurate, checkCall]
    cases s.undatedEventManager with
    | none => exact iff_of_true halive rfl
    | some m =>
      simp only [UndatedEventManager.flush, Option.isSome_some, if_true]
      cases env.internalLogger with
      | none => exact iff_of_false Bool.false_ne_true (by simp [newInternalMetricsImpl, Except.map])
      | some internal => exact iff_of_true rfl rfl

/-- A call passes when there is an internal logger, or the call does not flush. -/
theorem performChecked_ok (env : Environment Obs Enc W) (s : CobaltService W) {call : Call}
    (h : env.internalLogger.isSome ∨ ¬ call.IsSystemClockIsAccurate) :
    performChecked env s call = .ok (s.perform env call) := by
  have hcheck : checkCall env s call = .ok () := by
    cases call with
    | setDataCollectionPolicy policy => rfl
    | newLogger context =>
      rw [checkCall, newLoggerInternalMetrics]
      cases env.internalLogger <;> rfl
    | log context metricId type clocks => rfl
    | systemClockIsAccurate referenceSystemTime referenceMonotonicTime now =>
      obtain ⟨internal, hinternal⟩ := Option.isSome_iff_exists.mp (h.resolve_right (not_not.mpr trivial))
      rw [checkCall, hinternal]
      split_ifs <;> rfl
  rw [performChecked, hcheck]
  rfl

theorem foldlM_performChecked_ok (env : Environment Obs Enc W) {calls : List Call}
    (h : env.internalLogger.isSome ∨ ∀ call ∈ calls, ¬ call.IsSystemClockIsAccurate)
    (s : CobaltService W) : ∃ s', calls.foldlM (performChecked env) s = .ok s' := by
  induction calls generalizing s with
  | nil => exact ⟨s, rfl⟩
  | cons call calls ih =>
    have hcall := performChecked_ok env s (h.imp_right fun hcalls => hcalls call List.mem_cons_self)
    rw [List.foldlM_cons, hcall]
    exact ih (h.imp_right fun hcalls call' hcall' => hcalls call' (List.mem_cons_of_mem call hcall')) _

/-- **The checks.** Without a registry no service can be constructed. With one, the checks pass in
every run if the registry has the project of the internal metrics; without the project they pass in
every run up to the flush. -/
theorem checks_of_registry (ids : InternalProjectIds) (maxSavedEvents : ℕ)
    (cfg : CobaltConfig Obs Enc W) (calls : List Call) :
    (cfg.globalRegistry = none →
      runChecked ids maxSavedEvents cfg calls = .error .localAggregateStorage) ∧
    ∀ newProjectContext, cfg.globalRegistry = some newProjectContext →
      (newProjectContext ids.kCustomerId ids.kProjectId).isSome ∨
        (∀ call ∈ calls, ¬ call.IsSystemClockIsAccurate) →
      ∃ s, runChecked ids maxSavedEvents cfg calls = .ok s := by
  refine ⟨fun hnone => ?_, fun newProjectContext hregistry h => ?_⟩
  · rw [runChecked, construct, hnone]
    rfl
  · rw [runChecked, construct, hregistry]
    exact foldlM_performChecked_ok _ h _

/-! ### A configuration without a registry -/

/-- A configuration, with some registry or without one. -/
def listConfig (globalRegistry : Option (ℕ → ℕ → Option ProjectContext)) :
    CobaltConfig EncodeRequest EncodeRequest (List EncodeRequest) where
  globalRegistry := globalRegistry
  environment := listEnvironment
  aggregateStore := newService.stores.aggregateStore
  contents := []

/-- Without a registry the constructor fails a check. -/
theorem construct_withoutRegistry :
    ¬ ∃ s, runChecked ⟨2, 1⟩ 10000 (listConfig none) [] = .ok s := by
  rintro ⟨s, hs⟩
  exact absurd hs nofun

/-- With the internal project, and with an empty registry before the flush. -/
theorem checks_of_registry_internal :
    (∃ s, runChecked ⟨2, 1⟩ 10000
      (listConfig (some fun customerId _ => if customerId = 2 then some internalProject else none))
      (.newLogger clientProject :: clientLogs none ++ policyRestored) = .ok s) ∧
    ∃ s, runChecked ⟨2, 1⟩ 10000 (listConfig (some fun _ _ => none))
      [.newLogger clientProject, .setDataCollectionPolicy .DO_NOT_UPLOAD] = .ok s := by
  refine ⟨(checks_of_registry ⟨2, 1⟩ 10000 (listConfig (some _)) _).2 _ rfl (Or.inl rfl),
    (checks_of_registry ⟨2, 1⟩ 10000 (listConfig (some _)) _).2 _ rfl (Or.inr ?_)⟩
  simp [Call.IsSystemClockIsAccurate]

end Cobalt.Public
