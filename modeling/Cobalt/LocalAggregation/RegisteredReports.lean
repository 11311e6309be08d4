import Cobalt.Logger.EventLoggers
import Mathlib.Logic.Relation

/-!
# Registered reports

Three places have to agree on the reports with local aggregates: `UpdateAggregationConfigs`, which
registers them by the types of the metric and the report, `MaybeInsertReportConfig`, which chooses
the kind of aggregates for the report type, and `MaybeUpdateLocalAggregation`, with which each event
logger forwards its events. The registered reports are also kept in a store without data, which
takes the place of the other one when the data are deleted.

The registry is fixed: the store may be restored from one that was in use with the same registry.

## Main definitions

* `ValidRegistry`: what the registry validator accepts.
* `restoreAggregateStore`: the constructor of `AggregateStore`.
* `StoreCall`, `RegistryStep`, `Populated`: the calls on a store, and the stores that they can make.
* `Agrees`, `Registered`: the reports in a store are those of the registry, and those of a project
  are in the store.

## Main results

* `agrees_of_populated`: every store agrees with its registry.
* `registered_updateAggregationConfigs`: a registration that succeeds registers every report whose
  events are forwarded.
* `forwarded_accepted`: from then on every forwarded event is accepted.
-/

namespace Cobalt.LocalAggregation

open Logger (Event EventType maybeUpdateLocalAggregation)

/-! ### The registry -/

/-- A project that the registry validator accepts. -/
structure ValidProject (context : ProjectContext) : Prop where
  /-- The parser gives the ids of the project to its metrics. -/
  ids : ∀ metric ∈ context.metrics, metric.customerId = context.project.customerId ∧
    metric.projectId = context.project.projectId
  metrics : (context.metrics.map MetricDefinition.id).Nodup
  reports : ∀ metric ∈ context.metrics, (metric.reports.map ReportDefinition.id).Nodup
  aggregationTypes : ∀ metric ∈ context.metrics, ∀ report ∈ metric.reports,
    ∀ n, report.aggregationType ≠ .unrecognized n

/-- The projects of a registry, each with its own ids. -/
structure ValidRegistry (registry : List ProjectContext) : Prop where
  projects : (registry.map ProjectContext.project).Nodup
  valid : ∀ context ∈ registry, ValidProject context

/-- The key of a report of a project. -/
def registeredKey (context : ProjectContext) (metric : MetricDefinition)
    (report : ReportDefinition) : ReportAggregationKey :=
  ⟨context.project.customerId, context.project.projectId, metric.id, report.id⟩

/-- A key belongs to one report. -/
theorem ValidRegistry.report_eq {registry : List ProjectContext} (h : ValidRegistry registry)
    {context context' : ProjectContext} {metric metric' : MetricDefinition}
    {report report' : ReportDefinition} (hcontext : context ∈ registry)
    (hcontext' : context' ∈ registry) (hmetric : metric ∈ context.metrics)
    (hmetric' : metric' ∈ context'.metrics) (hreport : report ∈ metric.reports)
    (hreport' : report' ∈ metric'.reports)
    (hkey : registeredKey context metric report = registeredKey context' metric' report') :
    report = report' := by
  obtain ⟨hcustomer, hproject, hmetricId, hreportId⟩ := ReportAggregationKey.mk.inj hkey
  have hprojects : context.project = context'.project := by
    cases hp : context.project
    cases hp' : context'.project
    simp_all
  obtain rfl := List.inj_on_of_nodup_map h.projects hcontext hcontext' hprojects
  obtain rfl := List.inj_on_of_nodup_map (h.valid context hcontext).metrics hmetric hmetric'
    hmetricId
  exact List.inj_on_of_nodup_map ((h.valid context hcontext).reports metric hmetric) hreport
    hreport' hreportId

/-! ### Calls on a store -/

/-- `ConvertWindowSizesToAggregationDays`, for one report. -/
def convertWindowSizesToAggregationDays (config : AggregationConfig) : AggregationConfig :=
  { config with
    aggregationWindow :=
      (if config.windowSize ≠ [] ∧ config.aggregationWindow ≠ [] then []
        else config.aggregationWindow) ++ config.windowSize.map .days
    windowSize := [] }

/-- `MaybeUpgradeLocalAggregateStore`, `none` where it fails. -/
def maybeUpgradeLocalAggregateStore (store : LocalAggregateStore) : Option LocalAggregateStore :=
  if store.version = kCurrentLocalAggregateStoreVersion then some store
  else if store.version = 0 then
    some
      { version := kCurrentLocalAggregateStoreVersion
        byReportKey := store.byReportKey.filterMap fun _ aggregates =>
          some { aggregates with aggregationConfig :=
            convertWindowSizesToAggregationDays aggregates.aggregationConfig } }
  else none

/-- The constructor of `AggregateStore`, with what is read from the disk, `none` where nothing can
be read. Nothing here depends on the history. -/
def restoreAggregateStore (read : Option LocalAggregateStore)
    (obsHistory : AggregatedObservationHistoryStore) (backfillDays : ℕ)
    (hbackfill : backfillDays ≤ kMaxAllowedBackfillDays) : AggregateStore where
  localAggregateStore :=
    (maybeUpgradeLocalAggregateStore (read.getD makeNewLocalAggregateStore)).getD
      makeNewLocalAggregateStore
  emptyLocalAggregateStore := makeNewLocalAggregateStore
  obsHistory := obsHistory
  isDisabled := false
  backfillDays := backfillDays
  backfillDays_le := hbackfill

/-- A call on a store. -/
inductive StoreCall
  | updateAggregationConfigs (context : ProjectContext)
  | callAggregates (call : Call)
  | deleteData
  | disable (isDisabled : Bool)

/-- The store after a call, `none` when it fails a `CHECK`. -/
def StoreCall.run (s : AggregateStore) : StoreCall → Option AggregateStore
  | .updateAggregationConfigs context => some (LocalAggregation.updateAggregationConfigs context s).2
  | .callAggregates call => (call.run s).map Prod.snd
  | .deleteData => some (LocalAggregation.deleteData s)
  | .disable isDisabled => some (LocalAggregation.disable isDisabled s)

/-- A call in which only projects of the registry are registered, on the store as it is or after its
maps were rehashed. -/
def RegistryStep (registry : List ProjectContext) (s s' : AggregateStore) : Prop :=
  ∃ s₁ call, Rehashed s s₁ ∧
    (∀ context, call = .updateAggregationConfigs context → context ∈ registry) ∧
    StoreCall.run s₁ call = some s'

/-- The stores that can be made with a registry: an empty one, one after some calls, and one that is
restored from the disk of another one. -/
inductive Populated (registry : List ProjectContext) : AggregateStore → Prop
  | new (obsHistory : AggregatedObservationHistoryStore) (backfillDays : ℕ)
      (hbackfill : backfillDays ≤ kMaxAllowedBackfillDays) :
      Populated registry (restoreAggregateStore none obsHistory backfillDays hbackfill)
  | step {s s' : AggregateStore} (h : Populated registry s) (hstep : RegistryStep registry s s') :
      Populated registry s'
  | restore {s : AggregateStore} (h : Populated registry s)
      (obsHistory : AggregatedObservationHistoryStore) (backfillDays : ℕ)
      (hbackfill : backfillDays ≤ kMaxAllowedBackfillDays) :
      Populated registry
        (restoreAggregateStore (some s.localAggregateStore) obsHistory backfillDays hbackfill)

/-! ### What calls leave alone -/

/-- The report that some aggregates are for, and of which kind they are. -/
def ReportAggregates.shape (aggregates : ReportAggregates) : ReportDefinition × Bool × Bool :=
  (aggregates.aggregationConfig.report,
    match aggregates.type with
    | .uniqueActivesAggregates _ => (true, false)
    | .numericAggregates _ => (false, true)
    | .typeNotSet => (false, false))

/-- The shape of the aggregates under a key. -/
def LocalAggregateStore.shapeOf (store : LocalAggregateStore) (key : ReportAggregationKey) :
    Option (ReportDefinition × Bool × Bool) :=
  (store.byReportKey.lookup key).map ReportAggregates.shape

theorem shapeOf_setAggregates {s : AggregateStore} {key : ReportAggregationKey}
    {aggregates aggregates' : ReportAggregates}
    (hlookup : s.localAggregateStore.byReportKey.lookup key = some aggregates)
    (hshape : aggregates'.shape = aggregates.shape) (key' : ReportAggregationKey) :
    (s.setAggregates key aggregates').localAggregateStore.shapeOf key' =
      s.localAggregateStore.shapeOf key' := by
  simp only [AggregateStore.setAggregates, LocalAggregateStore.shapeOf,
    ProtoMap.lookup_insert_eq_ite]
  split_ifs with h
  · rw [h, hlookup, Option.map_some, Option.map_some, hshape]
  · rfl

/-- The reports of two stores and the kinds of their aggregates are the same. -/
def SameShapes (s s' : AggregateStore) : Prop :=
  (∀ key, s'.localAggregateStore.shapeOf key = s.localAggregateStore.shapeOf key) ∧
    s'.emptyLocalAggregateStore = s.emptyLocalAggregateStore

theorem sameShapes_setActive (key : ReportAggregationKey) (eventCode dayIndex : ℕ)
    (s : AggregateStore) : SameShapes s (setActive key eventCode dayIndex s).2 := by
  unfold setActive
  split_ifs
  · exact ⟨fun _ => rfl, rfl⟩
  · split
    · exact ⟨fun _ => rfl, rfl⟩
    · next aggregates hlookup =>
      split
      · next byEventCode htype =>
        refine ⟨shapeOf_setAggregates hlookup ?_, rfl⟩
        simp only [ReportAggregates.shape, htype]
      · exact ⟨fun _ => rfl, rfl⟩

theorem sameShapes_updateNumericAggregate (key : ReportAggregationKey) (component : String)
    (eventCode dayIndex : ℕ) (value : ℤ) (s : AggregateStore) :
    SameShapes s (updateNumericAggregate key component eventCode dayIndex value s).2 := by
  unfold updateNumericAggregate
  split_ifs
  · exact ⟨fun _ => rfl, rfl⟩
  · split
    · exact ⟨fun _ => rfl, rfl⟩
    · next aggregates hlookup =>
      split
      · next byComponent htype =>
        refine ⟨shapeOf_setAggregates hlookup ?_, rfl⟩
        simp only [ReportAggregates.shape, htype]
      · exact ⟨fun _ => rfl, rfl⟩

theorem shape_garbageCollectReport (backfillDays dayIndexUtc dayIndexLocal : ℕ)
    (aggregates : ReportAggregates) :
    (garbageCollectReport backfillDays dayIndexUtc dayIndexLocal aggregates).shape =
      aggregates.shape := by
  unfold garbageCollectReport
  dsimp only
  split
  · rfl
  · split
    · rfl
    · simp only [ReportAggregates.shape]
      cases aggregates.type <;> rfl

/-- No call on the aggregates changes a shape. -/
theorem sameShapes_call {s s' : AggregateStore} {call : Call} {out : List Written}
    (h : call.run s = some (out, s')) : SameShapes s s' := by
  cases call with
  | setActive key code d =>
    rw [← (Prod.mk.inj (Option.some.inj h)).2]
    exact sameShapes_setActive key code d s
  | updateNumericAggregate key component code d value =>
    rw [← (Prod.mk.inj (Option.some.inj h)).2]
    exact sameShapes_updateNumericAggregate key component code d value s
  | garbageCollect utc loc =>
    obtain ⟨-, status, hgc⟩ := of_run_garbageCollect h
    obtain ⟨_, _, _, hlookup⟩ := lookup_garbageCollect hgc
    refine ⟨fun key => ?_, ?_⟩
    · rw [LocalAggregateStore.shapeOf, hlookup, LocalAggregateStore.shapeOf, Option.map_map]
      congr 1
      funext aggregates
      exact shape_garbageCollectReport _ _ _ aggregates
    · simp only [garbageCollect] at hgc
      split_ifs at hgc
      rw [← (Prod.mk.inj (Option.some.inj hgc)).2]
  | generateObservations backend utc loc =>
    obtain ⟨status, hgen⟩ := of_run_generateObservations h
    obtain ⟨obsHistory, rfl⟩ := eq_of_generateObservations hgen
    exact ⟨fun _ => rfl, rfl⟩

theorem Rehashed.sameShapes {s s₁ : AggregateStore} (h : Rehashed s s₁) : SameShapes s s₁ := by
  obtain ⟨store, hsame, rfl⟩ := h
  refine ⟨fun key => ?_, rfl⟩
  have hkey := hsame key
  rw [LocalAggregateStore.shapeOf, LocalAggregateStore.shapeOf]
  generalize s.localAggregateStore.byReportKey.lookup key = a, store.byReportKey.lookup key = a'
    at hkey ⊢
  cases hkey with
  | none => rfl
  | @some a a' hrel =>
    obtain ⟨hconfig, htype⟩ := hrel
    simp only [Option.map_some, ReportAggregates.shape, hconfig]
    generalize a.type = type, a'.type = type' at htype
    cases htype <;> rfl

/-! ### Stores that agree with the registry -/

/-- The kind of aggregates that goes with a report type. -/
def shapeFor (report : ReportDefinition) : ReportDefinition × Bool × Bool :=
  (report, isUniqueActives report.reportType, isPerDeviceNumeric report.reportType)

/-- The reports in a store are those of the registry, with the kind of aggregates that goes with
them. -/
def Agrees (registry : List ProjectContext) (store : LocalAggregateStore) : Prop :=
  ∀ key shape, store.shapeOf key = some shape → ∃ context ∈ registry, ∃ metric ∈ context.metrics,
    ∃ report ∈ metric.reports, key = registeredKey context metric report ∧ shape = shapeFor report

/-- Both stores agree with the registry. -/
def BothAgree (registry : List ProjectContext) (s : AggregateStore) : Prop :=
  Agrees registry s.localAggregateStore ∧ Agrees registry s.emptyLocalAggregateStore

theorem agrees_makeNewLocalAggregateStore (registry : List ProjectContext) :
    Agrees registry makeNewLocalAggregateStore := by
  intro key shape h
  exact absurd h (by simp [LocalAggregateStore.shapeOf, makeNewLocalAggregateStore])

/-- The aggregates of a report that is registered. -/
theorem shape_populateReportAggregates {context : ProjectContext} {metric : MetricDefinition}
    {report : ReportDefinition} {aggregates : ReportAggregates}
    (h : populateReportAggregates context metric report = some aggregates) :
    aggregates.shape = shapeFor report := by
  obtain ⟨windows, _, h⟩ := Option.bind_eq_some_iff.mp h
  rw [shapeFor]
  cases hr : report.reportType <;> rw [hr] at h <;> cases h <;> rfl

/-- One half of `MaybeInsertReportConfig`: the key is in the store, and the other ones are as
they were. -/
theorem shapeOf_insertReportConfig {store store' : LocalAggregateStore} {context : ProjectContext}
    {metric : MetricDefinition} {report : ReportDefinition}
    (h : insertReportConfig store (registeredKey context metric report)
      (populateReportAggregates context metric report) = some store') :
    (store'.shapeOf (registeredKey context metric report)).isSome ∧
      ∀ key, store'.shapeOf key = store.shapeOf key ∨
        (key = registeredKey context metric report ∧ store.shapeOf key = none ∧
          store'.shapeOf key = some (shapeFor report)) := by
  rw [insertReportConfig] at h
  split_ifs at h with hpresent
  · obtain rfl := Option.some.inj h
    refine ⟨?_, fun _ => Or.inl rfl⟩
    rwa [LocalAggregateStore.shapeOf, Option.isSome_map]
  · obtain ⟨aggregates, haggregates, rfl⟩ := Option.map_eq_some_iff.mp h
    have hshape := shape_populateReportAggregates haggregates
    simp only [LocalAggregateStore.shapeOf, ProtoMap.lookup_insert_eq_ite]
    refine ⟨by simp, fun key => ?_⟩
    split_ifs with hkey
    · refine Or.inr ⟨hkey, ?_, by rw [Option.map_some, hshape]⟩
      rw [hkey, Option.not_isSome_iff_eq_none.mp hpresent]
      rfl
    · exact Or.inl rfl

/-- What a registration does to one of the stores: it keeps the keys and agrees with the
registry. -/
structure Registers (registry : List ProjectContext) (store store' : LocalAggregateStore) : Prop where
  agrees : Agrees registry store → Agrees registry store'
  keeps : ∀ key, (store.shapeOf key).isSome → (store'.shapeOf key).isSome

theorem Registers.refl (registry : List ProjectContext) (store : LocalAggregateStore) :
    Registers registry store store :=
  ⟨id, fun _ => id⟩

theorem Registers.trans {registry : List ProjectContext} {store₁ store₂ store₃ : LocalAggregateStore}
    (h : Registers registry store₁ store₂) (h' : Registers registry store₂ store₃) :
    Registers registry store₁ store₃ :=
  ⟨h'.agrees ∘ h.agrees, fun key => h'.keeps key ∘ h.keeps key⟩

theorem registers_insertReportConfig {registry : List ProjectContext}
    {store store' : LocalAggregateStore} {context : ProjectContext} {metric : MetricDefinition}
    {report : ReportDefinition} (hcontext : context ∈ registry) (hmetric : metric ∈ context.metrics)
    (hreport : report ∈ metric.reports)
    (h : insertReportConfig store (registeredKey context metric report)
      (populateReportAggregates context metric report) = some store') :
    Registers registry store store' := by
  obtain ⟨_, hshapes⟩ := shapeOf_insertReportConfig h
  refine ⟨fun hagrees key shape hshape => ?_, fun key hsome => ?_⟩
  · rcases hshapes key with heq | ⟨rfl, _, heq⟩
    · exact hagrees key shape (heq ▸ hshape)
    · rw [heq] at hshape
      exact ⟨context, hcontext, metric, hmetric, report, hreport, rfl, (Option.some.inj hshape).symm⟩
  · rcases hshapes key with heq | ⟨_, hnone, _⟩
    · rwa [heq]
    · rw [hnone] at hsome
      exact absurd hsome Bool.false_ne_true

/-- What a registration does to both stores. -/
def BothRegister (registry : List ProjectContext) (s s' : AggregateStore) : Prop :=
  Registers registry s.localAggregateStore s'.localAggregateStore ∧
    Registers registry s.emptyLocalAggregateStore s'.emptyLocalAggregateStore

/-- The key is in both stores. -/
def InBoth (s : AggregateStore) (key : ReportAggregationKey) : Prop :=
  (s.localAggregateStore.shapeOf key).isSome ∧ (s.emptyLocalAggregateStore.shapeOf key).isSome

theorem BothRegister.inBoth {registry : List ProjectContext} {s s' : AggregateStore}
    (h : BothRegister registry s s') {key : ReportAggregationKey} (hkey : InBoth s key) :
    InBoth s' key :=
  ⟨h.1.keeps key hkey.1, h.2.keeps key hkey.2⟩

theorem BothRegister.refl (registry : List ProjectContext) (s : AggregateStore) :
    BothRegister registry s s :=
  ⟨.refl _ _, .refl _ _⟩

theorem BothRegister.trans {registry : List ProjectContext} (s₁ s₂ s₃ : AggregateStore)
    (h : BothRegister registry s₁ s₂) (h' : BothRegister registry s₂ s₃) :
    BothRegister registry s₁ s₃ :=
  ⟨h.1.trans h'.1, h.2.trans h'.2⟩

/-- `MaybeInsertReportConfig` registers the report in both stores if it succeeds. -/
theorem maybeInsertReportConfig_spec {registry : List ProjectContext} {context : ProjectContext}
    {metric : MetricDefinition} {report : ReportDefinition} (hcontext : context ∈ registry)
    (hmetric : metric ∈ context.metrics) (hreport : report ∈ metric.reports) (s : AggregateStore) :
    BothRegister registry s (maybeInsertReportConfig context metric report s).2 ∧
      ((maybeInsertReportConfig context metric report s).1 = .kOK →
        InBoth (maybeInsertReportConfig context metric report s).2
          (registeredKey context metric report)) := by
  simp only [maybeInsertReportConfig]
  cases hlocal : insertReportConfig s.localAggregateStore (registeredKey context metric report)
      (populateReportAggregates context metric report) with
  | none =>
    rw [registeredKey] at hlocal
    rw [hlocal]
    exact ⟨.refl _ _, fun hok => absurd hok (by simp)⟩
  | some store =>
    have hregisters := registers_insertReportConfig hcontext hmetric hreport hlocal
    have hpresent := (shapeOf_insertReportConfig hlocal).1
    rw [registeredKey] at hlocal
    rw [hlocal]
    dsimp only
    cases hempty : insertReportConfig s.emptyLocalAggregateStore (registeredKey context metric report)
        (populateReportAggregates context metric report) with
    | none =>
      rw [registeredKey] at hempty
      rw [hempty]
      exact ⟨⟨hregisters, .refl _ _⟩, fun hok => absurd hok (by simp)⟩
    | some empty =>
      have hregisters' := registers_insertReportConfig hcontext hmetric hreport hempty
      have hpresent' := (shapeOf_insertReportConfig hempty).1
      rw [registeredKey] at hempty
      rw [hempty]
      exact ⟨⟨hregisters, hregisters'⟩, fun _ => ⟨hpresent, hpresent'⟩⟩

/-- One loop over the reports of a metric registers those of the given types. -/
theorem insertReportConfigs_spec {registry : List ProjectContext} {context : ProjectContext}
    {metric : MetricDefinition} (hcontext : context ∈ registry) (hmetric : metric ∈ context.metrics)
    (isAggregated : ReportType → Bool) (s : AggregateStore) :
    BothRegister registry s (insertReportConfigs context metric isAggregated s).2 ∧
      ((insertReportConfigs context metric isAggregated s).1 = .kOK →
        ∀ report ∈ metric.reports, isAggregated report.reportType →
          InBoth (insertReportConfigs context metric isAggregated s).2
            (registeredKey context metric report)) := by
  have hbody : ∀ report ∈ metric.reports, ∀ s, BothRegister registry s
      (if isAggregated report.reportType then maybeInsertReportConfig context metric report s
        else (.kOK, s)).2 := by
    intro report hreport s
    split_ifs
    · exact (maybeInsertReportConfig_spec hcontext hmetric hreport s).1
    · exact .refl _ _
  refine ⟨Loop.runAll_rel (BothRegister.refl registry) BothRegister.trans hbody s,
    fun hok report hreport htype => ?_⟩
  obtain ⟨s₁, _, hreportOk, hafter⟩ :=
    Loop.runAll_ok_mem (BothRegister.refl registry) BothRegister.trans hbody hok hreport
  rw [if_pos htype] at hreportOk hafter
  exact hafter.inBoth ((maybeInsertReportConfig_spec hcontext hmetric hreport s₁).2 hreportOk)

/-- The events of the metric are forwarded for the report. -/
def Forwards (metric : MetricDefinition) (report : ReportDefinition) : Prop :=
  match metric.metricType with
  | .EVENT_OCCURRED => isUniqueActives report.reportType
  | .EVENT_COUNT | .ELAPSED_TIME | .FRAME_RATE | .MEMORY_USAGE => isPerDeviceNumeric report.reportType
  | _ => False

/-- The reports of a project whose events are forwarded are in both stores. -/
def Registered (context : ProjectContext) (s : AggregateStore) : Prop :=
  ∀ metric ∈ context.metrics, ∀ report ∈ metric.reports, Forwards metric report →
    InBoth s (registeredKey context metric report)

/-- The body of the loop of `UpdateAggregationConfigs`. -/
theorem updateMetric_spec {registry : List ProjectContext} {context : ProjectContext}
    {metric : MetricDefinition} (hcontext : context ∈ registry) (hmetric : metric ∈ context.metrics)
    (s : AggregateStore) {r : Status × AggregateStore}
    (hr : r = match metric.metricType with
      | .EVENT_OCCURRED =>
        let r := insertReportConfigs context metric isUniqueActives s
        if r.1 = .kOK then insertReportConfigs context metric isPerDeviceNumeric r.2 else r
      | .EVENT_COUNT | .ELAPSED_TIME | .FRAME_RATE | .MEMORY_USAGE =>
        insertReportConfigs context metric isPerDeviceNumeric s
      | _ => (.kOK, s)) :
    BothRegister registry s r.2 ∧
      (r.1 = .kOK → ∀ report ∈ metric.reports, Forwards metric report →
        InBoth r.2 (registeredKey context metric report)) := by
  have hunique := insertReportConfigs_spec hcontext hmetric isUniqueActives s
  have hnumeric := fun s => insertReportConfigs_spec hcontext hmetric isPerDeviceNumeric s
  subst hr
  simp only [Forwards]
  cases metric.metricType with
  | EVENT_OCCURRED =>
    dsimp only
    split_ifs with hok
    · -- The second loop keeps what the first one has registered.
      refine ⟨BothRegister.trans _ _ _ hunique.1 (hnumeric _).1, fun _ report hreport htype => ?_⟩
      exact (hnumeric _).1.inBoth (hunique.2 hok report hreport htype)
    · exact ⟨hunique.1, fun h => absurd h hok⟩
  | EVENT_COUNT => exact hnumeric s
  | ELAPSED_TIME => exact hnumeric s
  | FRAME_RATE => exact hnumeric s
  | MEMORY_USAGE => exact hnumeric s
  | INT_HISTOGRAM => exact ⟨.refl _ _, fun _ _ _ h => absurd h id⟩
  | CUSTOM => exact ⟨.refl _ _, fun _ _ _ h => absurd h id⟩
  | other n => exact ⟨.refl _ _, fun _ _ _ h => absurd h id⟩

/-- `UpdateAggregationConfigs` registers the reports of the project if it succeeds. -/
theorem registered_updateAggregationConfigs {registry : List ProjectContext}
    {context : ProjectContext} (hcontext : context ∈ registry) (s : AggregateStore) :
    BothRegister registry s (updateAggregationConfigs context s).2 ∧
      ((updateAggregationConfigs context s).1 = .kOK →
        Registered context (updateAggregationConfigs context s).2) := by
  have hbody := fun metric (hmetric : metric ∈ context.metrics) s =>
    (updateMetric_spec hcontext hmetric s rfl).1
  refine ⟨Loop.runAll_rel (BothRegister.refl registry) BothRegister.trans hbody s,
    fun hok metric hmetric report hreport hforwards => ?_⟩
  obtain ⟨s₁, _, hmetricOk, hafter⟩ :=
    Loop.runAll_ok_mem (BothRegister.refl registry) BothRegister.trans hbody hok hmetric
  exact hafter.inBoth
    ((updateMetric_spec hcontext hmetric s₁ rfl).2 hmetricOk report hreport hforwards)

/-! ### Whole runs -/

theorem SameShapes.agrees {registry : List ProjectContext} {s s' : AggregateStore}
    (h : SameShapes s s') (hagree : BothAgree registry s) : BothAgree registry s' :=
  ⟨fun key shape hshape => hagree.1 key shape (h.1 key ▸ hshape), h.2 ▸ hagree.2⟩

theorem SameShapes.inBoth {s s' : AggregateStore} (h : SameShapes s s') {key : ReportAggregationKey}
    (hkey : InBoth s key) : InBoth s' key := by
  rw [InBoth, h.1 key, h.2]
  exact hkey

/-- Every call keeps the agreement with the registry and the registered keys. -/
theorem RegistryStep.keeps {registry : List ProjectContext} {s s' : AggregateStore}
    (h : RegistryStep registry s s') :
    (BothAgree registry s → BothAgree registry s') ∧ ∀ key, InBoth s key → InBoth s' key := by
  obtain ⟨s₁, call, hrehash, hallowed, hrun⟩ := h
  have hrehash := hrehash.sameShapes
  suffices hcall : (BothAgree registry s₁ → BothAgree registry s') ∧
      ∀ key, InBoth s₁ key → InBoth s' key from
    ⟨fun hagree => hcall.1 (hrehash.agrees hagree), fun key hkey => hcall.2 key (hrehash.inBoth hkey)⟩
  cases call with
  | updateAggregationConfigs context =>
    obtain rfl := Option.some.inj hrun
    have hregister := (registered_updateAggregationConfigs (hallowed context rfl) s₁).1
    exact ⟨fun hagree => ⟨hregister.1.agrees hagree.1, hregister.2.agrees hagree.2⟩,
      fun key hkey => hregister.inBoth hkey⟩
  | callAggregates call =>
    obtain ⟨⟨out, s₂⟩, hcall, rfl⟩ := Option.map_eq_some_iff.mp hrun
    have hsame := sameShapes_call hcall
    exact ⟨fun hagree => hsame.agrees hagree, fun key hkey => hsame.inBoth hkey⟩
  | deleteData =>
    obtain rfl := Option.some.inj hrun
    exact ⟨fun hagree => ⟨hagree.2, hagree.2⟩, fun key hkey => ⟨hkey.2, hkey.2⟩⟩
  | disable isDisabled =>
    obtain rfl := Option.some.inj hrun
    exact ⟨id, fun _ => id⟩

/-- Upgrading a store keeps its shapes. -/
theorem shapeOf_maybeUpgradeLocalAggregateStore {store store' : LocalAggregateStore}
    (h : maybeUpgradeLocalAggregateStore store = some store') (key : ReportAggregationKey) :
    store'.shapeOf key = store.shapeOf key := by
  rw [maybeUpgradeLocalAggregateStore] at h
  split_ifs at h
  · rw [Option.some.inj h]
  · obtain rfl := Option.some.inj h
    simp only [LocalAggregateStore.shapeOf, ProtoMap.lookup_filterMap]
    cases store.byReportKey.lookup key <;> rfl

theorem bothAgree_restoreAggregateStore {registry : List ProjectContext}
    {read : Option LocalAggregateStore} (hread : ∀ store ∈ read, Agrees registry store)
    (obsHistory : AggregatedObservationHistoryStore) (backfillDays : ℕ)
    (hbackfill : backfillDays ≤ kMaxAllowedBackfillDays) :
    BothAgree registry (restoreAggregateStore read obsHistory backfillDays hbackfill) := by
  have hnew := agrees_makeNewLocalAggregateStore registry
  refine ⟨?_, hnew⟩
  have hread : Agrees registry (read.getD makeNewLocalAggregateStore) := by
    cases read with
    | none => exact hnew
    | some store => exact hread store rfl
  simp only [restoreAggregateStore]
  cases hupgrade : maybeUpgradeLocalAggregateStore (read.getD makeNewLocalAggregateStore) with
  | none => exact hnew
  | some store =>
    intro key shape hshape
    exact hread key shape (shapeOf_maybeUpgradeLocalAggregateStore hupgrade key ▸ hshape)

/-- Every store agrees with its registry. -/
theorem agrees_of_populated {registry : List ProjectContext} {s : AggregateStore}
    (h : Populated registry s) : BothAgree registry s := by
  induction h with
  | new obsHistory backfillDays hbackfill =>
    exact bothAgree_restoreAggregateStore (by simp) _ _ _
  | step _ hstep ih => exact hstep.keeps.1 ih
  | @restore s _ obsHistory backfillDays hbackfill ih =>
    refine bothAgree_restoreAggregateStore (fun store hstore => ?_) _ _ _
    rw [← Option.some.inj hstore]
    exact ih.1

/-! ### Forwarded events -/

/-- `SetActive` accepts a key with aggregates of its kind. -/
theorem setActive_kOK {key : ReportAggregationKey} {s : AggregateStore} {report : ReportDefinition}
    (h : s.localAggregateStore.shapeOf key = some (report, true, false)) (eventCode dayIndex : ℕ) :
    (setActive key eventCode dayIndex s).1 = .kOK := by
  obtain ⟨aggregates, hlookup, hshape⟩ := Option.map_eq_some_iff.mp h
  rw [setActive, hlookup]
  split_ifs
  · rfl
  · rw [ReportAggregates.shape] at hshape
    cases htype : aggregates.type with
    | uniqueActivesAggregates byEventCode => simp [htype]
    | numericAggregates => simp [htype] at hshape
    | typeNotSet => simp [htype] at hshape

/-- `UpdateNumericAggregate` accepts a key with aggregates of its kind and an aggregation type that
it knows. -/
theorem updateNumericAggregate_kOK {key : ReportAggregationKey} {s : AggregateStore}
    {report : ReportDefinition}
    (h : s.localAggregateStore.shapeOf key = some (report, false, true))
    (htype : ∀ n, report.aggregationType ≠ .unrecognized n) (component : String)
    (eventCode dayIndex : ℕ) (value : ℤ) :
    (updateNumericAggregate key component eventCode dayIndex value s).1 = .kOK := by
  obtain ⟨aggregates, hlookup, hshape⟩ := Option.map_eq_some_iff.mp h
  have hday : ∀ stored, (updateDayAggregate aggregates.aggregationConfig.report.aggregationType
      stored value).1 = .kOK := by
    intro stored
    rw [show aggregates.aggregationConfig.report = report from congrArg Prod.fst hshape,
      updateDayAggregate]
    cases stored with
    | none => rfl
    | some daily =>
      cases haggregation : report.aggregationType with
      | unrecognized n => exact absurd haggregation (htype n)
      | SUM => rfl
      | MIN => rfl
      | MAX => rfl
  rw [updateNumericAggregate, hlookup]
  split_ifs
  · rfl
  · rw [ReportAggregates.shape] at hshape
    cases hkind : aggregates.type with
    | numericAggregates byComponent => simp [hkind, hday]
    | uniqueActivesAggregates => simp [hkind] at hshape
    | typeNotSet => simp [hkind] at hshape

/-- A forwarded event is accepted when its report is in a store that agrees with the
registry. -/
theorem maybeUpdateLocalAggregation_kOK {registry : List ProjectContext}
    (hregistry : ValidRegistry registry) {s : AggregateStore} (hagree : BothAgree registry s)
    {context : ProjectContext} (hcontext : context ∈ registry) (hregistered : Registered context s)
    {metric : MetricDefinition} (hmetric : metric ∈ context.metrics) {report : ReportDefinition}
    (hreport : report ∈ metric.reports) {event : Event}
    (htype : metric.metricType = event.type.metricType) :
    (maybeUpdateLocalAggregation report metric event s).1 = .kOK := by
  have hvalid := hregistry.valid context hcontext
  obtain ⟨hcustomer, hproject⟩ := hvalid.ids metric hmetric
  have hkey : reportKeyOf report.id metric = registeredKey context metric report := by
    rw [reportKeyOf, registeredKey, hcustomer, hproject]
  -- The shape under the key is that of the report itself, since no other report has the key.
  have hshape : Forwards metric report →
      s.localAggregateStore.shapeOf (reportKeyOf report.id metric) = some (shapeFor report) := by
    intro hforwards
    rw [hkey]
    obtain ⟨shape, hsome⟩ := Option.isSome_iff_exists.mp
      (hregistered metric hmetric report hreport hforwards).1
    obtain ⟨context', hcontext', metric', hmetric', report', hreport', heq, rfl⟩ :=
      hagree.1 _ shape hsome
    rw [hsome, hregistry.report_eq hcontext hcontext' hmetric hmetric' hreport hreport' heq]
  have hunique : isUniqueActives report.reportType → shapeFor report = (report, true, false) := by
    rw [shapeFor]
    cases report.reportType <;> simp [isUniqueActives, isPerDeviceNumeric]
  have hnumeric : isPerDeviceNumeric report.reportType → shapeFor report = (report, false, true) := by
    rw [shapeFor]
    cases report.reportType <;> simp [isUniqueActives, isPerDeviceNumeric]
  have haggregation := hvalid.aggregationTypes metric hmetric report hreport
  have hnumericOk : (isPerDeviceNumeric report.reportType → Forwards metric report) →
      ∀ read : EventType → Option (List ℕ × String × ℤ), (read event.type).isSome →
        (if isPerDeviceNumeric report.reportType then addNumericEvent report.id metric event s read
          else (.kOK, s)).1 = .kOK := by
    intro hforwards read hread
    obtain ⟨⟨eventCode, component, value⟩, hread⟩ := Option.isSome_iff_exists.mp hread
    split_ifs with hreportType
    · rw [addNumericEvent, hread]
      refine updateNumericAggregate_kOK ?_ haggregation component _ event.dayIndex value
      rw [hshape (hforwards hreportType), hnumeric hreportType]
    · rfl
  rw [maybeUpdateLocalAggregation]
  rw [Forwards, htype] at hshape hnumericOk
  cases hevent : event.type with
  | eventOccurredEvent eventCode =>
    rw [hevent] at hshape
    dsimp only
    split_ifs with hreportType
    · rw [addUniqueActivesEvent, hevent]
      exact setActive_kOK ((hshape hreportType).trans (congrArg some (hunique hreportType)))
        eventCode event.dayIndex
    · rfl
  | eventCountEvent eventCode component period count =>
    rw [hevent] at hnumericOk
    exact hnumericOk id _ rfl
  | elapsedTimeEvent eventCode component value =>
    rw [hevent] at hnumericOk
    exact hnumericOk id _ rfl
  | frameRateEvent eventCode component value =>
    rw [hevent] at hnumericOk
    exact hnumericOk id _ rfl
  | memoryUsageEvent eventCode component value =>
    rw [hevent] at hnumericOk
    exact hnumericOk id _ rfl
  | intHistogramEvent => rfl
  | customEvent => rfl
  | typeNotSet => rfl

/-- **Logger and aggregator agree.** Once `UpdateAggregationConfigs` has succeeded for a project, on
a store that was made with the registry, every event that is forwarded for a report of the project
is accepted after any further calls. -/
theorem forwarded_accepted {registry : List ProjectContext} (hregistry : ValidRegistry registry)
    {s s' : AggregateStore} (hs : Populated registry s) {context : ProjectContext}
    (hcontext : context ∈ registry) (hupdate : (updateAggregationConfigs context s).1 = .kOK)
    (hrun : Relation.ReflTransGen (RegistryStep registry) (updateAggregationConfigs context s).2 s')
    {metric : MetricDefinition} (hmetric : metric ∈ context.metrics) {report : ReportDefinition}
    (hreport : report ∈ metric.reports) {event : Event}
    (htype : metric.metricType = event.type.metricType) :
    (maybeUpdateLocalAggregation report metric event s').1 = .kOK := by
  obtain ⟨hregister, hregistered⟩ := registered_updateAggregationConfigs hcontext s
  have hagree := agrees_of_populated hs
  have hafter : BothAgree registry s' ∧ Registered context s' := by
    induction hrun with
    | refl =>
      exact ⟨⟨hregister.1.agrees hagree.1, hregister.2.agrees hagree.2⟩, hregistered hupdate⟩
    | tail _ hstep ih =>
      refine ⟨hstep.keeps.1 ih.1, fun metric hmetric report hreport hforwards => ?_⟩
      exact hstep.keeps.2 _ (ih.2 metric hmetric report hreport hforwards)
  exact maybeUpdateLocalAggregation_kOK hregistry hafter.1 hcontext hafter.2 hmetric hreport htype

/-- A project with a metric of each of the two kinds. -/
def twoMetricsContext : ProjectContext where
  project := ⟨1, 2⟩
  metrics :=
    [{ customerId := 1
       projectId := 2
       id := 3
       metricType := .EVENT_OCCURRED
       metricDimensions := [⟨1, []⟩]
       reports := [{ id := 4, reportType := .UNIQUE_N_DAY_ACTIVES, windowSize := [1] }] },
     { customerId := 1
       projectId := 2
       id := 5
       metricType := .ELAPSED_TIME
       reports := [{ id := 4, reportType := .PER_DEVICE_NUMERIC_STATS, windowSize := [1, 7] }] }]

/-- The data are deleted after a store was restored and the project was registered. An event of the
second metric is accepted then. -/
theorem forwarded_accepted_deleted :
    let s := restoreAggregateStore none makeNewObservationHistoryStore 0 (by decide)
    let restored := restoreAggregateStore
      (some (updateAggregationConfigs twoMetricsContext s).2.localAggregateStore)
      makeNewObservationHistoryStore 0 (by decide)
    let metric : MetricDefinition :=
      { customerId := 1
        projectId := 2
        id := 5
        metricType := .ELAPSED_TIME
        reports := [{ id := 4, reportType := .PER_DEVICE_NUMERIC_STATS, windowSize := [1, 7] }] }
    (maybeUpdateLocalAggregation
      { id := 4, reportType := .PER_DEVICE_NUMERIC_STATS, windowSize := [1, 7] } metric
      { type := .elapsedTimeEvent [] "" 25 }
      (deleteData (updateAggregationConfigs twoMetricsContext restored).2)).1 = .kOK := by
  intro s restored metric
  have hregistry : ValidRegistry [twoMetricsContext] :=
    ⟨by decide, by
      rintro context hcontext
      rw [List.mem_singleton.mp hcontext]
      exact ⟨by decide, by decide, by decide, by simp [twoMetricsContext]⟩⟩
  have hnew : Populated [twoMetricsContext] s := Populated.new _ _ _
  have hpopulated : Populated [twoMetricsContext] restored :=
    (hnew.step ⟨s, .updateAggregationConfigs twoMetricsContext, .refl s, by simp, rfl⟩).restore _ _ _
  have hrun : Relation.ReflTransGen (RegistryStep [twoMetricsContext])
      (updateAggregationConfigs twoMetricsContext restored).2
      (deleteData (updateAggregationConfigs twoMetricsContext restored).2) :=
    Relation.ReflTransGen.single ⟨_, .deleteData, .refl _, nofun, rfl⟩
  exact forwarded_accepted hregistry hpopulated List.mem_cons_self (by decide +kernel) hrun
    (by decide) (by decide) rfl

end Cobalt.LocalAggregation
