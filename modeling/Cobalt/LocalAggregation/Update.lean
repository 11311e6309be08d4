import Cobalt.LocalAggregation.Messages
import Mathlib.Data.List.Sort

/-!
# Configuring and updating the aggregates

The functions through which reports are registered with the `AggregateStore` and logged events
reach its daily aggregates.

## Main definitions

* `maybeInsertReportConfig`: registers a report, with its aggregation windows sorted.
* `setActive`, `updateNumericAggregate`: aggregate one event.
* `deleteData`, `disable`.
* `WindowsValid`: the aggregation windows are as `maybeInsertReportConfig` leaves them.

## Main results

* `windowsValid_maybeInsertReportConfig`: reports are registered with valid windows only.
* `keyedByIds_maybeInsertReportConfig`: reports are registered under their ids.
* `configOf_setActive`, `configOf_updateNumericAggregate`: aggregating an event leaves every
  configuration alone.
-/

namespace Cobalt.LocalAggregation

/-! ### Registering reports -/

/-- The context that a project's metrics are looked up in. -/
structure ProjectContext where
  project : Project
  metrics : List MetricDefinition
  deriving DecidableEq, Repr

/-- `ProjectContext::GetMetric`. A later metric with the same id replaces an earlier one, and a
metric of another project is left out. -/
def ProjectContext.getMetric (context : ProjectContext) (metricId : ℕ) :
    Option MetricDefinition :=
  (context.metrics.reverse.filter fun m => m.customerId = context.project.customerId ∧
    m.projectId = context.project.projectId).find? (·.id = metricId)

/-- The two validation loops of `GetSortedAggregationWindowsFromReport` over the aggregation
windows: the numbers of days and of hours, or `none` when one of them is out of range. A window
without units is reported and passed over. -/
def collectAggregationWindows :
    List OnDeviceAggregationWindow → List ℕ → List ℕ → Option (List ℕ × List ℕ)
  | [], days, hours => some (days, hours)
  | .days n :: windows, days, hours =>
    if n = 0 ∨ kMaxAllowedAggregationDays < n then none
    else collectAggregationWindows windows (days ++ [n]) hours
  | .hours n :: windows, days, hours =>
    if n = 0 ∨ kMaxAllowedAggregationHours < n then none
    else collectAggregationWindows windows days (hours ++ [n])
  | .unitsNotSet :: windows, days, hours => collectAggregationWindows windows days hours

/-- `GetSortedAggregationWindowsFromReport`: the windows added to the configuration, or `none`
where the function returns `false`. -/
def getSortedAggregationWindowsFromReport (report : ReportDefinition) :
    Option (List OnDeviceAggregationWindow) :=
  if report.windowSize.isEmpty ∧ report.aggregationWindow.isEmpty then none
  else if report.windowSize.any fun n => n = 0 ∨ kMaxAllowedAggregationDays < n then none
  else (collectAggregationWindows report.aggregationWindow report.windowSize []).map
    fun (days, hours) =>
      (hours.insertionSort (· ≤ ·)).map .hours ++ (days.insertionSort (· ≤ ·)).map .days

/-- `PopulateReportAggregates`, `none` where it returns `false`. A metric that the context does not
know would be a null pointer; callers pass the metrics of the context. -/
def populateReportAggregates (context : ProjectContext) (metric : MetricDefinition)
    (report : ReportDefinition) : Option ReportAggregates := do
  let windows ← getSortedAggregationWindowsFromReport report
  let config : AggregationConfig :=
    { project := context.project
      metric := (context.getMetric metric.id).getD metric
      report := report
      aggregationWindow := windows }
  match report.reportType with
  | .UNIQUE_N_DAY_ACTIVES => some ⟨.uniqueActivesAggregates ∅, config⟩
  | .PER_DEVICE_NUMERIC_STATS => some ⟨.numericAggregates ∅, config⟩
  | .PER_DEVICE_HISTOGRAM => some ⟨.numericAggregates ∅, config⟩
  | _ => none

/-- One half of `MaybeInsertReportConfig`: a store without the key gets it, unless the report is
malformed. -/
def insertReportConfig (store : LocalAggregateStore) (key : ReportAggregationKey)
    (aggregates : Option ReportAggregates) : Option LocalAggregateStore :=
  if (store.byReportKey.lookup key).isSome then some store
  else aggregates.map fun a => { store with byReportKey := store.byReportKey.insert key a }

/-- `MaybeInsertReportConfig`. -/
def maybeInsertReportConfig (context : ProjectContext) (metric : MetricDefinition)
    (report : ReportDefinition) (s : AggregateStore) : Status × AggregateStore :=
  let key : ReportAggregationKey :=
    ⟨context.project.customerId, context.project.projectId, metric.id, report.id⟩
  let aggregates := populateReportAggregates context metric report
  match insertReportConfig s.localAggregateStore key aggregates with
  | none => (.kInvalidArguments, s)
  | some store =>
    let s := { s with localAggregateStore := store }
    -- the empty store gets the key as well, for `deleteData`
    match insertReportConfig s.emptyLocalAggregateStore key aggregates with
    | none => (.kInvalidArguments, s)
    | some empty => (.kOK, { s with emptyLocalAggregateStore := empty })

/-! ### Aggregating events -/

/-- The aggregates of the report `key` are replaced. -/
def AggregateStore.setAggregates (s : AggregateStore) (key : ReportAggregationKey)
    (aggregates : ReportAggregates) : AggregateStore :=
  { s with localAggregateStore :=
      { s.localAggregateStore with
        byReportKey := s.localAggregateStore.byReportKey.insert key aggregates } }

/-- `SetActive`. The map is keyed by a `uint32`, so the event code is converted. -/
def setActive (key : ReportAggregationKey) (eventCode dayIndex : ℕ) (s : AggregateStore) :
    Status × AggregateStore :=
  if s.isDisabled then (.kOK, s)
  else match s.localAggregateStore.byReportKey.lookup key with
  | none => (.kInvalidArguments, s)
  | some aggregates =>
    match aggregates.type with
    | .uniqueActivesAggregates byEventCode =>
      (.kOK, s.setAggregates key { aggregates with
        type := .uniqueActivesAggregates <|
          byEventCode.update (U32.ofNat eventCode) ∅ fun byDayIndex =>
            byDayIndex.insert dayIndex (.activity true) })
    | _ => (.kInvalidArguments, s)

/-- `GetUpdatedAggregate`. -/
def getUpdatedAggregate (aggregationType : OnDeviceAggregationType) (storedAggregate : Option ℤ)
    (newValue : ℤ) : Status × ℤ :=
  match storedAggregate with
  | none => (.kOK, newValue)
  | some stored =>
    match aggregationType with
    | .SUM => (.kOK, newValue + stored)
    | .MAX => (.kOK, max newValue stored)
    | .MIN => (.kOK, min newValue stored)
    | .unrecognized _ => (.kInvalidArguments, 0)

/-- The day aggregate that `UpdateNumericAggregate` leaves, and its status. An aggregate of the
other kind is replaced by a numeric one before it is read. -/
def updateDayAggregate (aggregationType : OnDeviceAggregationType)
    (stored : Option DailyAggregate) (value : ℤ) : Status × DailyAggregate :=
  let dayAggregate := (stored.getD .typeNotSet).numericValue
  let (status, updatedValue) :=
    getUpdatedAggregate aggregationType (stored.map fun _ => dayAggregate) value
  (status, .numeric (if status = .kOK then updatedValue else dayAggregate))

/-- The daily aggregates of a component and a packed event code, empty where there are none. -/
def PerDeviceNumericAggregates.dailyAggregates (byComponent : PerDeviceNumericAggregates)
    (component : String) (eventCode : ℕ) : DailyAggregates :=
  (((byComponent.lookup component).getD ∅).lookup eventCode).getD ∅

/-- `UpdateNumericAggregate`. -/
def updateNumericAggregate (key : ReportAggregationKey) (component : String)
    (eventCode dayIndex : ℕ) (value : ℤ) (s : AggregateStore) : Status × AggregateStore :=
  if s.isDisabled then (.kOK, s)
  else match s.localAggregateStore.byReportKey.lookup key with
  | none => (.kInvalidArguments, s)
  | some aggregates =>
    match aggregates.type with
    | .numericAggregates byComponent =>
      let (status, dayAggregate) :=
        updateDayAggregate aggregates.aggregationConfig.report.aggregationType
          ((PerDeviceNumericAggregates.dailyAggregates byComponent component eventCode).lookup
            dayIndex) value
      (status, s.setAggregates key { aggregates with
        type := .numericAggregates <|
          byComponent.update component ∅ fun byEventCode =>
            byEventCode.update eventCode ∅ fun byDayIndex =>
              byDayIndex.insert dayIndex dayAggregate })
    | _ => (.kInvalidArguments, s)

/-- `DeleteData`. -/
def deleteData (s : AggregateStore) : AggregateStore :=
  { s with
    localAggregateStore := s.emptyLocalAggregateStore
    obsHistory := makeNewObservationHistoryStore }

/-- `Disable`. -/
def disable (isDisabled : Bool) (s : AggregateStore) : AggregateStore :=
  { s with isDisabled := isDisabled }

/-! ### Events and configurations -/

/-- The configuration of a report. -/
def LocalAggregateStore.configOf (store : LocalAggregateStore) (key : ReportAggregationKey) :
    Option AggregationConfig :=
  (store.byReportKey.lookup key).map (·.aggregationConfig)

private theorem configOf_setAggregates {s : AggregateStore} {key : ReportAggregationKey}
    {aggregates aggregates' : ReportAggregates}
    (hlookup : s.localAggregateStore.byReportKey.lookup key = some aggregates)
    (hconfig : aggregates'.aggregationConfig = aggregates.aggregationConfig)
    (key' : ReportAggregationKey) :
    (s.setAggregates key aggregates').localAggregateStore.configOf key' =
      s.localAggregateStore.configOf key' := by
  simp only [AggregateStore.setAggregates, LocalAggregateStore.configOf,
    ProtoMap.lookup_insert_eq_ite]
  split_ifs with h
  · rw [h, hlookup, Option.map_some, Option.map_some, hconfig]
  · rfl

/-- `SetActive` leaves every configuration alone. -/
theorem configOf_setActive (key : ReportAggregationKey) (eventCode dayIndex : ℕ)
    (s : AggregateStore) (key' : ReportAggregationKey) :
    (setActive key eventCode dayIndex s).2.localAggregateStore.configOf key' =
      s.localAggregateStore.configOf key' := by
  unfold setActive
  split_ifs
  · rfl
  · split
    · rfl
    · next aggregates hlookup =>
      split
      · refine configOf_setAggregates hlookup ?_ key'
        rfl
      · rfl

/-- `UpdateNumericAggregate` leaves every configuration alone. -/
theorem configOf_updateNumericAggregate (key : ReportAggregationKey) (component : String)
    (eventCode dayIndex : ℕ) (value : ℤ) (s : AggregateStore) (key' : ReportAggregationKey) :
    (updateNumericAggregate key component eventCode dayIndex value
      s).2.localAggregateStore.configOf key' = s.localAggregateStore.configOf key' := by
  unfold updateNumericAggregate
  split_ifs
  · rfl
  · split
    · rfl
    · next aggregates hlookup =>
      split
      · refine configOf_setAggregates hlookup ?_ key'
        rfl
      · rfl

/-! ### Windows of registered reports -/

/-- A window has units, and as many of them as is allowed. -/
def ValidWindow : OnDeviceAggregationWindow → Prop
  | .unitsNotSet => False
  | .hours n => 1 ≤ n ∧ n ≤ kMaxAllowedAggregationHours
  | .days n => 1 ≤ n ∧ n ≤ kMaxAllowedAggregationDays

/-- Every window of every report is valid. -/
def WindowsValid (store : LocalAggregateStore) : Prop :=
  ∀ key aggregates, store.byReportKey.lookup key = some aggregates →
    ∀ window ∈ aggregates.aggregationConfig.aggregationWindow, ValidWindow window

private theorem collectAggregationWindows_valid {windows : List OnDeviceAggregationWindow}
    {days hours days' hours' : List ℕ}
    (hdays : ∀ n ∈ days, 1 ≤ n ∧ n ≤ kMaxAllowedAggregationDays)
    (hhours : ∀ n ∈ hours, 1 ≤ n ∧ n ≤ kMaxAllowedAggregationHours)
    (h : collectAggregationWindows windows days hours = some (days', hours')) :
    (∀ n ∈ days', 1 ≤ n ∧ n ≤ kMaxAllowedAggregationDays) ∧
      ∀ n ∈ hours', 1 ≤ n ∧ n ≤ kMaxAllowedAggregationHours := by
  have happend : ∀ {l : List ℕ} {n m : ℕ}, (∀ k ∈ l, 1 ≤ k ∧ k ≤ m) → ¬ (n = 0 ∨ m < n) →
      ∀ k ∈ l ++ [n], 1 ≤ k ∧ k ≤ m := by
    intro l n m hl hn k hk
    rcases List.mem_append.mp hk with hk | hk
    · exact hl k hk
    · rw [List.mem_singleton.mp hk]
      omega
  induction windows generalizing days hours with
  | nil =>
    obtain ⟨rfl, rfl⟩ := Prod.mk.inj (Option.some.inj h)
    exact ⟨hdays, hhours⟩
  | cons window windows ih =>
    cases window with
    | unitsNotSet => exact ih hdays hhours h
    | hours n =>
      rw [collectAggregationWindows] at h
      split_ifs at h with hn
      exact ih hdays (happend hhours hn) h
    | days n =>
      rw [collectAggregationWindows] at h
      split_ifs at h with hn
      exact ih (happend hdays hn) hhours h

/-- `GetSortedAggregationWindowsFromReport` adds valid windows only. -/
theorem validWindow_of_getSortedAggregationWindowsFromReport {report : ReportDefinition}
    {windows : List OnDeviceAggregationWindow}
    (h : getSortedAggregationWindowsFromReport report = some windows) :
    ∀ window ∈ windows, ValidWindow window := by
  rw [getSortedAggregationWindowsFromReport] at h
  split_ifs at h with _ hsize
  obtain ⟨⟨days, hours⟩, hcollect, rfl⟩ := Option.map_eq_some_iff.mp h
  have hdays : ∀ n ∈ report.windowSize, 1 ≤ n ∧ n ≤ kMaxAllowedAggregationDays := by
    intro n hn
    simp only [List.any_eq_true, decide_eq_true_eq, not_exists, not_and] at hsize
    have := hsize n hn
    omega
  obtain ⟨hd, hh⟩ := collectAggregationWindows_valid hdays (by simp) hcollect
  intro window hw
  rcases List.mem_append.mp hw with hw | hw
  · obtain ⟨n, hn, rfl⟩ := List.mem_map.mp hw
    exact hh n ((List.mem_insertionSort _).mp hn)
  · obtain ⟨n, hn, rfl⟩ := List.mem_map.mp hw
    exact hd n ((List.mem_insertionSort _).mp hn)

/-- The windows of a report that is registered. -/
theorem aggregationWindow_of_populateReportAggregates {context : ProjectContext}
    {metric : MetricDefinition} {report : ReportDefinition} {aggregates : ReportAggregates}
    (h : populateReportAggregates context metric report = some aggregates) :
    getSortedAggregationWindowsFromReport report =
      some aggregates.aggregationConfig.aggregationWindow := by
  obtain ⟨windows, hwindows, h⟩ := Option.bind_eq_some_iff.mp h
  have hconfig : aggregates.aggregationConfig.aggregationWindow = windows := by
    cases hr : report.reportType <;> rw [hr] at h <;> cases h <;> rfl
  rw [hconfig, hwindows]

/-- A report that is in the store after a registration was there before, or is the one that is
registered with the aggregates. -/
theorem lookup_insertReportConfig {store store' : LocalAggregateStore}
    {key key' : ReportAggregationKey} {aggregates : Option ReportAggregates} {a : ReportAggregates}
    (h : insertReportConfig store key aggregates = some store')
    (hlookup : store'.byReportKey.lookup key' = some a) :
    store.byReportKey.lookup key' = some a ∨ key' = key ∧ aggregates = some a := by
  rw [insertReportConfig] at h
  split_ifs at h
  · exact Or.inl (Option.some.inj h ▸ hlookup)
  · obtain ⟨a', ha', rfl⟩ := Option.map_eq_some_iff.mp h
    rw [ProtoMap.lookup_insert_eq_ite] at hlookup
    split_ifs at hlookup with hkey
    · exact Or.inr ⟨hkey, ha'.trans hlookup⟩
    · exact Or.inl hlookup

private theorem windowsValid_insertReportConfig {store store' : LocalAggregateStore}
    {key : ReportAggregationKey} {context : ProjectContext} {metric : MetricDefinition}
    {report : ReportDefinition} (hvalid : WindowsValid store)
    (h : insertReportConfig store key (populateReportAggregates context metric report) =
      some store') : WindowsValid store' := by
  intro key' aggregates hlookup
  rcases lookup_insertReportConfig h hlookup with hold | ⟨-, hnew⟩
  · exact hvalid key' aggregates hold
  · exact validWindow_of_getSortedAggregationWindowsFromReport
      (aggregationWindow_of_populateReportAggregates hnew)

/-- **Registered reports have valid windows.** This holds of the store without reports and is kept
by every registration, accepted or not. -/
theorem windowsValid_maybeInsertReportConfig {context : ProjectContext} {metric : MetricDefinition}
    {report : ReportDefinition} {s : AggregateStore} (hvalid : WindowsValid s.localAggregateStore) :
    WindowsValid (maybeInsertReportConfig context metric report s).2.localAggregateStore := by
  simp only [maybeInsertReportConfig]
  cases hinsert : insertReportConfig s.localAggregateStore
      ⟨context.project.customerId, context.project.projectId, metric.id, report.id⟩
      (populateReportAggregates context metric report) with
  | none => exact hvalid
  | some store =>
    have := windowsValid_insertReportConfig hvalid hinsert
    dsimp only
    split <;> exact this

/-! ### The ids of the reports -/

/-- The key of the report that a configuration is for. -/
def AggregationConfig.reportKey (config : AggregationConfig) : ReportAggregationKey :=
  ⟨config.project.customerId, config.project.projectId, config.metric.id, config.report.id⟩

/-- Every configuration is stored under the ids of its report. -/
def KeyedByIds (store : LocalAggregateStore) : Prop :=
  ∀ key config, store.configOf key = some config → key = config.reportKey

/-- The metric of a project that has an id. -/
theorem id_of_getMetric {context : ProjectContext} {metricId : ℕ} {metric : MetricDefinition}
    (h : context.getMetric metricId = some metric) : metric.id = metricId :=
  of_decide_eq_true (List.find?_some (p := fun m : MetricDefinition => m.id = metricId) h)

/-- The ids of a report that is registered. -/
theorem reportKey_of_populateReportAggregates {context : ProjectContext}
    {metric : MetricDefinition} {report : ReportDefinition} {aggregates : ReportAggregates}
    (h : populateReportAggregates context metric report = some aggregates) :
    aggregates.aggregationConfig.reportKey =
      ⟨context.project.customerId, context.project.projectId, metric.id, report.id⟩ := by
  obtain ⟨windows, -, h⟩ := Option.bind_eq_some_iff.mp h
  have hid : ((context.getMetric metric.id).getD metric).id = metric.id := by
    cases hmetric : context.getMetric metric.id with
    | none => rfl
    | some metric' => exact id_of_getMetric hmetric
  cases hr : report.reportType <;> rw [hr] at h <;> cases h <;>
    rw [AggregationConfig.reportKey, hid]

/-- Reports are registered under their ids. This holds of the store without reports and is kept
by every registration, accepted or not. -/
theorem keyedByIds_maybeInsertReportConfig {context : ProjectContext} {metric : MetricDefinition}
    {report : ReportDefinition} {s : AggregateStore} (hkeyed : KeyedByIds s.localAggregateStore) :
    KeyedByIds (maybeInsertReportConfig context metric report s).2.localAggregateStore := by
  simp only [maybeInsertReportConfig]
  cases hinsert : insertReportConfig s.localAggregateStore
      ⟨context.project.customerId, context.project.projectId, metric.id, report.id⟩
      (populateReportAggregates context metric report) with
  | none => exact hkeyed
  | some store =>
    have hstore : KeyedByIds store := by
      intro key config hconfig
      obtain ⟨aggregates, hlookup, rfl⟩ := Option.map_eq_some_iff.mp hconfig
      rcases lookup_insertReportConfig hinsert hlookup with hold | ⟨rfl, hnew⟩
      · exact hkeyed key _ (Option.map_eq_some_iff.mpr ⟨aggregates, hold, rfl⟩)
      · exact (reportKey_of_populateReportAggregates hnew).symm
    dsimp only
    split <;> exact hstore

end Cobalt.LocalAggregation
