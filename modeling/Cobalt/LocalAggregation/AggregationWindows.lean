import Cobalt.LocalAggregation.EventCodes

/-!
# The aggregation windows of a registered report

`GetSortedAggregationWindowsFromReport` merges the window sizes and the aggregation windows of a
report into the windows of its configuration. `GarbageCollect` and `GenerateObservations` take the
last one of these for the largest one, and their comments say that there is at least one window and
that the windows are in increasing order.

Two things can go wrong. A window without units is reported and passed over, while every other
invalid window rejects the report; a report that has no other windows is registered without any. And
a window that the report has twice, in one of the two fields or in both, is in the configuration
twice.

## Main definitions

* `OnDeviceAggregationWindow.Before`: the order in which the windows are to be.
* `WindowsOrdered`: what is to hold of the windows of a configuration.
* `Inserted`: the aggregates that a registration has put into the stores.

## Main results

* `eq_of_getSortedAggregationWindowsFromReport`: the windows that a report is registered with.
* `windowsOrdered_iff`: the windows are as they are to be if and only if the report has a window with
  units and has no window twice.
* `not_windowsOrdered_unitsNotSet`: a report that is registered without windows.
-/

namespace Cobalt

namespace OnDeviceAggregationWindow

/-- Hour windows are before day windows, and shorter ones before longer ones. -/
def Before : OnDeviceAggregationWindow → OnDeviceAggregationWindow → Prop
  | .hours m, .hours n => m < n
  | .hours _, .days _ => True
  | .days m, .days n => m < n
  | _, _ => False

/-- How many hours a window has. -/
def length : OnDeviceAggregationWindow → ℕ
  | .unitsNotSet => 0
  | .hours n => n
  | .days n => 24 * n

end OnDeviceAggregationWindow

namespace LocalAggregation

open OnDeviceAggregationWindow (Before)

/-- The windows of a configuration as they are to be. There is at least one; they are hour
windows in strictly increasing order and then day windows in strictly increasing order, in their
ranges; and the last one is the largest one. -/
structure WindowsOrdered (windows : List OnDeviceAggregationWindow) : Prop where
  ne_nil : windows ≠ []
  valid : ∀ window ∈ windows, ValidWindow window
  increasing : windows.Pairwise Before
  largest : ∀ last ∈ windows.getLast?, ∀ window ∈ windows, window.length ≤ last.length

/-- The sizes of the hour windows, in their order. -/
def hourWindowSizes (windows : List OnDeviceAggregationWindow) : List ℕ :=
  windows.filterMap fun window =>
    match window with
    | .hours n => some n
    | _ => none

/-- The numbers of days that a report asks for, in both of its fields. -/
def reportDays (report : ReportDefinition) : List ℕ :=
  report.windowSize ++ dayWindowSizes report.aggregationWindow

/-- The numbers of hours that a report asks for. -/
def reportHours (report : ReportDefinition) : List ℕ := hourWindowSizes report.aggregationWindow

/-- The aggregates were put into one of the two stores. -/
def Inserted (s s' : AggregateStore) (key : ReportAggregationKey) (aggregates : ReportAggregates) :
    Prop :=
  (s.localAggregateStore.byReportKey.lookup key = none ∧
    s'.localAggregateStore.byReportKey.lookup key = some aggregates) ∨
  (s.emptyLocalAggregateStore.byReportKey.lookup key = none ∧
    s'.emptyLocalAggregateStore.byReportKey.lookup key = some aggregates)

/-! ### The windows that a report is registered with -/

theorem eq_of_collectAggregationWindows {windows : List OnDeviceAggregationWindow}
    {days hours days' hours' : List ℕ}
    (h : collectAggregationWindows windows days hours = some (days', hours')) :
    days' = days ++ dayWindowSizes windows ∧ hours' = hours ++ hourWindowSizes windows := by
  induction windows generalizing days hours with
  | nil =>
    obtain ⟨rfl, rfl⟩ := Prod.mk.inj (Option.some.inj h)
    simp [dayWindowSizes, hourWindowSizes]
  | cons window windows ih =>
    cases window with
    | unitsNotSet => exact ih h
    | hours n =>
      rw [collectAggregationWindows] at h
      split_ifs at h
      obtain ⟨rfl, rfl⟩ := ih h
      simp [dayWindowSizes, hourWindowSizes]
    | days n =>
      rw [collectAggregationWindows] at h
      split_ifs at h
      obtain ⟨rfl, rfl⟩ := ih h
      simp [dayWindowSizes, hourWindowSizes]

/-- The windows that a report is registered with: its hours and its days, each sorted. -/
theorem eq_of_getSortedAggregationWindowsFromReport {report : ReportDefinition}
    {windows : List OnDeviceAggregationWindow}
    (h : getSortedAggregationWindowsFromReport report = some windows) :
    windows = ((reportHours report).insertionSort (· ≤ ·)).map .hours ++
      ((reportDays report).insertionSort (· ≤ ·)).map .days := by
  rw [getSortedAggregationWindowsFromReport] at h
  split_ifs at h
  obtain ⟨⟨days, hours⟩, hcollect, rfl⟩ := Option.map_eq_some_iff.mp h
  obtain ⟨rfl, rfl⟩ := eq_of_collectAggregationWindows hcollect
  rfl

/-! ### Their order -/

/-- Sorted numbers are strictly increasing if and only if none is there twice. -/
theorem pairwise_lt_insertionSort_iff {l : List ℕ} :
    (l.insertionSort (· ≤ ·)).Pairwise (· < ·) ↔ l.Nodup := by
  rw [← List.sortedLT_iff_pairwise, List.sortedLT_iff_nodup_and_sortedLE,
    (List.perm_insertionSort (· ≤ ·) l).nodup_iff]
  exact and_iff_left List.sortedLE_insertionSort

theorem pairwise_before_append_iff {hours days : List ℕ} :
    (hours.map OnDeviceAggregationWindow.hours ++
      days.map OnDeviceAggregationWindow.days).Pairwise Before ↔
      hours.Pairwise (· < ·) ∧ days.Pairwise (· < ·) := by
  rw [List.pairwise_append, List.pairwise_map, List.pairwise_map]
  simp [Before]

/-- A valid window is not longer than a valid one that it is before. -/
theorem length_le_of_before {window window' : OnDeviceAggregationWindow} (hvalid : ValidWindow window)
    (hvalid' : ValidWindow window') (h : Before window window') :
    window.length ≤ window'.length := by
  cases window <;> cases window' <;>
    simp only [ValidWindow, Before, OnDeviceAggregationWindow.length, kMaxAllowedAggregationHours]
      at hvalid hvalid' h ⊢ <;> omega

/-- The last window is the largest one. -/
theorem length_le_last {windows : List OnDeviceAggregationWindow}
    (hvalid : ∀ window ∈ windows, ValidWindow window) (hincreasing : windows.Pairwise Before) :
    ∀ last ∈ windows.getLast?, ∀ window ∈ windows, window.length ≤ last.length := by
  intro last hlast window hwindow
  obtain ⟨init, rfl⟩ := List.getLast?_eq_some_iff.mp hlast
  rcases List.mem_append.mp hwindow with hinit | hsingle
  · refine length_le_of_before (hvalid window hwindow) (hvalid last (by simp)) ?_
    exact (List.pairwise_append.mp hincreasing).2.2 window hinit last (List.mem_singleton_self last)
  · rw [List.mem_singleton.mp hsingle]

theorem windowsOrdered_of_getSorted_iff {report : ReportDefinition}
    {windows : List OnDeviceAggregationWindow}
    (h : getSortedAggregationWindowsFromReport report = some windows) :
    WindowsOrdered windows ↔
      (reportDays report).Nodup ∧ (reportHours report).Nodup ∧
        (reportDays report ≠ [] ∨ reportHours report ≠ []) := by
  have hvalid := validWindow_of_getSortedAggregationWindowsFromReport h
  have heq := eq_of_getSortedAggregationWindowsFromReport h
  have hincreasing : windows.Pairwise Before ↔
      (reportHours report).Nodup ∧ (reportDays report).Nodup := by
    rw [heq, pairwise_before_append_iff, pairwise_lt_insertionSort_iff,
      pairwise_lt_insertionSort_iff]
  have hne : windows ≠ [] ↔ reportDays report ≠ [] ∨ reportHours report ≠ [] := by
    have hnil (l : List ℕ) : l.insertionSort (· ≤ ·) = [] ↔ l = [] := by
      rw [← List.length_eq_zero_iff, List.length_insertionSort, List.length_eq_zero_iff]
    rw [heq, ne_eq, List.append_eq_nil_iff, List.map_eq_nil_iff, List.map_eq_nil_iff, hnil, hnil,
      not_and_or, or_comm]
  constructor
  · intro hordered
    obtain ⟨hhours, hdays⟩ := hincreasing.mp hordered.increasing
    exact ⟨hdays, hhours, hne.mp hordered.ne_nil⟩
  · rintro ⟨hdays, hhours, hsome⟩
    have hpairwise := hincreasing.mpr ⟨hhours, hdays⟩
    exact ⟨hne.mpr hsome, hvalid, hpairwise, length_le_last hvalid hpairwise⟩

/-! ### Registering a report -/

/-- What a registration puts into the stores are the aggregates of the report. -/
theorem populateReportAggregates_of_inserted {context : ProjectContext} {metric : MetricDefinition}
    {report : ReportDefinition} {s s' : AggregateStore}
    (h : maybeInsertReportConfig context metric report s = (.kOK, s'))
    {key : ReportAggregationKey} {aggregates : ReportAggregates}
    (hinserted : Inserted s s' key aggregates) :
    populateReportAggregates context metric report = some aggregates := by
  simp only [maybeInsertReportConfig] at h
  cases hlocal : insertReportConfig s.localAggregateStore
      ⟨context.project.customerId, context.project.projectId, metric.id, report.id⟩
      (populateReportAggregates context metric report) with
  | none => simp [hlocal] at h
  | some store =>
    simp only [hlocal] at h
    cases hempty : insertReportConfig s.emptyLocalAggregateStore
        ⟨context.project.customerId, context.project.projectId, metric.id, report.id⟩
        (populateReportAggregates context metric report) with
    | none => simp [hempty] at h
    | some empty =>
      simp only [hempty] at h
      obtain ⟨-, rfl⟩ := Prod.mk.inj h
      rcases hinserted with ⟨hnone, hsome⟩ | ⟨hnone, hsome⟩
      · exact ((lookup_insertReportConfig hlocal hsome).resolve_left (by simp [hnone])).2
      · exact ((lookup_insertReportConfig hempty hsome).resolve_left (by simp [hnone])).2

/-- **The windows of registered reports.** The aggregates that an accepted registration puts into
the stores have their windows as they are to be if and only if the report has a window with units
and has no window twice. -/
theorem windowsOrdered_iff {context : ProjectContext} {metric : MetricDefinition}
    {report : ReportDefinition} {s s' : AggregateStore}
    (h : maybeInsertReportConfig context metric report s = (.kOK, s'))
    {key : ReportAggregationKey} {aggregates : ReportAggregates}
    (hinserted : Inserted s s' key aggregates) :
    WindowsOrdered aggregates.aggregationConfig.aggregationWindow ↔
      (reportDays report).Nodup ∧ (reportHours report).Nodup ∧
        (reportDays report ≠ [] ∨ reportHours report ≠ []) := by
  have hpopulate := populateReportAggregates_of_inserted h hinserted
  exact windowsOrdered_of_getSorted_iff (aggregationWindow_of_populateReportAggregates hpopulate)

/-! ### Reports that are accepted -/

/-- A report of the metric `countMetric` with the given windows. -/
def windowsReport (windowSize : List ℕ) (aggregationWindow : List OnDeviceAggregationWindow) :
    ReportDefinition where
  id := 4
  reportType := .PER_DEVICE_NUMERIC_STATS
  windowSize := windowSize
  aggregationWindow := aggregationWindow

/-- The key of the report. -/
def windowsKey : ReportAggregationKey := ⟨1, 2, 3, 4⟩

/-- The report is accepted in a new store, and put into it with the windows. -/
def AcceptedWith (report : ReportDefinition) (windows : List OnDeviceAggregationWindow) : Prop :=
  ∃ s' aggregates, maybeInsertReportConfig countContext countMetric report newStore = (.kOK, s') ∧
    Inserted newStore s' windowsKey aggregates ∧
    aggregates.aggregationConfig.aggregationWindow = windows

theorem windowsOrdered_iff_bothFields :
    AcceptedWith (windowsReport [30, 7] [.days 1, .unitsNotSet, .hours 12])
        [.hours 12, .days 1, .days 7, .days 30] ∧
      WindowsOrdered [.hours 12, .days 1, .days 7, .days 30] := by
  have haccepted : AcceptedWith (windowsReport [30, 7] [.days 1, .unitsNotSet, .hours 12])
      [.hours 12, .days 1, .days 7, .days 30] :=
    ⟨_, _, rfl, Or.inl ⟨rfl, rfl⟩, rfl⟩
  refine ⟨haccepted, ?_⟩
  obtain ⟨s', aggregates, h, hinserted, hwindows⟩ := haccepted
  exact hwindows ▸ (windowsOrdered_iff h hinserted).mpr (by decide)

/-- Two reports that are accepted with other windows: one without windows, as its only window
has no units, and one with the same window twice, as both fields have it. -/
theorem not_windowsOrdered_unitsNotSet :
    AcceptedWith (windowsReport [] [.unitsNotSet]) [] ∧ ¬ WindowsOrdered [] ∧
      AcceptedWith (windowsReport [7] [.days 7]) [.days 7, .days 7] ∧
      ¬ WindowsOrdered [.days 7, .days 7] := by
  refine ⟨⟨_, _, rfl, Or.inl ⟨rfl, rfl⟩, rfl⟩, fun h => h.ne_nil rfl,
    ⟨_, _, rfl, Or.inl ⟨rfl, rfl⟩, rfl⟩, fun h => ?_⟩
  have hbefore : Before (.days 7) (.days 7) := List.rel_of_pairwise_cons h.increasing (by simp)
  exact lt_irrefl 7 hbefore

end LocalAggregation

end Cobalt
