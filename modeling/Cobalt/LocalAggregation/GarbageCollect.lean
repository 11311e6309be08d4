import Cobalt.LocalAggregation.Update

/-!
# Garbage collection of daily aggregates

Daily aggregates that no observation of the backfill period can read any more are erased, and with
them the event codes and components that keep no aggregate.

## Main definitions

* `reportDayIndex`, `maxAggregationDays`: the day index and the largest window of a report, as
  `GarbageCollect` and `GenerateObservations` compute them.
* `Admitted`: the `CHECK`s on the day indices.
* `garbageCollect`.

## Main results

* `deletionBound_eq`: for an admitted day and a window of at most 365 days the unsigned
  subtraction that gives the deletion bound does not wrap.
* `lookup_garbageCollectDailyAggregates`: what is left of the aggregates of an event code.
-/

namespace Cobalt.LocalAggregation

/-! ### What a report is collected with -/

/-- The day index in the time zone of a metric, `none` for an invalid `TimeZonePolicy`. -/
def reportDayIndex (policy : TimeZonePolicy) (dayIndexUtc dayIndexLocal : ℕ) : Option ℕ :=
  match policy with
  | .UTC => some dayIndexUtc
  | .LOCAL => some dayIndexLocal
  | .unrecognized _ => none

/-- The number of days of the last window, one when it is not a window of days. There is none
without a window, and none where the number is out of range for the day: such reports are passed
over. -/
def maxAggregationDays (windows : List OnDeviceAggregationWindow) (dayIndex : ℕ) : Option ℕ :=
  match windows.getLast? with
  | none => none
  | some largestWindow =>
    let maxDays := match largestWindow with
      | .days n => n
      | _ => 1
    if maxDays = 0 ∨ dayIndex < maxDays then none else some maxDays

/-- The `CHECK`s that `GarbageCollect` and `GenerateObservations` make on a day index. -/
def Admitted (backfillDays dayIndex : ℕ) : Prop :=
  dayIndex < U32.max ∧ kMaxAllowedAggregationDays + backfillDays ≤ dayIndex

instance (backfillDays dayIndex : ℕ) : Decidable (Admitted backfillDays dayIndex) :=
  inferInstanceAs (Decidable (_ ∧ _))

theorem reportDayIndex_le_max {policy : TimeZonePolicy} {dayIndexUtc dayIndexLocal d : ℕ}
    (h : reportDayIndex policy dayIndexUtc dayIndexLocal = some d) :
    d ≤ max dayIndexUtc dayIndexLocal := by
  cases policy with
  | UTC => exact (Option.some.inj h) ▸ le_max_left _ _
  | LOCAL => exact (Option.some.inj h) ▸ le_max_right _ _
  | unrecognized n => exact absurd h (by simp [reportDayIndex])

/-- The day index of a report is admitted when both day indices of the call are. -/
theorem admitted_reportDayIndex {policy : TimeZonePolicy}
    {backfillDays dayIndexUtc dayIndexLocal d : ℕ} (hutc : Admitted backfillDays dayIndexUtc)
    (hlocal : Admitted backfillDays dayIndexLocal)
    (h : reportDayIndex policy dayIndexUtc dayIndexLocal = some d) : Admitted backfillDays d := by
  cases policy with
  | UTC => exact (Option.some.inj h) ▸ hutc
  | LOCAL => exact (Option.some.inj h) ▸ hlocal
  | unrecognized n => exact absurd h (by simp [reportDayIndex])

/-- The backfill period of an admitted day starts late enough for every window. -/
theorem Admitted.period {backfillDays dayIndex : ℕ} (h : Admitted backfillDays dayIndex) :
    U32.ofNat (dayIndex - backfillDays) = dayIndex - backfillDays ∧
      kMaxAllowedAggregationDays ≤ dayIndex - backfillDays := by
  obtain ⟨hlt, hle⟩ := h
  have hmax : U32.max < U32.size := by decide
  exact ⟨U32.ofNat_of_lt (by omega), by omega⟩

/-- A report with valid windows is not passed over on an admitted day. -/
theorem exists_maxAggregationDays {windows : List OnDeviceAggregationWindow}
    {backfillDays dayIndex : ℕ} (hadmitted : Admitted backfillDays dayIndex)
    (hvalid : ∀ window ∈ windows, ValidWindow window) (hne : windows ≠ []) :
    ∃ maxDays, maxAggregationDays windows dayIndex = some maxDays := by
  obtain ⟨window, hlast⟩ : ∃ window, windows.getLast? = some window :=
    ⟨_, List.getLast?_eq_some_getLast hne⟩
  have hwindow := hvalid window (List.mem_of_getLast? hlast)
  have hday : kMaxAllowedAggregationDays ≤ dayIndex := by
    have := hadmitted.2
    omega
  have hone : 1 ≤ kMaxAllowedAggregationDays := by decide
  rw [maxAggregationDays, hlast]
  cases window with
  | unitsNotSet => exact absurd hwindow id
  | hours n =>
    have hin : ¬ (1 = 0 ∨ dayIndex < 1) := by omega
    exact ⟨1, if_neg hin⟩
  | days n =>
    obtain ⟨hpos, hle⟩ := hwindow
    have hin : ¬ (n = 0 ∨ dayIndex < n) := by omega
    exact ⟨n, if_neg hin⟩

/-- A local day index of zero stands for the one in UTC. -/
def localDayIndex (dayIndexUtc dayIndexLocal : ℕ) : ℕ :=
  if dayIndexLocal = 0 then dayIndexUtc else dayIndexLocal

/-! ### Erasing aggregates -/

/-- Days up to this one are erased. -/
def deletionBound (dayIndex maxDays backfillDays : ℕ) : ℕ :=
  U32.sub (U32.sub dayIndex backfillDays) maxDays

/-- The aggregates of one event code after their old days are erased, `none` when nothing is
left. -/
def garbageCollectDailyAggregates (dayIndex maxDays backfillDays : ℕ)
    (byDayIndex : DailyAggregates) : Option DailyAggregates :=
  let kept := byDayIndex.filterMap fun day aggregate =>
    if day ≤ deletionBound dayIndex maxDays backfillDays then none else some aggregate
  if kept.entries.isEmpty then none else some kept

/-- `GarbageCollectUniqueActivesReportAggregates`. -/
def garbageCollectUniqueActivesReportAggregates (dayIndex maxDays backfillDays : ℕ)
    (byEventCode : UniqueActivesReportAggregates) : UniqueActivesReportAggregates :=
  byEventCode.filterMap fun _ byDayIndex =>
    garbageCollectDailyAggregates dayIndex maxDays backfillDays byDayIndex

/-- `GarbageCollectNumericReportAggregates`. -/
def garbageCollectNumericReportAggregates (dayIndex maxDays backfillDays : ℕ)
    (byComponent : PerDeviceNumericAggregates) : PerDeviceNumericAggregates :=
  byComponent.filterMap fun _ byEventCode =>
    let kept : EventCodeAggregates := byEventCode.filterMap fun _ byDayIndex =>
      garbageCollectDailyAggregates dayIndex maxDays backfillDays byDayIndex
    if kept.entries.isEmpty then none else some kept

/-- The body of the loop of `GarbageCollect`. -/
def garbageCollectReport (backfillDays dayIndexUtc dayIndexLocal : ℕ)
    (aggregates : ReportAggregates) : ReportAggregates :=
  let config := aggregates.aggregationConfig
  match reportDayIndex config.metric.timeZonePolicy dayIndexUtc dayIndexLocal with
  | none => aggregates
  | some dayIndex =>
    match maxAggregationDays config.aggregationWindow dayIndex with
    | none => aggregates
    | some maxDays =>
      { aggregates with
        type := match aggregates.type with
          | .uniqueActivesAggregates a => .uniqueActivesAggregates
              (garbageCollectUniqueActivesReportAggregates dayIndex maxDays backfillDays a)
          | .numericAggregates a => .numericAggregates
              (garbageCollectNumericReportAggregates dayIndex maxDays backfillDays a)
          | .typeNotSet => .typeNotSet }

/-- `GarbageCollect`, `none` when a `CHECK` fails. -/
def garbageCollect (dayIndexUtc dayIndexLocal : ℕ) (s : AggregateStore) :
    Option (Status × AggregateStore) :=
  let dayIndexLocal := localDayIndex dayIndexUtc dayIndexLocal
  if Admitted s.backfillDays dayIndexUtc ∧ Admitted s.backfillDays dayIndexLocal then
    some (.kOK, { s with localAggregateStore :=
      { s.localAggregateStore with
        byReportKey := s.localAggregateStore.byReportKey.filterMap fun _ aggregates =>
          some (garbageCollectReport s.backfillDays dayIndexUtc dayIndexLocal aggregates) } })
  else none

/-! ### What is left -/

/-- **The deletion bound does not wrap.** -/
theorem deletionBound_eq {dayIndex maxDays backfillDays : ℕ} (h : Admitted backfillDays dayIndex)
    (hmax : maxDays ≤ kMaxAllowedAggregationDays) :
    deletionBound dayIndex maxDays backfillDays = dayIndex - backfillDays - maxDays ∧
      backfillDays + maxDays ≤ dayIndex := by
  obtain ⟨hlt, hle⟩ := h
  have hsize : dayIndex < U32.size := hlt.trans_le (Nat.sub_le _ _)
  have hsub : U32.sub dayIndex backfillDays = dayIndex - backfillDays :=
    U32.sub_of_le hsize (by omega)
  refine ⟨?_, by omega⟩
  rw [deletionBound, hsub, U32.sub_of_le (by omega) (by omega)]

/-- An event code keeps the aggregates of the days after the bound. -/
theorem lookup_garbageCollectDailyAggregates (dayIndex maxDays backfillDays : ℕ)
    (byDayIndex : DailyAggregates) (day : ℕ) :
    ((garbageCollectDailyAggregates dayIndex maxDays backfillDays byDayIndex).getD ∅).lookup day =
      if day ≤ deletionBound dayIndex maxDays backfillDays then none
      else byDayIndex.lookup day := by
  have hkept : ∀ kept : DailyAggregates,
      ((if kept.entries.isEmpty then none else some kept : Option DailyAggregates).getD ∅).lookup
        day = kept.lookup day := by
    intro kept
    split_ifs with h
    · have hnil : kept = ∅ := AList.ext (List.isEmpty_iff.mp h)
      rw [hnil]
      rfl
    · rfl
  rw [garbageCollectDailyAggregates, hkept, ProtoMap.lookup_filterMap]
  split_ifs with h <;> cases byDayIndex.lookup day <;> rfl

/-- What is collected of a report: nothing when the report is passed over, else the old days of
both kinds of aggregates. -/
theorem garbageCollectReport_cases (backfillDays dayIndexUtc dayIndexLocal : ℕ)
    (aggregates : ReportAggregates) :
    garbageCollectReport backfillDays dayIndexUtc dayIndexLocal aggregates = aggregates ∨
    ∃ dayIndex maxDays,
      reportDayIndex aggregates.aggregationConfig.metric.timeZonePolicy dayIndexUtc
        dayIndexLocal = some dayIndex ∧
      maxAggregationDays aggregates.aggregationConfig.aggregationWindow dayIndex = some maxDays ∧
      (garbageCollectReport backfillDays dayIndexUtc dayIndexLocal
        aggregates).aggregationConfig = aggregates.aggregationConfig ∧
      (garbageCollectReport backfillDays dayIndexUtc dayIndexLocal
        aggregates).uniqueActivesAggregates = garbageCollectUniqueActivesReportAggregates dayIndex
          maxDays backfillDays aggregates.uniqueActivesAggregates ∧
      (garbageCollectReport backfillDays dayIndexUtc dayIndexLocal
        aggregates).numericAggregates = garbageCollectNumericReportAggregates dayIndex maxDays
          backfillDays aggregates.numericAggregates := by
  unfold garbageCollectReport
  dsimp only
  split
  · exact Or.inl rfl
  · next dayIndex hday =>
    split
    · exact Or.inl rfl
    · next maxDays hmax =>
      refine Or.inr ⟨dayIndex, maxDays, hday, hmax, rfl, ?_, ?_⟩
      · simp only [ReportAggregates.uniqueActivesAggregates]
        cases aggregates.type <;> rfl
      · simp only [ReportAggregates.numericAggregates]
        cases aggregates.type <;> rfl

theorem aggregationConfig_garbageCollectReport (backfillDays dayIndexUtc dayIndexLocal : ℕ)
    (aggregates : ReportAggregates) :
    (garbageCollectReport backfillDays dayIndexUtc dayIndexLocal aggregates).aggregationConfig =
      aggregates.aggregationConfig := by
  rcases garbageCollectReport_cases backfillDays dayIndexUtc dayIndexLocal aggregates with
    heq | ⟨_, _, _, _, hconfig, _⟩
  · rw [heq]
  · exact hconfig

/-- What an accepted call of `GarbageCollect` leaves of every report. -/
theorem lookup_garbageCollect {s s' : AggregateStore} {dayIndexUtc dayIndexLocal : ℕ}
    {status : Status} (h : garbageCollect dayIndexUtc dayIndexLocal s = some (status, s')) :
    (Admitted s.backfillDays dayIndexUtc ∧
      Admitted s.backfillDays (localDayIndex dayIndexUtc dayIndexLocal)) ∧
    s'.obsHistory = s.obsHistory ∧ s'.backfillDays = s.backfillDays ∧
    ∀ key, s'.localAggregateStore.byReportKey.lookup key =
      (s.localAggregateStore.byReportKey.lookup key).map
        (garbageCollectReport s.backfillDays dayIndexUtc
          (localDayIndex dayIndexUtc dayIndexLocal)) := by
  simp only [garbageCollect] at h
  split_ifs at h with hadmitted
  obtain ⟨_, rfl⟩ := Prod.mk.inj (Option.some.inj h)
  refine ⟨hadmitted, rfl, rfl, fun key => ?_⟩
  rw [ProtoMap.lookup_filterMap]
  cases s.localAggregateStore.byReportKey.lookup key <;> rfl

/-- Garbage collection leaves every configuration alone. -/
theorem configOf_garbageCollect {s s' : AggregateStore} {dayIndexUtc dayIndexLocal : ℕ}
    {status : Status} (h : garbageCollect dayIndexUtc dayIndexLocal s = some (status, s'))
    (key : ReportAggregationKey) :
    s'.localAggregateStore.configOf key = s.localAggregateStore.configOf key := by
  obtain ⟨_, _, _, hlookup⟩ := lookup_garbageCollect h
  rw [LocalAggregateStore.configOf, hlookup, LocalAggregateStore.configOf, Option.map_map]
  congr 1
  funext aggregates
  exact aggregationConfig_garbageCollectReport _ _ _ aggregates

end Cobalt.LocalAggregation
