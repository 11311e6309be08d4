import Cobalt.LocalAggregation.GarbageCollect
import Cobalt.LocalAggregation.Observations

/-!
# Generating unique-actives observations

For every event code and every window of days, one observation for each day of the backfill period
that has none yet. It says whether the event occurred in the window that ends on that day. The
search for an occurrence is carried from one day to the next in `activeDayIndex`.

## Main definitions

* `firstActiveDayIndexInWindow`, `isActivityInWindow`, `generateUniqueActivesObservations`.
* `occurredInWindow`: what the flag of an observation is meant to say.

## Main results

* `generateUniqueActivesWindow_eq`: the days of one event code and window are a list of items,
  each with the flag that it is meant to have.
-/

namespace Cobalt.LocalAggregation

/-! ### The functions of the source -/

/-- The day is an active one. -/
def isActiveDay (dailyAggregates : DailyAggregates) (dayIndex : ℕ) : Bool :=
  match dailyAggregates.lookup dayIndex with
  | some dayAggregate => dayAggregate.activityIndicator
  | none => false

/-- `FirstActiveDayIndexInWindow`; zero where no day of the window is active. -/
def firstActiveDayIndexInWindow (dailyAggregates : DailyAggregates)
    (obsDayIndex aggregationDays : ℕ) : ℕ :=
  let first := U32.add (U32.sub obsDayIndex aggregationDays) 1
  ((List.range' first (obsDayIndex + 1 - first)).find? (isActiveDay dailyAggregates)).getD 0

/-- `IsActivityInWindow`. -/
def isActivityInWindow (activeDayIndex obsDayIndex aggregationDays : ℕ) : Bool :=
  activeDayIndex ≤ obsDayIndex ∧ U32.sub obsDayIndex aggregationDays < activeDayIndex

/-- The flag of the observation for one day, and the next `active_day_index`. Without aggregates
for the event code nothing is searched. -/
def searchActivity (dailyAggregates : Option DailyAggregates)
    (obsDayIndex aggregationDays activeDayIndex : ℕ) : Bool × ℕ :=
  match dailyAggregates with
  | none => (false, activeDayIndex)
  | some daily =>
    if isActivityInWindow activeDayIndex obsDayIndex aggregationDays then (true, activeDayIndex)
    else
      let activeDayIndex := firstActiveDayIndexInWindow daily obsDayIndex aggregationDays
      (isActivityInWindow activeDayIndex obsDayIndex aggregationDays, activeDayIndex)

section Generate

variable (backend : Backend) (reportKey : ReportAggregationKey) (aggregates : ReportAggregates)

/-- The body of the loop over the observation days. The state of the loop is `active_day_index`
and the state of the call. -/
def generateUniqueActivesDay (eventCode : ℕ) (window : OnDeviceAggregationWindow)
    (obsDayIndex : ℕ) (st : ℕ × GenState) : Status × (ℕ × GenState) :=
  let search := searchActivity (aggregates.uniqueActivesAggregates.lookup eventCode) obsDayIndex
    (numDays window) st.1
  let r := andThen
    (generateSingleUniqueActivesObservation backend reportKey aggregates.aggregationConfig
      obsDayIndex eventCode window search.1 st.2)
    (record fun history => setUniqueActivesLastGeneratedDayIndex history reportKey eventCode
      (numDays window) obsDayIndex)
  (r.1, search.2, r.2)

/-- The body of the loop over the windows: windows that are not of days, or of too many days, are
passed over. -/
def generateUniqueActivesWindow (backfillPeriodStart finalDayIndex eventCode : ℕ)
    (window : OnDeviceAggregationWindow) (s : GenState) : Status × GenState :=
  match window with
  | .days n =>
    if kMaxAllowedAggregationDays < n then (.kOK, s)
    else
      let lastGen := getUniqueActivesLastGeneratedDayIndex s.obsHistory reportKey eventCode n
      let first := firstDayIndex lastGen backfillPeriodStart
      let r := Loop.runAll .kOK
        (generateUniqueActivesDay backend reportKey aggregates eventCode (.days n))
        (List.range' first (finalDayIndex + 1 - first)) (0, s)
      (r.1, r.2.2)
  | _ => (.kOK, s)

/-- `GenerateUniqueActivesObservations`. -/
def generateUniqueActivesObservations (backfillDays numEventCodes finalDayIndex : ℕ) :
    GenState → Status × GenState :=
  let backfillPeriodStart := U32.ofNat (finalDayIndex - backfillDays)
  Loop.runAll .kOK
    (fun eventCode => Loop.runAll .kOK
      (generateUniqueActivesWindow backend reportKey aggregates backfillPeriodStart finalDayIndex
        eventCode)
      aggregates.aggregationConfig.aggregationWindow)
    (List.range numEventCodes)

end Generate

/-! ### The flag of an observation -/

/-- Some day of the window of `days` days that ends on `obsDayIndex` is active. -/
def occurredInWindow (dailyAggregates : Option DailyAggregates) (obsDayIndex days : ℕ) : Bool :=
  (List.range' (obsDayIndex + 1 - days) days).any (isActiveDay (dailyAggregates.getD ∅))

theorem occurredInWindow_eq_true_iff {dailyAggregates : Option DailyAggregates}
    {obsDayIndex days : ℕ} (h : days ≤ obsDayIndex) :
    occurredInWindow dailyAggregates obsDayIndex days = true ↔
      ∃ day, obsDayIndex - days < day ∧ day ≤ obsDayIndex ∧
        isActiveDay (dailyAggregates.getD ∅) day = true := by
  simp only [occurredInWindow, List.any_eq_true, List.mem_range'_1]
  constructor
  · rintro ⟨day, ⟨hlo, hhi⟩, hday⟩
    exact ⟨day, by omega, by omega, hday⟩
  · rintro ⟨day, hlo, hhi, hday⟩
    exact ⟨day, ⟨by omega, by omega⟩, hday⟩

/-- What `active_day_index` can be: zero, or an active day. -/
def ActiveDayInvariant (dailyAggregates : Option DailyAggregates) (activeDayIndex : ℕ) : Prop :=
  activeDayIndex = 0 ∨ isActiveDay (dailyAggregates.getD ∅) activeDayIndex = true

private theorem isActivityInWindow_eq_true_iff {active obsDayIndex days : ℕ}
    (hobs : obsDayIndex < U32.max) (hdays : days ≤ obsDayIndex) :
    isActivityInWindow active obsDayIndex days = true ↔
      active ≤ obsDayIndex ∧ obsDayIndex - days < active := by
  rw [isActivityInWindow, decide_eq_true_eq,
    U32.sub_of_le (hobs.trans_le (Nat.sub_le _ _)) hdays]

/-- The search finds an active day of the window, or returns zero when there is none. -/
private theorem firstActiveDayIndexInWindow_cases (daily : DailyAggregates)
    {obsDayIndex days : ℕ} (hobs : obsDayIndex < U32.max) (hdays : days ≤ obsDayIndex) :
    (∃ day, firstActiveDayIndexInWindow daily obsDayIndex days = day ∧
      isActiveDay daily day = true ∧ obsDayIndex - days < day ∧ day ≤ obsDayIndex) ∨
    (firstActiveDayIndexInWindow daily obsDayIndex days = 0 ∧
      ∀ day, obsDayIndex - days < day → day ≤ obsDayIndex → isActiveDay daily day = false) := by
  have hmax : U32.max + 1 = U32.size := by decide
  have hfirst : U32.add (U32.sub obsDayIndex days) 1 = obsDayIndex - days + 1 := by
    rw [U32.sub_of_le (by omega) hdays, U32.add_of_lt (by omega)]
  rw [firstActiveDayIndexInWindow, hfirst]
  cases hfind : (List.range' (obsDayIndex - days + 1)
      (obsDayIndex + 1 - (obsDayIndex - days + 1))).find? (isActiveDay daily) with
  | some day =>
    have hmem := List.mem_range'_1.mp (List.mem_of_find?_eq_some hfind)
    exact Or.inl ⟨day, rfl, List.find?_some hfind, by omega, by omega⟩
  | none =>
    refine Or.inr ⟨rfl, fun day hlo hhi => ?_⟩
    have hday := List.find?_eq_none.mp hfind day (List.mem_range'_1.mpr ⟨by omega, by omega⟩)
    simpa using hday

/-- The flag. Whatever `active_day_index` was left by earlier days, the flag says whether a day
of the window is active. -/
theorem searchActivity_spec {dailyAggregates : Option DailyAggregates}
    {obsDayIndex days active : ℕ} (hobs : obsDayIndex < U32.max) (hdays : days ≤ obsDayIndex)
    (hactive : ActiveDayInvariant dailyAggregates active) :
    (searchActivity dailyAggregates obsDayIndex days active).1 =
        occurredInWindow dailyAggregates obsDayIndex days ∧
      ActiveDayInvariant dailyAggregates
        (searchActivity dailyAggregates obsDayIndex days active).2 := by
  cases dailyAggregates with
  | none =>
    refine ⟨?_, hactive⟩
    have hnone : ¬ occurredInWindow none obsDayIndex days = true := by
      rw [occurredInWindow_eq_true_iff hdays]
      rintro ⟨day, _, _, hday⟩
      exact absurd hday (by simp [isActiveDay])
    exact (Bool.eq_false_iff.mpr hnone).symm
  | some daily =>
    rw [searchActivity]
    split_ifs with hin
    · refine ⟨?_, hactive⟩
      have hin' := (isActivityInWindow_eq_true_iff hobs hdays).mp hin
      have hday := hactive.resolve_left (by omega)
      exact ((occurredInWindow_eq_true_iff hdays).mpr ⟨active, hin'.2, hin'.1, hday⟩).symm
    · rcases firstActiveDayIndexInWindow_cases daily hobs hdays with
        ⟨day, hfirst, hday, hlo, hhi⟩ | ⟨hfirst, hnone⟩
      · dsimp only
        rw [hfirst]
        refine ⟨?_, Or.inr hday⟩
        have hoccurred : occurredInWindow (some daily) obsDayIndex days = true :=
          (occurredInWindow_eq_true_iff hdays).mpr ⟨day, hlo, hhi, hday⟩
        rw [(isActivityInWindow_eq_true_iff hobs hdays).mpr ⟨hhi, hlo⟩, hoccurred]
      · dsimp only
        rw [hfirst]
        refine ⟨?_, Or.inl rfl⟩
        rw [Bool.eq_iff_iff, isActivityInWindow_eq_true_iff hobs hdays,
          occurredInWindow_eq_true_iff hdays]
        constructor
        · rintro ⟨_, h⟩
          omega
        · rintro ⟨day, hlo, hhi, hday⟩
          exact absurd hday (by simp [hnone day hlo hhi])

/-! ### The loop over days as a list of items -/

section Items

variable (reportKey : ReportAggregationKey) (aggregates : ReportAggregates)

/-- The item for one observation day. -/
def uniqueActivesItem (eventCode days obsDayIndex : ℕ) : Item :=
  .generate (.uniqueActives reportKey eventCode days) obsDayIndex
    (some (makeObservation aggregates.aggregationConfig obsDayIndex
      (.uniqueActives eventCode (.days days)
        (occurredInWindow (aggregates.uniqueActivesAggregates.lookup eventCode) obsDayIndex
          days))))

/-- The items for one event code and window, given the last generated day. -/
def uniqueActivesItems (backfillPeriodStart finalDayIndex eventCode days lastGen : ℕ) :
    List Item :=
  let first := firstDayIndex lastGen backfillPeriodStart
  (List.range' first (finalDayIndex + 1 - first)).map
    (uniqueActivesItem reportKey aggregates eventCode days)

variable {reportKey aggregates}

private theorem runAll_generateUniqueActivesDay {backend : Backend} {eventCode days : ℕ}
    {obsDays : List ℕ} (hdays : ∀ d ∈ obsDays, days ≤ d ∧ d < U32.max) {active : ℕ}
    (hactive : ActiveDayInvariant (aggregates.uniqueActivesAggregates.lookup eventCode) active)
    (s : GenState) :
    let r := Loop.runAll .kOK
      (generateUniqueActivesDay backend reportKey aggregates eventCode (.days days)) obsDays
      (active, s)
    (r.1, r.2.2) = Loop.runAll .kOK (runItem backend)
      (obsDays.map (uniqueActivesItem reportKey aggregates eventCode days)) s := by
  induction obsDays generalizing active s with
  | nil => rfl
  | cons d obsDays ih =>
    obtain ⟨hd, hrest⟩ := List.forall_mem_cons.mp hdays
    obtain ⟨hflag, hactive'⟩ := searchActivity_spec hd.2 hd.1 hactive
    have hbody : generateUniqueActivesDay backend reportKey aggregates eventCode (.days days) d
        (active, s) =
        ((runItem backend (uniqueActivesItem reportKey aggregates eventCode days d) s).1,
          (searchActivity (aggregates.uniqueActivesAggregates.lookup eventCode) d days active).2,
          (runItem backend (uniqueActivesItem reportKey aggregates eventCode days d) s).2) := by
      simp only [generateUniqueActivesDay, numDays, hflag]
      rfl
    rw [List.map_cons]
    by_cases hok : (runItem backend (uniqueActivesItem reportKey aggregates eventCode days d)
        s).1 = .kOK
    · rw [Loop.runAll_cons_of_ok hok, Loop.runAll_cons_of_ok (by rw [hbody]; exact hok), hbody]
      exact ih hrest hactive' _
    · rw [Loop.runAll_cons_of_ne hok, Loop.runAll_cons_of_ne (by rw [hbody]; exact hok), hbody]

/-- **One event code and window.** -/
theorem generateUniqueActivesWindow_eq {backend : Backend}
    {backfillPeriodStart finalDayIndex eventCode days : ℕ}
    (hdays : days ≤ kMaxAllowedAggregationDays)
    (hstart : kMaxAllowedAggregationDays ≤ backfillPeriodStart)
    (hfinal : finalDayIndex < U32.max) (s : GenState) :
    generateUniqueActivesWindow backend reportKey aggregates backfillPeriodStart finalDayIndex
        eventCode (.days days) s =
      Loop.runAll .kOK (runItem backend)
        (uniqueActivesItems reportKey aggregates backfillPeriodStart finalDayIndex eventCode days
          (getUniqueActivesLastGeneratedDayIndex s.obsHistory reportKey eventCode days)) s := by
  rw [generateUniqueActivesWindow, if_neg (by omega)]
  refine runAll_generateUniqueActivesDay (fun d hd => ?_) (Or.inl rfl) s
  have hmem := List.mem_range'_1.mp hd
  have hfirst := le_firstDayIndex
    (getUniqueActivesLastGeneratedDayIndex s.obsHistory reportKey eventCode days)
    backfillPeriodStart
  omega

end Items

end Cobalt.LocalAggregation
