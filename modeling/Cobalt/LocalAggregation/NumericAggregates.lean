import Cobalt.LocalAggregation.GarbageCollect
import Cobalt.LocalAggregation.Observations
import Mathlib.Data.List.Induction

/-!
# Generating observations from numeric aggregates

For every component and packed event code, `GenerateObsFromNumericAggregates` first lists the
windows that still need an observation on each day, and then walks through the days. The windows
of one day share one scan that runs backwards from that day: a larger window goes on where the
smaller one before it stopped.

## Main definitions

* `windowsByObsDay`: the windows that need an observation, by day.
* `Scan`, `scanDays`: the shared scan.
* `generateObsFromNumericAggregates`.
* `hasValue`: some day of a window has a stored value.

## Main results

* `generateNumericEventCode_eq`: with windows in increasing order, the observations of one event
  code are a list of items, one for each day and each window due on it, in which the scan of every
  window starts afresh.
* `scanDays_found`: a scan finds a value if and only if there is one.
-/

namespace Cobalt.LocalAggregation

/-! ### The windows of a day -/

/-- `windows_by_obs_day[d].push_back(window)` for every day `d` of a list. -/
def pushWindow (window : OnDeviceAggregationWindow) (obsDays : List ℕ)
    (byObsDay : ProtoMap ℕ (List OnDeviceAggregationWindow)) :
    ProtoMap ℕ (List OnDeviceAggregationWindow) :=
  obsDays.foldl (fun m d => m.update d [] (· ++ [window])) byObsDay

/-- The map `windows_by_obs_day`, from the last generated days by window size. -/
def windowsByObsDay (lastGen : ℕ → ℕ) (backfillPeriodStart finalDayIndex : ℕ)
    (windows : List OnDeviceAggregationWindow) :
    ProtoMap ℕ (List OnDeviceAggregationWindow) :=
  windows.foldl
    (fun byObsDay window =>
      match window with
      | .days n =>
        let first := firstDayIndex (lastGen n) backfillPeriodStart
        pushWindow window (List.range' first (finalDayIndex + 1 - first)) byObsDay
      | _ => byObsDay)
    ∅

/-! ### The scan of a day -/

/-- The local variables of the scan: whether a value was found, the aggregate so far and the
number of days scanned. -/
structure Scan where
  found : Bool := false
  aggregate : ℤ := 0
  numDays : ℕ := 0
  deriving DecidableEq, Repr

/-- A day was scanned, with a new aggregate if it has a value. -/
def Scan.next (scan : Scan) : Option ℤ → Scan
  | none => { scan with numDays := scan.numDays + 1 }
  | some aggregate => ⟨true, aggregate, scan.numDays + 1⟩

/-- The body of the `while` loop. The maximum starts from zero, the minimum from the first value
found. -/
def scanDay (aggregationType : OnDeviceAggregationType) (dailyAggregates : DailyAggregates)
    (obsDayIndex : ℕ) (scan : Scan) : Except Status Scan :=
  let value := (dailyAggregates.lookup (U32.sub obsDayIndex scan.numDays)).map (·.numericValue)
  match aggregationType with
  | .SUM => .ok (scan.next (value.map (scan.aggregate + ·)))
  | .MAX => .ok (scan.next (value.map (max scan.aggregate ·)))
  | .MIN => .ok (scan.next (value.map fun v =>
      if scan.found then min scan.aggregate v else v))
  | .unrecognized _ => .error .kInvalidArguments

/-- So many turns of the `while` loop. -/
def scanDays (aggregationType : OnDeviceAggregationType) (dailyAggregates : DailyAggregates)
    (obsDayIndex : ℕ) : ℕ → Scan → Except Status Scan
  | 0, scan => .ok scan
  | n + 1, scan =>
    match scanDay aggregationType dailyAggregates obsDayIndex scan with
    | .error status => .error status
    | .ok scan => scanDays aggregationType dailyAggregates obsDayIndex n scan

/-! ### The functions of the source -/

section Generate

variable (backend : Backend) (reportKey : ReportAggregationKey) (aggregates : ReportAggregates)

/-- The `switch` on the report type once a value was found. -/
def generateSingleFromScan (obsDayIndex : ℕ) (component : String) (eventCode : ℕ)
    (window : OnDeviceAggregationWindow) (windowAggregate : ℤ) (s : GenState) :
    Status × GenState :=
  match aggregates.aggregationConfig.report.reportType with
  | .PER_DEVICE_NUMERIC_STATS =>
    generateSinglePerDeviceNumericObservation backend reportKey aggregates.aggregationConfig
      obsDayIndex component eventCode window windowAggregate s
  | .PER_DEVICE_HISTOGRAM =>
    generateSinglePerDeviceHistogramObservation backend reportKey aggregates.aggregationConfig
      obsDayIndex component eventCode window windowAggregate s
  | _ => (.kInvalidArguments, s)

/-- The body of the loop over the windows of a day. The day is recorded for the window whether or
not a value was found. -/
def generateNumericWindow (component : String) (eventCode : ℕ) (dailyAggregates : DailyAggregates)
    (obsDayIndex : ℕ) (window : OnDeviceAggregationWindow) (st : Scan × GenState) :
    Status × (Scan × GenState) :=
  match scanDays aggregates.aggregationConfig.report.aggregationType dailyAggregates obsDayIndex
      (numDays window - st.1.numDays) st.1 with
  | .error status => (status, st)
  | .ok scan =>
    let r := andThen
      (if scan.found then
        generateSingleFromScan backend reportKey aggregates obsDayIndex component eventCode window
          scan.aggregate st.2
      else (.kOK, st.2))
      (record fun history => setPerDeviceNumericLastGeneratedDayIndex history reportKey component
        eventCode (numDays window) obsDayIndex)
    (r.1, scan, r.2)

/-- The body of the loop over the observation days. -/
def generateNumericDay (component : String) (eventCode : ℕ) (dailyAggregates : DailyAggregates)
    (byObsDay : ProtoMap ℕ (List OnDeviceAggregationWindow)) (obsDayIndex : ℕ) (s : GenState) :
    Status × GenState :=
  match byObsDay.lookup obsDayIndex with
  | none => (.kOK, s)
  | some windows =>
    let r := Loop.runAll .kOK
      (generateNumericWindow backend reportKey aggregates component eventCode dailyAggregates
        obsDayIndex) windows ({}, s)
    (r.1, r.2.2)

/-- The body of the loop over the event codes of a component. -/
def generateNumericEventCode (backfillPeriodStart finalDayIndex : ℕ) (component : String)
    (eventCode : ℕ) (dailyAggregates : DailyAggregates) (s : GenState) : Status × GenState :=
  let byObsDay := windowsByObsDay
    (getPerDeviceNumericLastGeneratedDayIndex s.obsHistory reportKey component eventCode)
    backfillPeriodStart finalDayIndex aggregates.aggregationConfig.aggregationWindow
  Loop.runAll .kOK
    (generateNumericDay backend reportKey aggregates component eventCode dailyAggregates byObsDay)
    (List.range' backfillPeriodStart (finalDayIndex + 1 - backfillPeriodStart)) s

/-- The body of the loop over the days for which the report takes part. The status of the
observation is ignored. -/
def generateParticipationDay (obsDayIndex : ℕ) (s : GenState) : Status × GenState :=
  record (fun history => setReportParticipationLastGeneratedDayIndex history reportKey obsDayIndex)
    (generateSingleReportParticipationObservation backend reportKey aggregates.aggregationConfig
      obsDayIndex s).2

/-- The last loop of `GenerateObsFromNumericAggregates`. -/
def generateParticipation (backfillPeriodStart finalDayIndex : ℕ) (s : GenState) :
    Status × GenState :=
  let first := firstDayIndex (getReportParticipationLastGeneratedDayIndex s.obsHistory reportKey)
    backfillPeriodStart
  Loop.runAll .kOK (generateParticipationDay backend reportKey aggregates)
    (List.range' first (finalDayIndex + 1 - first)) s

/-- The loops over components and event codes. -/
def generateNumericComponents (backfillPeriodStart finalDayIndex : ℕ) :
    GenState → Status × GenState :=
  Loop.runAll .kOK
    (fun byComponent => Loop.runAll .kOK
      (fun byEventCode => generateNumericEventCode backend reportKey aggregates
        backfillPeriodStart finalDayIndex byComponent.1 byEventCode.1 byEventCode.2)
      byComponent.2.entries)
    aggregates.numericAggregates.entries

/-- `GenerateObsFromNumericAggregates`. -/
def generateObsFromNumericAggregates (backfillDays finalDayIndex : ℕ) (s : GenState) :
    Status × GenState :=
  let backfillPeriodStart := U32.ofNat (finalDayIndex - backfillDays)
  andThen
    (generateNumericComponents backend reportKey aggregates backfillPeriodStart finalDayIndex s)
    (generateParticipation backend reportKey aggregates backfillPeriodStart finalDayIndex)

end Generate

/-- The components and event codes of a report, in the order in which they are visited. -/
def componentCodes (byComponent : PerDeviceNumericAggregates) :
    List (String × (_ : ℕ) × DailyAggregates) :=
  byComponent.entries.flatMap fun c => c.2.entries.map (Prod.mk c.1)

/-- The two loops over components and event codes are one. -/
theorem generateNumericComponents_eq {backend : Backend} {reportKey : ReportAggregationKey}
    {aggregates : ReportAggregates} {finalDayIndex : ℕ} (start : ℕ) (s : GenState) :
    generateNumericComponents backend reportKey aggregates start finalDayIndex s =
      Loop.runAll .kOK (fun x => generateNumericEventCode backend reportKey aggregates start
        finalDayIndex x.1 x.2.1 x.2.2) (componentCodes aggregates.numericAggregates) s := by
  rw [componentCodes, Loop.runAll_flatMap, generateNumericComponents]
  refine Loop.runAll_congr (fun c _ s => ?_) s
  rw [Loop.runAll_map]

/-! ### The windows due on a day -/

/-- The window still needs an observation on the day. -/
def windowDue (lastGen : ℕ → ℕ) (backfillPeriodStart finalDayIndex obsDayIndex : ℕ) :
    OnDeviceAggregationWindow → Bool
  | .days n => firstDayIndex (lastGen n) backfillPeriodStart ≤ obsDayIndex ∧
      obsDayIndex ≤ finalDayIndex
  | _ => false

private theorem lookup_pushWindow (window : OnDeviceAggregationWindow) {obsDays : List ℕ}
    (hnodup : obsDays.Nodup) (byObsDay : ProtoMap ℕ (List OnDeviceAggregationWindow)) (d : ℕ) :
    ((pushWindow window obsDays byObsDay).lookup d).getD [] =
      (byObsDay.lookup d).getD [] ++ if d ∈ obsDays then [window] else [] := by
  rw [pushWindow, ProtoMap.lookup_foldl_update [] (· ++ [window]) hnodup]
  split_ifs with hd
  · rfl
  · rw [List.append_nil]

/-- The map holds, for every day, the windows due on it in their order. -/
theorem lookup_windowsByObsDay (lastGen : ℕ → ℕ) (backfillPeriodStart finalDayIndex : ℕ)
    (windows : List OnDeviceAggregationWindow) (d : ℕ) :
    ((windowsByObsDay lastGen backfillPeriodStart finalDayIndex windows).lookup d).getD [] =
      windows.filter (windowDue lastGen backfillPeriodStart finalDayIndex d) := by
  induction windows using List.reverseRecOn with
  | nil => rfl
  | append_singleton windows window ih =>
    rw [windowsByObsDay, List.foldl_append, ← windowsByObsDay, List.filter_append]
    cases window with
    | unitsNotSet => simpa [windowDue] using ih
    | hours n => simpa [windowDue] using ih
    | days n =>
      simp only [List.foldl_cons, List.foldl_nil]
      rw [lookup_pushWindow _ List.nodup_range', ih]
      congr 1
      simp only [windowDue, List.filter_cons, List.filter_nil, List.mem_range'_1,
        decide_eq_true_eq]
      congr 1
      apply propext
      omega

/-! ### The scan -/

section Scan

variable {aggregationType : OnDeviceAggregationType} {dailyAggregates : DailyAggregates}
  {obsDayIndex : ℕ}

/-- A scan can be interrupted. -/
theorem scanDays_add (m n : ℕ) (scan : Scan) :
    scanDays aggregationType dailyAggregates obsDayIndex (m + n) scan =
      (scanDays aggregationType dailyAggregates obsDayIndex m scan).bind
        (scanDays aggregationType dailyAggregates obsDayIndex n) := by
  induction m generalizing scan with
  | zero => rw [Nat.zero_add]; rfl
  | succ m ih =>
    rw [Nat.succ_add, scanDays, scanDays]
    cases scanDay aggregationType dailyAggregates obsDayIndex scan with
    | error status => rfl
    | ok scan => exact ih scan

theorem numDays_scanDay {scan scan' : Scan}
    (h : scanDay aggregationType dailyAggregates obsDayIndex scan = .ok scan') :
    scan'.numDays = scan.numDays + 1 := by
  have hnext : ∀ o, (scan.next o).numDays = scan.numDays + 1 := by
    intro o
    cases o <;> rfl
  cases aggregationType <;> simp only [scanDay, Except.ok.injEq, reduceCtorEq] at h <;>
    rw [← h, hnext]

theorem numDays_scanDays {n : ℕ} {scan scan' : Scan}
    (h : scanDays aggregationType dailyAggregates obsDayIndex n scan = .ok scan') :
    scan'.numDays = scan.numDays + n := by
  induction n generalizing scan with
  | zero => rw [← Except.ok.inj h, Nat.add_zero]
  | succ n ih =>
    rw [scanDays] at h
    cases hscan : scanDay aggregationType dailyAggregates obsDayIndex scan with
    | error status => rw [hscan] at h; exact absurd h (by simp)
    | ok scan₁ =>
      rw [hscan] at h
      rw [ih h, numDays_scanDay hscan, Nat.add_assoc, Nat.add_comm 1]

/-- A scan that goes on where another one stopped is one scan. -/
theorem scanDays_resume {m n : ℕ} {scan : Scan}
    (hscan : scanDays aggregationType dailyAggregates obsDayIndex m {} = .ok scan) (hm : m ≤ n) :
    scanDays aggregationType dailyAggregates obsDayIndex (n - scan.numDays) scan =
      scanDays aggregationType dailyAggregates obsDayIndex n {} := by
  have hnum : scan.numDays = m := by simpa using numDays_scanDays hscan
  have hadd := scanDays_add m (n - m) {} |>.trans (congrArg (Except.bind · _) hscan)
  rw [Nat.add_sub_cancel' hm] at hadd
  rw [hadd, hnum]
  rfl

/-- A scan can only fail for an unrecognized aggregation type. -/
theorem scanDays_error {n : ℕ} {scan : Scan} {status : Status}
    (h : scanDays aggregationType dailyAggregates obsDayIndex n scan = .error status) :
    status = .kInvalidArguments := by
  induction n generalizing scan with
  | zero => exact absurd h (by simp [scanDays])
  | succ n ih =>
    rw [scanDays] at h
    cases hscan : scanDay aggregationType dailyAggregates obsDayIndex scan with
    | error status' =>
      rw [hscan] at h
      cases aggregationType <;> simp only [scanDay, reduceCtorEq, Except.error.injEq] at hscan
      rw [← Except.error.inj h, hscan]
    | ok scan₁ =>
      rw [hscan] at h
      exact ih h

/-- The aggregation type is one that the code knows. -/
def Recognized : OnDeviceAggregationType → Prop
  | .unrecognized _ => False
  | _ => True

theorem exists_scanDays (h : Recognized aggregationType) (n : ℕ) (scan : Scan) :
    ∃ scan', scanDays aggregationType dailyAggregates obsDayIndex n scan = .ok scan' := by
  induction n generalizing scan with
  | zero => exact ⟨scan, rfl⟩
  | succ n ih =>
    have hday : ∃ scan₁, scanDay aggregationType dailyAggregates obsDayIndex scan = .ok scan₁ := by
      cases aggregationType with
      | unrecognized => exact absurd h id
      | SUM => exact ⟨_, rfl⟩
      | MIN => exact ⟨_, rfl⟩
      | MAX => exact ⟨_, rfl⟩
    obtain ⟨scan₁, hscan⟩ := hday
    rw [scanDays, hscan]
    exact ih scan₁

private theorem found_scanDay {scan scan' : Scan}
    (h : scanDay aggregationType dailyAggregates obsDayIndex scan = .ok scan') :
    scan'.found = true ↔ scan.found = true ∨
      (dailyAggregates.lookup (U32.sub obsDayIndex scan.numDays)).isSome := by
  have hnext : ∀ o : Option ℤ, (scan.next o).found = true ↔ scan.found = true ∨ o.isSome := by
    intro o
    cases o <;> simp [Scan.next]
  cases aggregationType <;> simp only [scanDay, Except.ok.injEq, reduceCtorEq] at h <;>
    rw [← h, hnext] <;> simp only [Option.isSome_map]

/-- A scan finds a value if and only if there is one among the days it looks at. -/
theorem scanDays_found {n : ℕ} {scan scan' : Scan}
    (h : scanDays aggregationType dailyAggregates obsDayIndex n scan = .ok scan') :
    scan'.found = true ↔ scan.found = true ∨ ∃ k, scan.numDays ≤ k ∧ k < scan.numDays + n ∧
      (dailyAggregates.lookup (U32.sub obsDayIndex k)).isSome := by
  induction n generalizing scan with
  | zero =>
    rw [← Except.ok.inj h]
    refine ⟨Or.inl, fun hor => hor.resolve_right ?_⟩
    rintro ⟨k, hlo, hhi, _⟩
    omega
  | succ n ih =>
    rw [scanDays] at h
    cases hscan : scanDay aggregationType dailyAggregates obsDayIndex scan with
    | error status => rw [hscan] at h; exact absurd h (by simp)
    | ok scan₁ =>
      rw [hscan] at h
      rw [ih h, found_scanDay hscan, numDays_scanDay hscan]
      constructor
      · rintro ((hf | hf) | ⟨k, hlo, hhi, hk⟩)
        · exact Or.inl hf
        · exact Or.inr ⟨scan.numDays, le_rfl, by omega, hf⟩
        · exact Or.inr ⟨k, by omega, by omega, hk⟩
      · rintro (hf | ⟨k, hlo, hhi, hk⟩)
        · exact Or.inl (Or.inl hf)
        · rcases Nat.eq_or_lt_of_le hlo with rfl | hlt
          · exact Or.inl (Or.inr hk)
          · exact Or.inr ⟨k, hlt, by omega, hk⟩

/-- Some day of the window of `days` days that ends on `obsDayIndex` has a stored value. -/
def hasValue (dailyAggregates : DailyAggregates) (obsDayIndex days : ℕ) : Prop :=
  ∃ day, obsDayIndex - days < day ∧ day ≤ obsDayIndex ∧ (dailyAggregates.lookup day).isSome

/-- The scan of a window within the admitted range looks at the days of the window. -/
theorem scanDays_found_iff_hasValue {days : ℕ} {scan : Scan} (hobs : obsDayIndex < U32.max)
    (hdays : days ≤ obsDayIndex)
    (h : scanDays aggregationType dailyAggregates obsDayIndex days {} = .ok scan) :
    scan.found = true ↔ hasValue dailyAggregates obsDayIndex days := by
  have hsub : ∀ k, k ≤ obsDayIndex → U32.sub obsDayIndex k = obsDayIndex - k := fun k hk =>
    U32.sub_of_le (hobs.trans_le (Nat.sub_le _ _)) hk
  rw [scanDays_found h]
  simp only [Bool.false_eq_true, Nat.zero_le, Nat.zero_add, true_and, false_or]
  constructor
  · rintro ⟨k, hk, hsome⟩
    rw [hsub k (by omega)] at hsome
    exact ⟨obsDayIndex - k, by omega, by omega, hsome⟩
  · rintro ⟨day, hlo, hhi, hsome⟩
    refine ⟨obsDayIndex - day, by omega, ?_⟩
    rwa [hsub _ (by omega), Nat.sub_sub_self hhi]

end Scan

/-! ### The loops over days and windows as a list of items -/

/-- The sizes of the windows of days, in their order. -/
def dayWindowSizes (windows : List OnDeviceAggregationWindow) : List ℕ :=
  windows.filterMap fun window =>
    match window with
    | .days n => some n
    | _ => none

theorem mem_dayWindowSizes {windows : List OnDeviceAggregationWindow} {n : ℕ} :
    n ∈ dayWindowSizes windows ↔ .days n ∈ windows := by
  simp only [dayWindowSizes, List.mem_filterMap]
  constructor
  · rintro ⟨window, hmem, h⟩
    cases window <;> simp_all
  · intro h
    exact ⟨_, h, rfl⟩

/-- The windows due on a day are in the order of the windows of days. -/
theorem pairwise_windowDue {R : ℕ → ℕ → Prop} {windows : List OnDeviceAggregationWindow}
    (h : (dayWindowSizes windows).Pairwise R) (lastGen : ℕ → ℕ)
    (backfillPeriodStart finalDayIndex d : ℕ) :
    (windows.filter (windowDue lastGen backfillPeriodStart finalDayIndex d)).Pairwise
      fun a b => R (numDays a) (numDays b) := by
  refine List.Pairwise.imp_of_mem ?_ ((List.pairwise_filterMap.mp h).filter _)
  intro a b ha hb hab
  cases a <;> cases b <;>
    simp_all only [List.mem_filter, windowDue, Bool.false_eq_true, and_false]
  exact hab _ rfl _ rfl

section Items

variable (reportKey : ReportAggregationKey) (aggregates : ReportAggregates) (component : String)
  (eventCode : ℕ) (dailyAggregates : DailyAggregates)

/-- The observation for a value that was found, `none` for an unexpected report type. -/
def numericObservation (obsDayIndex : ℕ) (window : OnDeviceAggregationWindow) (value : ℤ) :
    Option Observation :=
  match aggregates.aggregationConfig.report.reportType with
  | .PER_DEVICE_NUMERIC_STATS => some (perDeviceNumericWritten reportKey
      aggregates.aggregationConfig obsDayIndex component eventCode window value).observation
  | .PER_DEVICE_HISTOGRAM => some (perDeviceHistogramWritten reportKey
      aggregates.aggregationConfig obsDayIndex component eventCode window value).observation
  | _ => none

/-- The item for one day and window, with a scan of its own. -/
def numericItem (obsDayIndex : ℕ) (window : OnDeviceAggregationWindow) : Item :=
  match scanDays aggregates.aggregationConfig.report.aggregationType dailyAggregates obsDayIndex
      (numDays window) {} with
  | .error status => .fail status
  | .ok scan =>
    if scan.found then
      match numericObservation reportKey aggregates component eventCode obsDayIndex window
          scan.aggregate with
      | some observation =>
        .generate (.numeric reportKey component eventCode (numDays window)) obsDayIndex
          (some observation)
      | none => .fail .kInvalidArguments
    else .generate (.numeric reportKey component eventCode (numDays window)) obsDayIndex none

/-- The items for one event code, given the last generated days by window size. -/
def numericItems (backfillPeriodStart finalDayIndex : ℕ) (lastGen : ℕ → ℕ) : List Item :=
  (List.range' backfillPeriodStart (finalDayIndex + 1 - backfillPeriodStart)).flatMap
    fun obsDayIndex =>
      (aggregates.aggregationConfig.aggregationWindow.filter
        (windowDue lastGen backfillPeriodStart finalDayIndex obsDayIndex)).map
        (numericItem reportKey aggregates component eventCode dailyAggregates obsDayIndex)

variable {reportKey aggregates component eventCode dailyAggregates} {backend : Backend}

variable (reportKey component eventCode backend) in
/-- A window whose scan goes on where an earlier one stopped is worked off like its item. -/
theorem generateNumericWindow_eq {obsDayIndex : ℕ} {window : OnDeviceAggregationWindow}
    {m : ℕ} {scan : Scan}
    (hscan : scanDays aggregates.aggregationConfig.report.aggregationType dailyAggregates
      obsDayIndex m {} = .ok scan) (hm : m ≤ numDays window) (s : GenState) :
    let r := generateNumericWindow backend reportKey aggregates component eventCode
      dailyAggregates obsDayIndex window (scan, s)
    (r.1, r.2.2) = runItem backend (numericItem reportKey aggregates component eventCode
        dailyAggregates obsDayIndex window) s ∧
      (r.1 = .kOK → scanDays aggregates.aggregationConfig.report.aggregationType dailyAggregates
        obsDayIndex (numDays window) {} = .ok r.2.1) := by
  dsimp only
  rw [generateNumericWindow, numericItem]
  dsimp only
  rw [scanDays_resume hscan hm]
  cases hresult : scanDays aggregates.aggregationConfig.report.aggregationType dailyAggregates
      obsDayIndex (numDays window) {} with
  | error status =>
    refine ⟨rfl, fun hok => ?_⟩
    exact absurd (hok.symm.trans (scanDays_error hresult)) (by decide)
  | ok scan' =>
    refine ⟨?_, fun _ => rfl⟩
    dsimp only
    by_cases hfound : scan'.found = true
    · simp only [hfound, ↓reduceIte]
      rw [generateSingleFromScan, numericObservation]
      cases aggregates.aggregationConfig.report.reportType <;> rfl
    · simp only [hfound, Bool.false_eq_true, ↓reduceIte]
      rfl

/-- The windows of a day, in increasing order, are worked off like their items. -/
private theorem runAll_generateNumericWindow {obsDayIndex : ℕ}
    {windows : List OnDeviceAggregationWindow}
    (hsorted : windows.Pairwise fun a b => numDays a ≤ numDays b) {m : ℕ} {scan : Scan}
    (hscan : scanDays aggregates.aggregationConfig.report.aggregationType dailyAggregates
      obsDayIndex m {} = .ok scan) (hm : ∀ window ∈ windows, m ≤ numDays window) (s : GenState) :
    let r := Loop.runAll .kOK (generateNumericWindow backend reportKey aggregates component
      eventCode dailyAggregates obsDayIndex) windows (scan, s)
    (r.1, r.2.2) = Loop.runAll .kOK (runItem backend)
      (windows.map (numericItem reportKey aggregates component eventCode dailyAggregates
        obsDayIndex)) s := by
  induction windows generalizing m scan s with
  | nil => rfl
  | cons window windows ih =>
    obtain ⟨hle, hsorted⟩ := List.pairwise_cons.mp hsorted
    obtain ⟨heq, hnext⟩ := generateNumericWindow_eq reportKey component eventCode backend hscan
      (hm window List.mem_cons_self) s
    have hst := congrArg Prod.fst heq
    have hs := congrArg Prod.snd heq
    dsimp only at hst hs
    rw [List.map_cons]
    by_cases hok : (runItem backend (numericItem reportKey aggregates component eventCode
        dailyAggregates obsDayIndex window) s).1 = .kOK
    · rw [Loop.runAll_cons_of_ok hok, Loop.runAll_cons_of_ok (hst.trans hok), ← hs]
      exact ih hsorted (hnext (hst.trans hok)) hle _
    · rw [Loop.runAll_cons_of_ne hok, Loop.runAll_cons_of_ne fun h => hok (hst.symm.trans h)]
      exact heq

/-- **One event code.** With windows in increasing order, each day and window due on it is one
item. -/
theorem generateNumericEventCode_eq
    (hsorted : (dayWindowSizes aggregates.aggregationConfig.aggregationWindow).Pairwise (· ≤ ·))
    (backfillPeriodStart finalDayIndex : ℕ) (s : GenState) :
    generateNumericEventCode backend reportKey aggregates backfillPeriodStart finalDayIndex
        component eventCode dailyAggregates s =
      Loop.runAll .kOK (runItem backend)
        (numericItems reportKey aggregates component eventCode dailyAggregates
          backfillPeriodStart finalDayIndex
          (getPerDeviceNumericLastGeneratedDayIndex s.obsHistory reportKey component eventCode))
        s := by
  rw [generateNumericEventCode, numericItems, Loop.runAll_flatMap]
  refine Loop.runAll_congr (fun d _ s' => ?_) s
  have hdue := pairwise_windowDue hsorted
    (getPerDeviceNumericLastGeneratedDayIndex s.obsHistory reportKey component eventCode)
    backfillPeriodStart finalDayIndex d
  rw [← lookup_windowsByObsDay] at hdue ⊢
  rw [generateNumericDay]
  cases hlookup : (windowsByObsDay
      (getPerDeviceNumericLastGeneratedDayIndex s.obsHistory reportKey component eventCode)
      backfillPeriodStart finalDayIndex
      aggregates.aggregationConfig.aggregationWindow).lookup d with
  | none => rfl
  | some windows =>
    rw [hlookup] at hdue
    exact runAll_generateNumericWindow hdue (m := 0) rfl (fun _ _ => Nat.zero_le _) s'

end Items

end Cobalt.LocalAggregation
