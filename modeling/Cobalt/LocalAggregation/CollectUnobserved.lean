import Cobalt.LocalAggregation.StoredCodes
import Cobalt.LocalAggregation.Sweeps
import Mathlib.Data.List.Perm.Basic
import Mathlib.Logic.Relation

/-!
# Garbage collection is not observed

A call of `GenerateObservations` on the day `D` reads no day before the deletion bound of `D`, and
`GarbageCollect` on a day `d ≤ D` erases nothing after it. So collecting first makes no difference
to what is written, up to the order in which the maps are iterated. Two conditions are needed. An
aggregation type that the code does not know makes the call return early as long as the report has
data, so the types must be known. And the codes of a component must differ in their lower 32 bits,
since else the one that is visited first uses up the history of the other.

## Main definitions

* `AgreeAfter`: two reports with the same configuration and the same aggregates after a day.
* `CollectStep`: a call of `GarbageCollect` on an earlier day.

## Main results

* `AgreeAfter.perm_generateReport`: reports that agree after the bound give the same observations.
* `garbageCollect_unobserved`.
-/

namespace Cobalt.LocalAggregation

/-! ### What is read of a report -/

/-- Two reports with the same configuration and the same aggregates on the days after `bound`. -/
structure AgreeAfter (bound : ℕ) (a a' : ReportAggregates) : Prop where
  config : a.aggregationConfig = a'.aggregationConfig
  active : ∀ code day, bound < day →
    isActiveDay ((a.uniqueActivesAggregates.lookup code).getD ∅) day =
      isActiveDay ((a'.uniqueActivesAggregates.lookup code).getD ∅) day
  value : ∀ component code day, bound < day →
    (a.numericAggregates.dailyAggregates component code).lookup day =
      (a'.numericAggregates.dailyAggregates component code).lookup day

/-- The windows are in increasing order and of an allowed number of days. -/
def WindowsSorted (windows : List OnDeviceAggregationWindow) : Prop :=
  windows.Pairwise (fun a b => numDays a ≤ numDays b) ∧
    ∀ window ∈ windows, numDays window ≤ kMaxAllowedAggregationDays

/-- No two packed event codes of a component agree in their lower 32 bits. -/
def CodesApart (byComponent : PerDeviceNumericAggregates) : Prop :=
  ∀ component byEventCode, byComponent.lookup component = some byEventCode →
    ∀ code code', (byEventCode.lookup code).isSome → (byEventCode.lookup code').isSome →
    U32.ofNat code = U32.ofNat code' → code = code'

/-- The last window is the largest one. -/
theorem numDays_le_maxAggregationDays {windows : List OnDeviceAggregationWindow}
    (hsorted : WindowsSorted windows) {dayIndex maxDays : ℕ}
    (hmax : maxAggregationDays windows dayIndex = some maxDays) :
    maxDays ≤ kMaxAllowedAggregationDays ∧ ∀ window ∈ windows, numDays window ≤ maxDays := by
  rw [maxAggregationDays] at hmax
  cases hlast : windows.getLast? with
  | none => rw [hlast] at hmax; exact absurd hmax (by simp)
  | some last =>
    rw [hlast] at hmax
    dsimp only at hmax
    split_ifs at hmax
    have hnum : numDays last ≤ maxDays := by
      rw [← Option.some.inj hmax]
      cases last <;> simp [numDays]
    obtain ⟨init, rfl⟩ := List.getLast?_eq_some_iff.mp hlast
    refine ⟨?_, fun window hwindow => ?_⟩
    · rw [← Option.some.inj hmax]
      have hle := hsorted.2 last (by simp)
      cases last with
      | days n => exact hle
      | hours n => exact (by decide : 1 ≤ kMaxAllowedAggregationDays)
      | unitsNotSet => exact (by decide : 1 ≤ kMaxAllowedAggregationDays)
    · rcases List.mem_append.mp hwindow with hwindow | hwindow
      · exact ((List.pairwise_append.mp hsorted.1).2.2 window hwindow last
          List.mem_cons_self).trans hnum
      · rw [List.mem_singleton.mp hwindow]
        exact hnum

theorem WindowsSorted.dayWindowSizes {windows : List OnDeviceAggregationWindow}
    (h : WindowsSorted windows) : (dayWindowSizes windows).Pairwise (· ≤ ·) := by
  refine List.pairwise_filterMap.mpr (h.1.imp fun {a b} hab n hn m hm => ?_)
  cases a <;> cases b <;> simp_all [numDays]

/-! ### Unique actives -/

theorem occurredInWindow_congr {daily daily' : Option DailyAggregates} {obsDayIndex days : ℕ}
    (hdays : days ≤ obsDayIndex)
    (h : ∀ day, obsDayIndex - days < day →
      isActiveDay (daily.getD ∅) day = isActiveDay (daily'.getD ∅) day) :
    occurredInWindow daily obsDayIndex days = occurredInWindow daily' obsDayIndex days := by
  rw [Bool.eq_iff_iff, occurredInWindow_eq_true_iff hdays, occurredInWindow_eq_true_iff hdays]
  constructor
  · rintro ⟨day, hlo, hhi, hday⟩
    exact ⟨day, hlo, hhi, h day hlo ▸ hday⟩
  · rintro ⟨day, hlo, hhi, hday⟩
    exact ⟨day, hlo, hhi, (h day hlo).symm ▸ hday⟩

section Report

variable {backend : Backend} {reportKey : ReportAggregationKey} {a a' : ReportAggregates}
  {backfillDays finalDayIndex maxDays : ℕ}

/-- Unique-actives reports that agree after the bound are worked off in the same way. -/
theorem AgreeAfter.generateUniqueActivesObservations_eq
    (hsorted : WindowsSorted a.aggregationConfig.aggregationWindow)
    (hadmitted : Admitted backfillDays finalDayIndex)
    (hmax : maxAggregationDays a.aggregationConfig.aggregationWindow finalDayIndex = some maxDays)
    (h : AgreeAfter (finalDayIndex - backfillDays - maxDays) a a') (numEventCodes : ℕ)
    (s : GenState) :
    generateUniqueActivesObservations backend reportKey a backfillDays numEventCodes finalDayIndex
        s =
      generateUniqueActivesObservations backend reportKey a' backfillDays numEventCodes
        finalDayIndex s := by
  obtain ⟨hperiod, hstart⟩ := hadmitted.period
  rw [generateUniqueActivesObservations, generateUniqueActivesObservations, hperiod, ← h.config]
  refine Loop.runAll_congr (fun code _ s => Loop.runAll_congr (fun window hwindow s => ?_) s) s
  cases window with
  | unitsNotSet => rfl
  | hours n => rfl
  | days n =>
    have hn : n ≤ kMaxAllowedAggregationDays := hsorted.2 _ hwindow
    have hnmax : n ≤ maxDays := (numDays_le_maxAggregationDays hsorted hmax).2 _ hwindow
    rw [generateUniqueActivesWindow_eq hn hstart hadmitted.1,
      generateUniqueActivesWindow_eq hn hstart hadmitted.1]
    congr 1
    refine List.map_congr_left fun d hd => ?_
    have hmem := List.mem_range'_1.mp hd
    have hfirst := le_firstDayIndex (getUniqueActivesLastGeneratedDayIndex s.obsHistory reportKey
      code n) (finalDayIndex - backfillDays)
    have hflag : occurredInWindow (a.uniqueActivesAggregates.lookup code) d n =
        occurredInWindow (a'.uniqueActivesAggregates.lookup code) d n :=
      occurredInWindow_congr (by omega) fun day hday => h.active code day (by omega)
    rw [uniqueActivesItem, uniqueActivesItem, hflag, h.config]

/-! ### Numeric aggregates -/

/-- A scan sees no more than the days it looks at. -/
theorem scanDays_congr {aggregationType : OnDeviceAggregationType} {daily daily' : DailyAggregates}
    {obsDayIndex n : ℕ} {scan : Scan}
    (h : ∀ k, scan.numDays ≤ k → k < scan.numDays + n →
      daily.lookup (U32.sub obsDayIndex k) = daily'.lookup (U32.sub obsDayIndex k)) :
    scanDays aggregationType daily obsDayIndex n scan =
      scanDays aggregationType daily' obsDayIndex n scan := by
  induction n generalizing scan with
  | zero => rfl
  | succ n ih =>
    have hday : scanDay aggregationType daily obsDayIndex scan =
        scanDay aggregationType daily' obsDayIndex scan := by
      simp only [scanDay, h scan.numDays le_rfl (by omega)]
    rw [scanDays, scanDays, hday]
    cases hscan : scanDay aggregationType daily' obsDayIndex scan with
    | error status => rfl
    | ok scan' =>
      refine ih fun k hlo hhi => ?_
      rw [numDays_scanDay hscan] at hlo hhi
      exact h k (by omega) (by omega)

/-- The item of a window depends on the configuration and on the days of the window. -/
theorem numericItem_congr (hconfig : a.aggregationConfig = a'.aggregationConfig)
    {component : String} {code d n : ℕ} {daily daily' : DailyAggregates} (hd : d < U32.max)
    (hn : n ≤ d) (h : ∀ day, d - n < day → daily.lookup day = daily'.lookup day) :
    numericItem reportKey a component code daily d (.days n) =
      numericItem reportKey a' component code daily' d (.days n) := by
  have hscan : scanDays a.aggregationConfig.report.aggregationType daily d n {} =
      scanDays a.aggregationConfig.report.aggregationType daily' d n {} := by
    refine scanDays_congr fun k _ hk => ?_
    have hk : k < n := by simpa using hk
    rw [U32.sub_of_le (hd.trans_le (Nat.sub_le _ _)) (by omega)]
    exact h _ (by omega)
  rw [hconfig] at hscan
  simp only [numericItem, numericObservation, numDays, hscan, hconfig]

/-- The observations written for one event code when nothing fails. -/
def numericOutputs (reportKey : ReportAggregationKey) (aggregates : ReportAggregates)
    (start finalDayIndex : ℕ) (component : String) (code : ℕ) (lastGen : ℕ → ℕ)
    (daily : DailyAggregates) : List Written :=
  (numericItems reportKey aggregates component code daily start finalDayIndex lastGen).flatMap
    Item.output

/-- An event code without aggregates gives no observation. -/
theorem numericOutputs_empty (start finalDayIndex : ℕ) (component : String) (code : ℕ)
    (lastGen : ℕ → ℕ) :
    numericOutputs reportKey a start finalDayIndex component code lastGen ∅ = [] := by
  refine List.flatMap_eq_nil_iff.mpr fun item hitem => ?_
  obtain ⟨d, _, hitem⟩ := List.mem_flatMap.mp hitem
  obtain ⟨window, _, rfl⟩ := List.mem_map.mp hitem
  rw [numericItem]
  split
  · rfl
  · next scan hscan =>
    have hfound : ¬ scan.found = true := by
      rw [scanDays_found hscan]
      simp
    rw [if_neg hfound]
    rfl

/-- Event codes with the same aggregates after the bound give the same observations. -/
theorem numericOutputs_congr (hsorted : WindowsSorted a.aggregationConfig.aggregationWindow)
    (hadmitted : Admitted backfillDays finalDayIndex)
    (hmax : maxAggregationDays a.aggregationConfig.aggregationWindow finalDayIndex = some maxDays)
    (hconfig : a.aggregationConfig = a'.aggregationConfig) {component : String} {code : ℕ}
    {lastGen : ℕ → ℕ} {daily daily' : DailyAggregates}
    (h : ∀ day, finalDayIndex - backfillDays - maxDays < day →
      daily.lookup day = daily'.lookup day) :
    numericOutputs reportKey a (finalDayIndex - backfillDays) finalDayIndex component code lastGen
        daily =
      numericOutputs reportKey a' (finalDayIndex - backfillDays) finalDayIndex component code
        lastGen daily' := by
  have hstart := hadmitted.period.2
  have hfinal := hadmitted.1
  rw [numericOutputs, numericOutputs, numericItems, numericItems, ← hconfig]
  congr 1
  refine List.flatMap_congr fun d hd => List.map_congr_left fun window hwindow => ?_
  have hd := List.mem_range'_1.mp hd
  obtain ⟨hwindow, hdue⟩ := List.mem_filter.mp hwindow
  cases window with
  | unitsNotSet => exact absurd hdue (by simp [windowDue])
  | hours n => exact absurd hdue (by simp [windowDue])
  | days n =>
    have hn : n ≤ kMaxAllowedAggregationDays := hsorted.2 _ hwindow
    have hnmax : n ≤ maxDays := (numDays_le_maxAggregationDays hsorted hmax).2 _ hwindow
    exact numericItem_congr hconfig (by omega) (by omega) fun day hday => h day (by omega)

/-! ### Calls without failures -/

/-- Items without a failure are all worked off. -/
theorem runAll_reliable {items : List Item} (h : ∀ status, .fail status ∉ items) (s : GenState) :
    (Loop.runAll .kOK (runItem .reliable) items s).1 = .kOK ∧
      (Loop.runAll .kOK (runItem .reliable) items s).2.written =
        s.written ++ items.flatMap Item.output := by
  have hitem : ∀ item ∈ items, ∀ s, (runItem .reliable item s).1 = .kOK ∧
      (runItem .reliable item s).2.written = s.written ++ item.output := by
    intro item hmem s
    cases item with
    | fail status => exact absurd hmem (h status)
    | generate source d o =>
      cases o with
      | none => exact ⟨rfl, (List.append_nil _).symm⟩
      | some o =>
        rw [runItem, generateSingle_reliable]
        exact ⟨rfl, rfl⟩
  have hok := fun item hmem s => (hitem item hmem s).1
  exact ⟨Loop.runAll_ok hok s, Loop.runAll_outputs GenState.written (fun _ _ => ())
    (fun item _ => item.output) hok (fun item hmem s => (hitem item hmem s).2)
    (List.pairwise_of_forall fun _ _ _ => rfl) s⟩

/-- For a known aggregation type and report type no item is a failure. -/
theorem fail_notMem_numericItems
    (hrecognized : Recognized a.aggregationConfig.report.aggregationType)
    (hkind : reportKind a.aggregationConfig = some .numeric) {component : String} {code : ℕ}
    {daily : DailyAggregates} {start : ℕ} {lastGen : ℕ → ℕ} (status : Status) :
    .fail status ∉ numericItems reportKey a component code daily start finalDayIndex lastGen := by
  have htype : ∀ d window value, ∃ o,
      numericObservation reportKey a component code d window value = some o := by
    intro d window value
    rcases reportType_of_reportKind_numeric hkind with h | h <;> rw [numericObservation, h] <;>
      exact ⟨_, rfl⟩
  intro hmem
  obtain ⟨d, _, hitem⟩ := List.mem_flatMap.mp hmem
  obtain ⟨window, _, heq⟩ := List.mem_map.mp hitem
  obtain ⟨scan, hscan⟩ : ∃ scan, scanDays a.aggregationConfig.report.aggregationType daily d
      (numDays window) {} = .ok scan := exists_scanDays hrecognized _ _
  obtain ⟨o, ho⟩ := htype d window scan.aggregate
  rw [numericItem, hscan] at heq
  dsimp only at heq
  rw [ho] at heq
  split_ifs at heq

/-- What is not changed by the sources of some items is the same after them. -/
theorem runAll_items_frame {D : Type} (g : AggregatedObservationHistoryStore → D)
    {items : List Item}
    (h : ∀ source d o, .generate source d o ∈ items → ∀ history,
      g (setLastGenerated source d history) = g history) (s : GenState) :
    g (Loop.runAll .kOK (runItem backend) items s).2.obsHistory = g s.obsHistory := by
  refine Loop.runAll_rel (R := fun s s' : GenState => g s'.obsHistory = g s.obsHistory)
    (fun _ => rfl) (fun _ _ _ h₁ h₂ => h₂.trans h₁) (fun item hmem s => ?_) s
  rcases runItem_cases backend item s with ⟨hhistory, _⟩ | ⟨source, d, o, rfl, _, hhistory, _⟩
  · rw [hhistory]
  · rw [hhistory]
    exact h source d o hmem s.obsHistory

theorem source_of_mem_numericItems {component : String} {code : ℕ} {daily : DailyAggregates}
    {start d : ℕ} {lastGen : ℕ → ℕ} {source : ObservationSource} {o : Option Observation}
    (h : .generate source d o ∈ numericItems reportKey a component code daily start finalDayIndex
      lastGen) : ∃ days, source = .numeric reportKey component code days := by
  obtain ⟨obsDayIndex, _, hitem⟩ := List.mem_flatMap.mp h
  obtain ⟨window, _, heq⟩ := List.mem_map.mp hitem
  rw [numericItem] at heq
  split at heq
  · exact absurd heq (by simp)
  · split_ifs at heq
    · split at heq
      · exact ⟨_, (Item.generate.inj heq).1.symm⟩
      · exact absurd heq (by simp)
    · exact ⟨_, (Item.generate.inj heq).1.symm⟩

/-- Event codes that are apart use different histories. -/
private theorem pairwise_componentCodes {byComponent : PerDeviceNumericAggregates}
    (hapart : CodesApart byComponent) :
    (componentCodes byComponent).Pairwise fun x y =>
      ¬ (y.1 = x.1 ∧ U32.ofNat y.2.1 = U32.ofNat x.2.1) := by
  refine List.pairwise_flatMap.mpr ⟨fun c hc => ?_, ?_⟩
  · have hlookup := ProtoMap.mem_entries_iff.mp hc
    refine List.pairwise_map.mpr (List.Pairwise.imp_of_mem ?_
      (List.nodupKeys_iff_pairwise.mp c.2.nodupKeys))
    intro e e' he he' hne heq
    have hcode : ∀ e ∈ c.2.entries, (c.2.lookup e.1).isSome = true := by
      intro e he
      rw [ProtoMap.mem_entries_iff.mp he]
      rfl
    exact hne (hapart c.1 c.2 hlookup e.1 e'.1 (hcode e he) (hcode e' he') heq.2.symm)
  · refine (List.nodupKeys_iff_pairwise.mp byComponent.nodupKeys).imp fun {c c'} hne => ?_
    intro x hx y hy heq
    obtain ⟨_, _, rfl⟩ := List.mem_map.mp hx
    obtain ⟨_, _, rfl⟩ := List.mem_map.mp hy
    exact hne heq.1.symm

/-- What one event code without failures writes. -/
theorem generateNumericEventCode_reliable
    (hsorted : WindowsSorted a.aggregationConfig.aggregationWindow)
    (hrecognized : Recognized a.aggregationConfig.report.aggregationType)
    (hkind : reportKind a.aggregationConfig = some .numeric) (start : ℕ) (component : String)
    (code : ℕ) (daily : DailyAggregates) (s : GenState) :
    (generateNumericEventCode .reliable reportKey a start finalDayIndex component code daily
        s).1 = .kOK ∧
      (generateNumericEventCode .reliable reportKey a start finalDayIndex component code daily
        s).2.written = s.written ++ numericOutputs reportKey a start finalDayIndex component code
          (getPerDeviceNumericLastGeneratedDayIndex s.obsHistory reportKey component code)
          daily := by
  rw [generateNumericEventCode_eq hsorted.dayWindowSizes]
  exact runAll_reliable (fun status => fail_notMem_numericItems hrecognized hkind status) s

/-- One event code leaves everything in the history alone but its own part. -/
theorem generateNumericEventCode_frame {D : Type} (g : AggregatedObservationHistoryStore → D)
    (hsorted : WindowsSorted a.aggregationConfig.aggregationWindow) {component : String} {code : ℕ}
    (h : ∀ days d history,
      g (setPerDeviceNumericLastGeneratedDayIndex history reportKey component code days d) =
        g history) (start : ℕ) (daily : DailyAggregates) (s : GenState) :
    g (generateNumericEventCode backend reportKey a start finalDayIndex component code daily
      s).2.obsHistory = g s.obsHistory := by
  rw [generateNumericEventCode_eq hsorted.dayWindowSizes]
  refine runAll_items_frame g (fun source d o hmem history => ?_) s
  obtain ⟨days, rfl⟩ := source_of_mem_numericItems hmem
  exact h days d history

variable (reportKey finalDayIndex) in
/-- The observations of a report without failures: those of its event codes. -/
theorem generateNumericComponents_reliable
    (hsorted : WindowsSorted a.aggregationConfig.aggregationWindow)
    (hrecognized : Recognized a.aggregationConfig.report.aggregationType)
    (hkind : reportKind a.aggregationConfig = some .numeric)
    (hapart : CodesApart a.numericAggregates) (start : ℕ) (s : GenState) :
    (generateNumericComponents .reliable reportKey a start finalDayIndex s).1 = .kOK ∧
      (generateNumericComponents .reliable reportKey a start finalDayIndex s).2.written =
        s.written ++ a.numericAggregates.entries.flatMap fun c => c.2.entries.flatMap fun e =>
          numericOutputs reportKey a start finalDayIndex c.1 e.1
            (getPerDeviceNumericLastGeneratedDayIndex s.obsHistory reportKey c.1 e.1) e.2 := by
  have hok : ∀ x ∈ componentCodes a.numericAggregates, ∀ s, (generateNumericEventCode .reliable
      reportKey a start finalDayIndex x.1 x.2.1 x.2.2 s).1 = .kOK := fun x _ s =>
    (generateNumericEventCode_reliable hsorted hrecognized hkind start x.1 x.2.1 x.2.2 s).1
  rw [generateNumericComponents_eq]
  refine ⟨Loop.runAll_ok hok s, ?_⟩
  rw [Loop.runAll_outputs GenState.written
    (fun x s => getPerDeviceNumericLastGeneratedDayIndex s.obsHistory reportKey x.1 x.2.1)
    (fun x lastGen => numericOutputs reportKey a start finalDayIndex x.1 x.2.1 lastGen x.2.2) hok
    (fun x _ s => (generateNumericEventCode_reliable hsorted hrecognized hkind start x.1 x.2.1
      x.2.2 s).2)]
  · simp only [componentCodes, List.flatMap_assoc, List.flatMap_map]
  · refine (pairwise_componentCodes hapart).imp fun {x y} hne s => ?_
    refine generateNumericEventCode_frame (fun history =>
      getPerDeviceNumericLastGeneratedDayIndex history reportKey y.1 y.2.1) hsorted
      (fun days d history => ?_) start x.2.2 s
    funext days'
    rw [getPerDeviceNumeric_setPerDeviceNumeric, if_neg fun h => hne ⟨h.2.1, h.2.2.1⟩]

/-- The participation of a report without failures. -/
theorem generateParticipation_reliable (start : ℕ) (s : GenState) :
    let first := firstDayIndex (getReportParticipationLastGeneratedDayIndex s.obsHistory reportKey)
      start
    (generateParticipation .reliable reportKey a start finalDayIndex s).1 = .kOK ∧
      (generateParticipation .reliable reportKey a start finalDayIndex s).2.written =
        s.written ++ (List.range' first (finalDayIndex + 1 - first)).map
          (reportParticipationWritten reportKey a.aggregationConfig) := by
  have hok : ∀ d s, (generateParticipationDay .reliable reportKey a d s).1 = .kOK :=
    fun _ _ => rfl
  refine ⟨Loop.runAll_ok (fun d _ s => hok d s) s, ?_⟩
  rw [generateParticipation, Loop.runAll_outputs GenState.written (fun _ _ => ())
    (fun d _ => [reportParticipationWritten reportKey a.aggregationConfig d])
    (fun d _ s => hok d s) (fun d _ s => ?_) (List.pairwise_of_forall fun _ _ _ => rfl) s]
  · rw [← List.map_eq_flatMap]
  · rw [generateParticipationDay, generateSingleReportParticipationObservation,
      generateSingle_reliable]
    rfl

theorem getReportParticipation_generateNumericComponents
    (hsorted : WindowsSorted a.aggregationConfig.aggregationWindow) (start : ℕ) (s : GenState) :
    getReportParticipationLastGeneratedDayIndex (generateNumericComponents backend reportKey a
        start finalDayIndex s).2.obsHistory reportKey =
      getReportParticipationLastGeneratedDayIndex s.obsHistory reportKey := by
  rw [generateNumericComponents_eq]
  refine Loop.runAll_rel (R := fun s s' : GenState =>
      getReportParticipationLastGeneratedDayIndex s'.obsHistory reportKey =
        getReportParticipationLastGeneratedDayIndex s.obsHistory reportKey)
    (fun _ => rfl) (fun _ _ _ h₁ h₂ => h₂.trans h₁) (fun x _ s => ?_) s
  exact generateNumericEventCode_frame
    (fun history => getReportParticipationLastGeneratedDayIndex history reportKey) hsorted
    (fun days d history => getReportParticipation_setPerDeviceNumeric ..) start x.2.2 s

/-- What a numeric report without failures writes. -/
theorem generateObsFromNumericAggregates_reliable
    (hsorted : WindowsSorted a.aggregationConfig.aggregationWindow)
    (hrecognized : Recognized a.aggregationConfig.report.aggregationType)
    (hkind : reportKind a.aggregationConfig = some .numeric)
    (hapart : CodesApart a.numericAggregates) (hadmitted : Admitted backfillDays finalDayIndex)
    (s : GenState) :
    let start := finalDayIndex - backfillDays
    let first := firstDayIndex (getReportParticipationLastGeneratedDayIndex s.obsHistory reportKey)
      start
    (generateObsFromNumericAggregates .reliable reportKey a backfillDays finalDayIndex s).1 =
        .kOK ∧
      (generateObsFromNumericAggregates .reliable reportKey a backfillDays finalDayIndex
        s).2.written = s.written ++ (a.numericAggregates.entries.flatMap fun c =>
          c.2.entries.flatMap fun e => numericOutputs reportKey a start finalDayIndex c.1 e.1
            (getPerDeviceNumericLastGeneratedDayIndex s.obsHistory reportKey c.1 e.1) e.2) ++
          (List.range' first (finalDayIndex + 1 - first)).map
            (reportParticipationWritten reportKey a.aggregationConfig) := by
  have hcomponents := generateNumericComponents_reliable reportKey finalDayIndex hsorted
    hrecognized hkind hapart (finalDayIndex - backfillDays) s
  simp only [generateObsFromNumericAggregates, hadmitted.period.1]
  rw [andThen, if_pos hcomponents.1, (generateParticipation_reliable _ _).2, hcomponents.2,
    getReportParticipation_generateNumericComponents hsorted]
  exact ⟨(generateParticipation_reliable _ _).1, rfl⟩

/-- An absent map is iterated like an empty one. -/
private theorem elim_eq_of_empty {K V W : Type} {o : Option (ProtoMap K V)}
    (f : ProtoMap K V → List W) (hempty : f ∅ = []) : o.elim [] f = f (o.getD ∅) := by
  cases o with
  | none => exact hempty.symm
  | some m => rfl

/-- The components and event codes of numeric reports that agree after the bound give the same
observations, in some order. -/
theorem AgreeAfter.perm_numericOutputs
    (hsorted : WindowsSorted a.aggregationConfig.aggregationWindow)
    (hadmitted : Admitted backfillDays finalDayIndex)
    (hmax : maxAggregationDays a.aggregationConfig.aggregationWindow finalDayIndex = some maxDays)
    (h : AgreeAfter (finalDayIndex - backfillDays - maxDays) a a')
    (history : AggregatedObservationHistoryStore) :
    (a.numericAggregates.entries.flatMap fun c => c.2.entries.flatMap fun e =>
      numericOutputs reportKey a (finalDayIndex - backfillDays) finalDayIndex c.1 e.1
        (getPerDeviceNumericLastGeneratedDayIndex history reportKey c.1 e.1) e.2).Perm
    (a'.numericAggregates.entries.flatMap fun c => c.2.entries.flatMap fun e =>
      numericOutputs reportKey a' (finalDayIndex - backfillDays) finalDayIndex c.1 e.1
        (getPerDeviceNumericLastGeneratedDayIndex history reportKey c.1 e.1) e.2) := by
  -- elaborated without the goal, against which the functions could not be found
  have hcomponents := @ProtoMap.perm_flatMap_of_lookup _ _ _ _ _ a.numericAggregates
    a'.numericAggregates
    (fun component (byEventCode : EventCodeAggregates) => byEventCode.entries.flatMap fun e =>
      numericOutputs reportKey a (finalDayIndex - backfillDays) finalDayIndex component e.1
        (getPerDeviceNumericLastGeneratedDayIndex history reportKey component e.1) e.2)
    (fun component (byEventCode : EventCodeAggregates) => byEventCode.entries.flatMap fun e =>
      numericOutputs reportKey a' (finalDayIndex - backfillDays) finalDayIndex component e.1
        (getPerDeviceNumericLastGeneratedDayIndex history reportKey component e.1) e.2)
  refine hcomponents fun component => ?_
  rw [elim_eq_of_empty _ (by rfl), elim_eq_of_empty _ (by rfl)]
  refine ProtoMap.perm_flatMap_of_lookup
    (fun code => numericOutputs reportKey a (finalDayIndex - backfillDays) finalDayIndex component
      code (getPerDeviceNumericLastGeneratedDayIndex history reportKey component code))
    (fun code => numericOutputs reportKey a' (finalDayIndex - backfillDays) finalDayIndex component
      code (getPerDeviceNumericLastGeneratedDayIndex history reportKey component code))
    fun code => ?_
  rw [elim_eq_of_empty _ (numericOutputs_empty ..), elim_eq_of_empty _ (numericOutputs_empty ..)]
  exact .of_eq (numericOutputs_congr hsorted hadmitted hmax h.config (h.value component code))

/-- Numeric reports that agree after the bound give the same observations, in some order. -/
theorem AgreeAfter.perm_generateObsFromNumericAggregates
    (hsorted : WindowsSorted a.aggregationConfig.aggregationWindow)
    (hrecognized : Recognized a.aggregationConfig.report.aggregationType)
    (hkind : reportKind a.aggregationConfig = some .numeric)
    (hapart : CodesApart a.numericAggregates) (hapart' : CodesApart a'.numericAggregates)
    (hadmitted : Admitted backfillDays finalDayIndex)
    (hmax : maxAggregationDays a.aggregationConfig.aggregationWindow finalDayIndex = some maxDays)
    (h : AgreeAfter (finalDayIndex - backfillDays - maxDays) a a') (s : GenState) :
    (generateObsFromNumericAggregates .reliable reportKey a backfillDays finalDayIndex
        s).2.written.Perm
      (generateObsFromNumericAggregates .reliable reportKey a' backfillDays finalDayIndex
        s).2.written := by
  have hconfig := h.config
  rw [(generateObsFromNumericAggregates_reliable hsorted hrecognized hkind hapart hadmitted s).2,
    (generateObsFromNumericAggregates_reliable (hconfig ▸ hsorted) (hconfig ▸ hrecognized)
      (hconfig ▸ hkind) hapart' hadmitted s).2, ← hconfig]
  exact ((h.perm_numericOutputs hsorted hadmitted hmax s.obsHistory).append_left _).append_right _

/-! ### Reports do not interfere -/

/-- The part of the state that belongs to a report. -/
def historyOf (key : ReportAggregationKey) (s : GenState) : Option AggregatedObservationHistory :=
  s.obsHistory.byReportKey.lookup key

/-- A write to the history of a report sees and changes the entry of the report alone. -/
private theorem lookup_setLastGenerated_congr {k : ObservationSource} {v : ℕ}
    {history history' : AggregatedObservationHistoryStore}
    (h : history.byReportKey.lookup k.reportKey = history'.byReportKey.lookup k.reportKey) :
    (setLastGenerated k v history).byReportKey.lookup k.reportKey =
      (setLastGenerated k v history').byReportKey.lookup k.reportKey := by
  cases k with
  | uniqueActives key code days =>
    simp only [ObservationSource.reportKey] at h
    simp only [setLastGenerated, setUniqueActivesLastGeneratedDayIndex,
      ObservationSource.reportKey, ProtoMap.lookup_update_self, h]
  | numeric key component code days =>
    simp only [ObservationSource.reportKey] at h
    simp only [setLastGenerated, setPerDeviceNumericLastGeneratedDayIndex,
      ObservationSource.reportKey, ProtoMap.lookup_update_self, h]
  | reportParticipation key =>
    simp only [ObservationSource.reportKey] at h
    simp only [setLastGenerated, setReportParticipationLastGeneratedDayIndex,
      ObservationSource.reportKey, ProtoMap.lookup_update_self, h]

private theorem local_runItem {item : Item}
    (h : ∀ source d o, item = .generate source d o → source.reportKey = reportKey) :
    Loop.Local (historyOf reportKey) GenState.written (runItem .reliable item) := by
  intro s t hview
  cases item with
  | fail status => exact ⟨rfl, hview, [], by simp [runItem]⟩
  | generate source d o =>
    obtain rfl := h source d o rfl
    cases o with
    | none => exact ⟨rfl, lookup_setLastGenerated_congr hview, [], by simp [runItem, record]⟩
    | some o =>
      rw [runItem, runItem, generateSingle_reliable, generateSingle_reliable]
      exact ⟨rfl, lookup_setLastGenerated_congr hview, [⟨source, d, o⟩], rfl, rfl⟩

private theorem local_runAll_items {items : List Item}
    (h : ∀ source d o, .generate source d o ∈ items → source.reportKey = reportKey) :
    Loop.Local (historyOf reportKey) GenState.written
      (Loop.runAll .kOK (runItem .reliable) items) :=
  .runAll fun _ hmem => local_runItem fun source d o heq => h source d o (heq ▸ hmem)

/-- A unique-actives report sees its own history alone. -/
private theorem local_generateUniqueActivesObservations
    (hadmitted : Admitted backfillDays finalDayIndex) (numEventCodes : ℕ) :
    Loop.Local (historyOf reportKey) GenState.written
      (generateUniqueActivesObservations .reliable reportKey a backfillDays numEventCodes
        finalDayIndex) := by
  obtain ⟨hperiod, hstart⟩ := hadmitted.period
  have hlocal : ∀ code window, Loop.Local (historyOf reportKey) GenState.written
      (generateUniqueActivesWindow .reliable reportKey a (finalDayIndex - backfillDays)
        finalDayIndex code window) := by
    intro code window
    have hpass : Loop.Local (historyOf reportKey) GenState.written
        (fun s : GenState => (Status.kOK, s)) :=
      fun s t hview => ⟨rfl, hview, [], by simp⟩
    cases window with
    | unitsNotSet => exact hpass
    | hours n => exact hpass
    | days n =>
      by_cases hn : n ≤ kMaxAllowedAggregationDays
      · refine .of_exists fun s t hview => ?_
        refine ⟨_, local_runAll_items ?_, generateUniqueActivesWindow_eq hn hstart hadmitted.1 s,
          ?_⟩
        · intro source d o hmem
          obtain ⟨_, _, heq⟩ := List.mem_map.mp hmem
          rw [← (Item.generate.inj heq).1]
          rfl
        · rw [generateUniqueActivesWindow_eq hn hstart hadmitted.1 t,
            getUniqueActives_congr hview.symm]
      · have heq : generateUniqueActivesWindow .reliable reportKey a
            (finalDayIndex - backfillDays) finalDayIndex code (.days n) =
            fun s => (Status.kOK, s) := by
          funext s
          rw [generateUniqueActivesWindow, if_pos (by omega)]
        rw [heq]
        exact hpass
  rw [generateUniqueActivesObservations, hperiod]
  exact .runAll fun code _ => .runAll fun window _ => hlocal code window

/-- A numeric report sees its own history alone. -/
private theorem local_generateObsFromNumericAggregates
    (hsorted : WindowsSorted a.aggregationConfig.aggregationWindow) (backfillDays : ℕ) :
    Loop.Local (historyOf reportKey) GenState.written
      (generateObsFromNumericAggregates .reliable reportKey a backfillDays finalDayIndex) := by
  have hdays : ∀ days, Loop.Local (historyOf reportKey) GenState.written
      (Loop.runAll .kOK (generateParticipationDay .reliable reportKey a) days) := by
    refine fun days => .runAll fun d _ => ?_
    have heq : generateParticipationDay .reliable reportKey a d = runItem .reliable
        (.generate (.reportParticipation reportKey) d (some
          (reportParticipationWritten reportKey a.aggregationConfig d).observation)) := by
      funext s
      rw [generateParticipationDay, generateSingleReportParticipationObservation, runItem,
        generateSingle_reliable, generateSingle_reliable]
      rfl
    rw [heq]
    exact local_runItem fun source d o h => by rw [← (Item.generate.inj h).1]; rfl
  have hparticipation : ∀ start, Loop.Local (historyOf reportKey) GenState.written
      (generateParticipation .reliable reportKey a start finalDayIndex) := by
    refine fun start => .of_exists fun s t hview => ⟨_, hdays _, rfl, ?_⟩
    rw [generateParticipation, ← getReportParticipation_congr hview]
  have hcomponents : ∀ start, Loop.Local (historyOf reportKey) GenState.written
      (generateNumericComponents .reliable reportKey a start finalDayIndex) := by
    intro start
    have heq : generateNumericComponents .reliable reportKey a start finalDayIndex = _ :=
      funext fun s => generateNumericComponents_eq start s
    rw [heq]
    refine .runAll fun x _ => .of_exists fun s t hview => ?_
    refine ⟨_, local_runAll_items ?_, generateNumericEventCode_eq hsorted.dayWindowSizes _ _ s, ?_⟩
    · intro source d o hmem
      obtain ⟨days, rfl⟩ := source_of_mem_numericItems hmem
      rfl
    · rw [generateNumericEventCode_eq hsorted.dayWindowSizes]
      congr 2
      funext days
      exact (getPerDeviceNumeric_congr hview ..).symm
  exact Loop.Local.ite_ok (hcomponents _) (hparticipation _)

end Report

/-! ### A report and a call -/

/-- A report whose observations do not depend on garbage collection. -/
structure Collectable (a : ReportAggregates) : Prop where
  sorted : WindowsSorted a.aggregationConfig.aggregationWindow
  recognized : reportKind a.aggregationConfig = some .numeric →
    Recognized a.aggregationConfig.report.aggregationType
  apart : CodesApart a.numericAggregates

section Call

variable {key : ReportAggregationKey} {a a' : ReportAggregates} {backfillDays utc loc : ℕ}
  (hutc : Admitted backfillDays utc) (hlocal : Admitted backfillDays loc)

private theorem generateUniqueActivesObservations_ok {finalDayIndex : ℕ}
    (hadmitted : Admitted backfillDays finalDayIndex) (numEventCodes : ℕ) (s : GenState) :
    (generateUniqueActivesObservations .reliable key a backfillDays numEventCodes finalDayIndex
      s).1 = .kOK := by
  obtain ⟨hperiod, hstart⟩ := hadmitted.period
  rw [generateUniqueActivesObservations, hperiod]
  refine Loop.runAll_ok (fun code _ s => Loop.runAll_ok (fun window _ s => ?_) s) s
  cases window with
  | unitsNotSet => rfl
  | hours n => rfl
  | days n =>
    by_cases hn : n ≤ kMaxAllowedAggregationDays
    · rw [generateUniqueActivesWindow_eq hn hstart hadmitted.1]
      refine (runAll_reliable (fun status hmem => ?_) s).1
      obtain ⟨_, _, heq⟩ := List.mem_map.mp hmem
      exact absurd heq (by simp [uniqueActivesItem])
    · rw [generateUniqueActivesWindow, if_pos (by omega)]

include hutc hlocal

private theorem generateReport_ok (h : Collectable a) (s : GenState) :
    (generateReport .reliable backfillDays utc loc key a s).1 = .kOK := by
  rw [generateReport]
  split
  · rfl
  · next finalDayIndex hfinal =>
    have hadmitted := admitted_reportDayIndex hutc hlocal hfinal
    split
    · rfl
    · split
      · exact generateUniqueActivesObservations_ok hadmitted _ s
      · next hkind =>
        exact (generateObsFromNumericAggregates_reliable h.sorted (h.recognized hkind) hkind
          h.apart hadmitted s).1
      · rfl

private theorem local_generateReport
    (hsorted : WindowsSorted a.aggregationConfig.aggregationWindow) :
    Loop.Local (historyOf key) GenState.written
      (generateReport .reliable backfillDays utc loc key a) := by
  have hpass : Loop.Local (historyOf key) GenState.written
      (fun s : GenState => (Status.kOK, s)) :=
    fun s t hview => ⟨rfl, hview, [], by simp⟩
  unfold generateReport
  dsimp only
  cases hfinal : reportDayIndex a.aggregationConfig.metric.timeZonePolicy utc loc with
  | none => exact hpass
  | some finalDayIndex =>
    have hadmitted := admitted_reportDayIndex hutc hlocal hfinal
    dsimp only
    cases maxAggregationDays a.aggregationConfig.aggregationWindow finalDayIndex with
    | none => exact hpass
    | some maxDays =>
      cases reportKind a.aggregationConfig with
      | none => exact hpass
      | some kind =>
        cases kind with
        | uniqueActives => exact local_generateUniqueActivesObservations hadmitted _
        | numeric => exact local_generateObsFromNumericAggregates hsorted _

omit hutc hlocal in
/-- A report leaves the history of the others alone. -/
private theorem historyOf_generateReport {key' : ReportAggregationKey} (hne : key' ≠ key)
    (s : GenState) :
    historyOf key' (generateReport .reliable backfillDays utc loc key a s).2 = historyOf key' s := by
  have hrefl : ∀ s : GenState, historyOf key' s = historyOf key' s := fun _ => rfl
  have htrans : ∀ s t u : GenState, historyOf key' t = historyOf key' s →
      historyOf key' u = historyOf key' t → historyOf key' u = historyOf key' s :=
    fun _ _ _ h₁ h₂ => h₂.trans h₁
  have hsingle : ∀ w s, historyOf key' (generateSingle .reliable w s).2 = historyOf key' s := by
    intro w s
    rw [generateSingle_reliable]
    rfl
  have hrecord : ∀ {k : ObservationSource} d s, k.reportKey = key →
      historyOf key' (record (setLastGenerated k d) s).2 = historyOf key' s := by
    rintro k d s rfl
    exact lookup_setLastGenerated_of_ne hne d
  rw [generateReport]
  split
  · rfl
  · split
    · rfl
    · split
      · exact generateUniqueActivesObservations_rel
          (R := fun s s' => historyOf key' s' = historyOf key' s) hrefl htrans
          (fun w s _ _ => hsingle w s) (fun _ _ d s _ => hrecord d s rfl) _ _ s
      · exact generateObsFromNumericAggregates_rel
          (R := fun s s' => historyOf key' s' = historyOf key' s) hrefl htrans
          (fun _ _ _ _ _ _ w s _ _ => hsingle w s)
          (fun _ _ _ _ _ _ _ d s _ => hrecord d s rfl)
          (fun w s _ _ _ => (hrecord w.dayIndex _ rfl).trans (hsingle w s)) _ s
      · rfl

/-- A call without failures writes, for every report, what the report alone would write. -/
theorem generateReports_reliable {store : LocalAggregateStore}
    (h : ∀ key a, store.byReportKey.lookup key = some a → Collectable a)
    (history : AggregatedObservationHistoryStore) :
    let s : GenState := ⟨history, 0, []⟩
    (generateReports .reliable backfillDays utc loc store s).1 = .kOK ∧
      (generateReports .reliable backfillDays utc loc store s).2.written =
        store.byReportKey.entries.flatMap fun e =>
          (generateReport .reliable backfillDays utc loc e.1 e.2 s).2.written := by
  have hentry := fun e (he : e ∈ store.byReportKey.entries) =>
    h e.1 e.2 (ProtoMap.mem_entries_iff.mp he)
  have hok : ∀ e ∈ store.byReportKey.entries, ∀ s,
      (generateReport .reliable backfillDays utc loc e.1 e.2 s).1 = .kOK :=
    fun e he s => generateReport_ok hutc hlocal (hentry e he) s
  refine ⟨Loop.runAll_ok hok _, ?_⟩
  rw [generateReports, Loop.runAll_outputs GenState.written
    (fun e s => (generateReport .reliable backfillDays utc loc e.1 e.2 s).2.written.drop
      s.written.length) (fun _ new => new) hok]
  · simp
  · intro e he s
    exact (local_generateReport hutc hlocal (hentry e he).sorted).append_drop s
  · refine List.Pairwise.imp_of_mem ?_ (List.nodupKeys_iff_pairwise.mp store.byReportKey.nodupKeys)
    intro e e' _ he' hne s
    exact (local_generateReport hutc hlocal (hentry e' he').sorted).drop_eq
      (historyOf_generateReport (Ne.symm hne) s)

omit hutc hlocal in
/-- Two reports are the same to a call of `GenerateObservations`. -/
def AgreeOn (backfillDays utc loc : ℕ) (a a' : ReportAggregates) : Prop :=
  a.aggregationConfig = a'.aggregationConfig ∧ ∀ finalDayIndex maxDays,
    reportDayIndex a.aggregationConfig.metric.timeZonePolicy utc loc = some finalDayIndex →
    maxAggregationDays a.aggregationConfig.aggregationWindow finalDayIndex = some maxDays →
    AgreeAfter (finalDayIndex - backfillDays - maxDays) a a'

/-- Reports that are the same to a call give the same observations, in some order. -/
theorem AgreeOn.perm_generateReport (h : AgreeOn backfillDays utc loc a a') (ha : Collectable a)
    (ha' : Collectable a') (s : GenState) :
    (generateReport .reliable backfillDays utc loc key a s).2.written.Perm
      (generateReport .reliable backfillDays utc loc key a' s).2.written := by
  obtain ⟨hconfig, hagree⟩ := h
  rw [generateReport, generateReport, ← hconfig]
  cases hfinal : reportDayIndex a.aggregationConfig.metric.timeZonePolicy utc loc with
  | none => exact .refl _
  | some finalDayIndex =>
    have hadmitted := admitted_reportDayIndex hutc hlocal hfinal
    dsimp only
    cases hmax : maxAggregationDays a.aggregationConfig.aggregationWindow finalDayIndex with
    | none => exact .refl _
    | some maxDays =>
      have hafter := hagree finalDayIndex maxDays hfinal hmax
      dsimp only
      cases hkind : reportKind a.aggregationConfig with
      | none => exact .refl _
      | some kind =>
        cases kind with
        | uniqueActives =>
          refine .of_eq ?_
          dsimp only
          rw [hafter.generateUniqueActivesObservations_eq ha.sorted hadmitted hmax]
        | numeric =>
          exact hafter.perm_generateObsFromNumericAggregates ha.sorted (ha.recognized hkind) hkind
            ha.apart ha'.apart hadmitted hmax s

/-- Stores that are the same to a call give the same observations, in some order. -/
theorem perm_generateReports {store store' : LocalAggregateStore}
    (h : SameEntries (AgreeOn backfillDays utc loc) store.byReportKey store'.byReportKey)
    (hstore : ∀ key a, store.byReportKey.lookup key = some a → Collectable a)
    (hstore' : ∀ key a, store'.byReportKey.lookup key = some a → Collectable a)
    (history : AggregatedObservationHistoryStore) :
    (generateReports .reliable backfillDays utc loc store ⟨history, 0, []⟩).2.written.Perm
      (generateReports .reliable backfillDays utc loc store' ⟨history, 0, []⟩).2.written := by
  rw [(generateReports_reliable hutc hlocal hstore history).2,
    (generateReports_reliable hutc hlocal hstore' history).2]
  refine ProtoMap.perm_flatMap_of_lookup
    (fun key a => (generateReport .reliable backfillDays utc loc key a ⟨history, 0, []⟩).2.written)
    (fun key a => (generateReport .reliable backfillDays utc loc key a ⟨history, 0, []⟩).2.written)
    fun key => ?_
  have hkey := h key
  have hcollect := hstore key
  have hcollect' := hstore' key
  generalize store.byReportKey.lookup key = o, store'.byReportKey.lookup key = o' at *
  cases hkey with
  | none => exact .refl _
  | some hagree =>
    exact hagree.perm_generateReport hutc hlocal (hcollect _ rfl) (hcollect' _ rfl) _

end Call

/-! ### Garbage collection and rehashing -/

section Collect

variable {backfillDays utc loc : ℕ} {a a' a'' : ReportAggregates}

theorem AgreeAfter.refl (bound : ℕ) (a : ReportAggregates) : AgreeAfter bound a a :=
  ⟨rfl, fun _ _ _ => rfl, fun _ _ _ _ => rfl⟩

theorem AgreeOn.refl (backfillDays utc loc : ℕ) (a : ReportAggregates) :
    AgreeOn backfillDays utc loc a a :=
  ⟨rfl, fun _ _ _ _ => .refl _ a⟩

theorem AgreeOn.trans (h : AgreeOn backfillDays utc loc a a')
    (h' : AgreeOn backfillDays utc loc a' a'') : AgreeOn backfillDays utc loc a a'' := by
  refine ⟨h.1.trans h'.1, fun finalDayIndex maxDays hfinal hmax => ?_⟩
  have h₁ := h.2 finalDayIndex maxDays hfinal hmax
  have h₂ := h'.2 finalDayIndex maxDays (h.1 ▸ hfinal) (h.1 ▸ hmax)
  exact ⟨h₁.config.trans h₂.config,
    fun code day hday => (h₁.active code day hday).trans (h₂.active code day hday),
    fun component code day hday =>
      (h₁.value component code day hday).trans (h₂.value component code day hday)⟩

theorem SameEntries.trans {K V : Type} [DecidableEq K] {R : V → V → Prop}
    (htrans : ∀ u v w, R u v → R v w → R u w) {m m' m'' : ProtoMap K V} (h : SameEntries R m m')
    (h' : SameEntries R m' m'') : SameEntries R m m'' := by
  intro k
  have hk := h k
  have hk' := h' k
  generalize m.lookup k = o, m'.lookup k = o', m''.lookup k = o'' at hk hk' ⊢
  cases hk with
  | none => exact hk'
  | some hR =>
    cases hk' with
    | some hR' => exact .some (htrans _ _ _ hR hR')

/-- An absent value is read as a default one. -/
private theorem SameEntries.getD {K V : Type} [DecidableEq K] {R : V → V → Prop}
    {m m' : ProtoMap K V} (h : SameEntries R m m') {d : V} (hd : R d d) (k : K) :
    R ((m.lookup k).getD d) ((m'.lookup k).getD d) := by
  have hk := h k
  generalize m.lookup k = o, m'.lookup k = o' at hk ⊢
  cases hk with
  | none => exact hd
  | some hR => exact hR

private theorem SameEntries.lookup_eq {K V : Type} [DecidableEq K] {m m' : ProtoMap K V}
    (h : SameEntries Eq m m') (k : K) : m.lookup k = m'.lookup k := by
  have hk := h k
  generalize m.lookup k = o, m'.lookup k = o' at hk ⊢
  cases hk with
  | none => rfl
  | some heq => rw [heq]

/-- The order in which the maps of a report are iterated is not read. -/
private theorem agreeAfter_of_sameAggregates (bound : ℕ)
    (hconfig : a.aggregationConfig = a'.aggregationConfig) (h : SameAggregates a.type a'.type) :
    AgreeAfter bound a a' := by
  obtain ⟨type, config⟩ := a
  obtain ⟨type', config'⟩ := a'
  have hempty : SameEntries Eq (∅ : DailyAggregates) ∅ := .refl (fun _ => rfl) _
  refine ⟨hconfig, fun code day _ => ?_, fun component code day _ => ?_⟩
  · cases h with
    | typeNotSet => rfl
    | numeric => rfl
    | uniqueActives h =>
      simp only [isActiveDay, ReportAggregates.uniqueActivesAggregates,
        (h.getD hempty code).lookup_eq day]
  · cases h with
    | typeNotSet => rfl
    | uniqueActives => rfl
    | numeric h =>
      have hcodes := h.getD (.refl (.refl fun _ => rfl) (∅ : EventCodeAggregates)) component
      exact (hcodes.getD hempty code).lookup_eq day

theorem Rehashed.agreeOn {s s₁ : AggregateStore} (h : Rehashed s s₁) (backfillDays utc loc : ℕ) :
    SameEntries (AgreeOn backfillDays utc loc) s.localAggregateStore.byReportKey
      s₁.localAggregateStore.byReportKey := by
  obtain ⟨store, hsame, rfl⟩ := h
  intro key
  have hkey := hsame key
  dsimp only
  generalize s.localAggregateStore.byReportKey.lookup key = o,
    store.byReportKey.lookup key = o' at hkey ⊢
  cases hkey with
  | none => exact .none
  | some h => exact .some ⟨h.1, fun _ _ _ _ => agreeAfter_of_sameAggregates _ h.1 h.2⟩

/-- The largest window of a report does not depend on the day. -/
private theorem maxAggregationDays_unique {windows : List OnDeviceAggregationWindow}
    {d d' m m' : ℕ} (h : maxAggregationDays windows d = some m)
    (h' : maxAggregationDays windows d' = some m') : m = m' := by
  rw [maxAggregationDays] at h h'
  cases hlast : windows.getLast? with
  | none => rw [hlast] at h; exact absurd h (by simp)
  | some last =>
    rw [hlast] at h h'
    dsimp only at h h'
    split_ifs at h h'
    rw [← Option.some.inj h, ← Option.some.inj h']

/-- Garbage collection erases nothing after its bound. -/
private theorem agreeAfter_garbageCollectReport {dayIndex maxDays : ℕ}
    {a' : ReportAggregates} (hconfig : a'.aggregationConfig = a.aggregationConfig)
    (hunique : a'.uniqueActivesAggregates = garbageCollectUniqueActivesReportAggregates dayIndex
      maxDays backfillDays a.uniqueActivesAggregates)
    (hnumeric : a'.numericAggregates = garbageCollectNumericReportAggregates dayIndex maxDays
      backfillDays a.numericAggregates) {bound : ℕ}
    (hbound : deletionBound dayIndex maxDays backfillDays ≤ bound) : AgreeAfter bound a a' := by
  have hdaily : ∀ (o : Option DailyAggregates) day, bound < day →
      ((o.bind (garbageCollectDailyAggregates dayIndex maxDays backfillDays)).getD ∅).lookup day =
        (o.getD ∅).lookup day := by
    intro o day hday
    cases o with
    | none => rfl
    | some daily =>
      rw [Option.bind_some, lookup_garbageCollectDailyAggregates, if_neg (by omega)]
      rfl
  refine ⟨hconfig.symm, fun code day hday => ?_, fun component code day hday => ?_⟩
  · rw [hunique, garbageCollectUniqueActivesReportAggregates, ProtoMap.lookup_filterMap]
    simp only [isActiveDay, hdaily _ day hday]
  · rw [hnumeric, PerDeviceNumericAggregates.dailyAggregates,
      PerDeviceNumericAggregates.dailyAggregates, garbageCollectNumericReportAggregates,
      ProtoMap.lookup_filterMap]
    cases a.numericAggregates.lookup component with
    | none => rfl
    | some byEventCode =>
      rw [Option.bind_some, Option.getD_some]
      dsimp only
      split_ifs with hkept
      · -- every code of the component was erased
        have hlookup := ProtoMap.lookup_filterMap (fun _ byDayIndex =>
          garbageCollectDailyAggregates dayIndex maxDays backfillDays byDayIndex) byEventCode code
        have hnil : (byEventCode.filterMap fun _ byDayIndex =>
            garbageCollectDailyAggregates dayIndex maxDays backfillDays byDayIndex) = ∅ :=
          AList.ext (List.isEmpty_iff.mp hkept)
        rw [hnil] at hlookup
        have herased := hdaily (byEventCode.lookup code) day hday
        rw [← hlookup] at herased
        exact herased.symm
      · rw [Option.getD_some, ProtoMap.lookup_filterMap]
        exact (hdaily (byEventCode.lookup code) day hday).symm

/-- A call of `GarbageCollect` on an earlier day is not seen by a call of `GenerateObservations`. -/
theorem agreeOn_garbageCollect {s s' : AggregateStore} {utc' loc' : ℕ} {status : Status}
    (hwindows : ∀ key config, s.localAggregateStore.configOf key = some config →
      WindowsSorted config.aggregationWindow)
    (hgc : garbageCollect utc' loc' s = some (status, s')) (hutc : utc' ≤ utc)
    (hlocal : localDayIndex utc' loc' ≤ loc) :
    SameEntries (AgreeOn s.backfillDays utc loc) s.localAggregateStore.byReportKey
      s'.localAggregateStore.byReportKey := by
  obtain ⟨⟨hadmitted, hadmitted'⟩, _, _, hlookup⟩ := lookup_garbageCollect hgc
  intro key
  rw [hlookup key]
  cases ha : s.localAggregateStore.byReportKey.lookup key with
  | none => exact .none
  | some a =>
    refine .some ?_
    rcases garbageCollectReport_cases s.backfillDays utc' (localDayIndex utc' loc') a with
      heq | ⟨dayIndex, maxDays, hday, hmax, hconfig, hunique, hnumeric⟩
    · rw [heq]
      exact .refl _ _ _ a
    · refine ⟨hconfig.symm, fun finalDayIndex maxDays' hfinal hmax' => ?_⟩
      obtain rfl := maxAggregationDays_unique hmax' hmax
      have hsorted : WindowsSorted a.aggregationConfig.aggregationWindow :=
        hwindows key _ (by rw [LocalAggregateStore.configOf, ha]; rfl)
      have hle : dayIndex ≤ finalDayIndex := by
        cases hpolicy : a.aggregationConfig.metric.timeZonePolicy with
        | UTC =>
          rw [hpolicy] at hday hfinal
          rwa [← Option.some.inj hday, ← Option.some.inj hfinal]
        | LOCAL =>
          rw [hpolicy] at hday hfinal
          rwa [← Option.some.inj hday, ← Option.some.inj hfinal]
        | unrecognized n =>
          rw [hpolicy] at hday
          exact absurd hday (by simp [reportDayIndex])
      refine agreeAfter_garbageCollectReport hconfig hunique hnumeric ?_
      rw [(deletionBound_eq (admitted_reportDayIndex hadmitted hadmitted' hday)
        (numDays_le_maxAggregationDays hsorted hmax).1).1]
      omega

end Collect

/-! ### Any number of garbage collections -/

/-- A store whose reports have sorted windows of at most 365 days, recognized aggregation types
where they have numeric aggregates, and for each component packed event codes that differ in their
lower 32 bits. -/
structure CollectableStore (store : LocalAggregateStore) : Prop where
  windows : ∀ key config, store.configOf key = some config →
    WindowsSorted config.aggregationWindow
  types : ∀ key config, store.configOf key = some config → reportKind config = some .numeric →
    Recognized config.report.aggregationType
  codes : ∀ key component code code', HasCode store key component code →
    HasCode store key component code' → U32.ofNat code = U32.ofNat code' → code = code'

/-- A call of `GarbageCollect` on a day that is not after the given one, in either time zone. -/
def CollectStep (utc loc : ℕ) (s s' : AggregateStore) : Prop :=
  ∃ s₁ utc' loc' status, Rehashed s s₁ ∧ garbageCollect utc' loc' s₁ = some (status, s') ∧
    utc' ≤ utc ∧ localDayIndex utc' loc' ≤ localDayIndex utc loc

section Unobserved

variable {s s' s₁ : AggregateStore} {utc loc : ℕ}

theorem CollectableStore.collectable {store : LocalAggregateStore} (h : CollectableStore store)
    {key : ReportAggregationKey} {a : ReportAggregates}
    (hlookup : store.byReportKey.lookup key = some a) : Collectable a := by
  have hconfig : store.configOf key = some a.aggregationConfig := by
    rw [LocalAggregateStore.configOf, hlookup]
    rfl
  refine ⟨h.windows key _ hconfig, h.types key _ hconfig, ?_⟩
  intro component byEventCode hcomponent code code' hcode hcode' heq
  obtain ⟨daily, hdaily⟩ := Option.isSome_iff_exists.mp hcode
  obtain ⟨daily', hdaily'⟩ := Option.isSome_iff_exists.mp hcode'
  exact h.codes key component code code' ⟨a, byEventCode, daily, hlookup, hcomponent, hdaily⟩
    ⟨a, byEventCode, daily', hlookup, hcomponent, hdaily'⟩ heq

/-- What garbage collections and rehashing keep of a store, as far as a call of
`GenerateObservations` on a later day sees it. -/
structure Unobserved (utc loc : ℕ) (s s' : AggregateStore) : Prop where
  agree : SameEntries (AgreeOn s.backfillDays utc (localDayIndex utc loc))
    s.localAggregateStore.byReportKey s'.localAggregateStore.byReportKey
  history : s'.obsHistory = s.obsHistory
  backfillDays : s'.backfillDays = s.backfillDays
  config : ∀ key, s'.localAggregateStore.configOf key = s.localAggregateStore.configOf key
  codes : ∀ key component code, HasCode s'.localAggregateStore key component code →
    HasCode s.localAggregateStore key component code

theorem Unobserved.collectableStore (h : Unobserved utc loc s s')
    (hs : CollectableStore s.localAggregateStore) : CollectableStore s'.localAggregateStore where
  windows key config hconfig := hs.windows key config ((h.config key).symm.trans hconfig)
  types key config hconfig := hs.types key config ((h.config key).symm.trans hconfig)
  codes key component code code' hcode hcode' :=
    hs.codes key component code code' (h.codes _ _ _ hcode) (h.codes _ _ _ hcode')

theorem Unobserved.trans {s'' : AggregateStore} (h : Unobserved utc loc s s')
    (h' : Unobserved utc loc s' s'') : Unobserved utc loc s s'' where
  agree := by
    have hagree := h'.agree
    rw [h.backfillDays] at hagree
    exact SameEntries.trans (R := AgreeOn s.backfillDays utc (localDayIndex utc loc))
      (fun _ _ _ => AgreeOn.trans) h.agree hagree
  history := h'.history.trans h.history
  backfillDays := h'.backfillDays.trans h.backfillDays
  config key := (h'.config key).trans (h.config key)
  codes key component code hcode := h.codes key component code (h'.codes key component code hcode)

theorem Rehashed.unobserved (h : Rehashed s s₁) (utc loc : ℕ) : Unobserved utc loc s s₁ where
  agree := h.agreeOn _ _ _
  history := h.obsHistory_eq
  backfillDays := by
    obtain ⟨store, _, rfl⟩ := h
    rfl
  config := h.configOf_eq
  codes _ _ _ := h.hasCode

/-- One garbage collection is not observed. -/
theorem CollectStep.unobserved (h : CollectStep utc loc s s')
    (hs : CollectableStore s.localAggregateStore) : Unobserved utc loc s s' := by
  obtain ⟨s₁, utc', loc', status, hrehash, hgc, hutc, hlocal⟩ := h
  have hrehashed := hrehash.unobserved utc loc
  obtain ⟨_, hhistory, hbackfill, _⟩ := lookup_garbageCollect hgc
  refine hrehashed.trans ⟨?_, hhistory, hbackfill, configOf_garbageCollect hgc,
    fun _ _ _ => hasCode_garbageCollect hgc⟩
  exact agreeOn_garbageCollect (hrehashed.collectableStore hs).windows hgc hutc hlocal

/-- Any number of garbage collections is not observed. -/
theorem unobserved_of_reflTransGen (h : Relation.ReflTransGen (CollectStep utc loc) s s')
    (hs : CollectableStore s.localAggregateStore) : Unobserved utc loc s s' := by
  induction h with
  | refl => exact (Rehashed.refl s).unobserved utc loc
  | tail _ hstep ih => exact ih.trans (hstep.unobserved (ih.collectableStore hs))

/-- What `GenerateObservations` returns on an admitted day when nothing fails. -/
private theorem generateObservations_reliable (utc loc : ℕ)
    (hs : CollectableStore s.localAggregateStore)
    (hutc : Admitted s.backfillDays utc)
    (hlocal : Admitted s.backfillDays (localDayIndex utc loc)) :
    ∃ t, generateObservations .reliable utc loc s = some (.kOK,
      (generateReports .reliable s.backfillDays utc (localDayIndex utc loc) s.localAggregateStore
        ⟨s.obsHistory, 0, []⟩).2.written, t) := by
  have hok := (generateReports_reliable hutc hlocal (fun _ _ => hs.collectable) s.obsHistory).1
  simp only [generateObservations, hutc, hlocal, and_self, ↓reduceIte, hok]
  exact ⟨_, rfl⟩

/-- **Garbage collection is not observed.** Take a store whose reports have sorted windows of at
most 365 days, recognized aggregation types and packed event codes that differ in their lower 32
bits, with any history. After any number of garbage collections on days that are not after the
final day, `GenerateObservations` succeeds and writes the same observations as without them, in
some order, if no observation fails. And for an admitted day the subtraction that gives the
deletion bound of a report does not wrap. -/
theorem garbageCollect_unobserved (hs : CollectableStore s.localAggregateStore)
    (hutc : Admitted s.backfillDays utc) (hlocal : Admitted s.backfillDays (localDayIndex utc loc))
    (hcollect : Relation.ReflTransGen (CollectStep utc loc) s s') :
    (∀ s₁ s₁', Rehashed s s₁ → Rehashed s' s₁' → ∃ new new' t t',
      generateObservations .reliable utc loc s₁ = some (.kOK, new, t) ∧
      generateObservations .reliable utc loc s₁' = some (.kOK, new', t') ∧ new.Perm new') ∧
    ∀ key config, s.localAggregateStore.configOf key = some config →
      ∀ utc' loc', Admitted s.backfillDays utc' → Admitted s.backfillDays loc' →
      ∀ dayIndex maxDays, reportDayIndex config.metric.timeZonePolicy utc' loc' = some dayIndex →
      maxAggregationDays config.aggregationWindow dayIndex = some maxDays →
      deletionBound dayIndex maxDays s.backfillDays = dayIndex - s.backfillDays - maxDays ∧
        s.backfillDays + maxDays ≤ dayIndex := by
  refine ⟨fun s₁ s₁' hrehash hrehash' => ?_, fun key config hconfig utc' loc' hutc' hlocal' dayIndex
    maxDays hday hmax => ?_⟩
  · have h₁ := hrehash.unobserved utc loc
    have h₁' := (unobserved_of_reflTransGen hcollect hs).trans (hrehash'.unobserved utc loc)
    have hs₁ := h₁.collectableStore hs
    have hs₁' := h₁'.collectableStore hs
    obtain ⟨t, ht⟩ := generateObservations_reliable utc loc hs₁ (h₁.backfillDays ▸ hutc)
      (h₁.backfillDays ▸ hlocal)
    obtain ⟨t', ht'⟩ := generateObservations_reliable utc loc hs₁' (h₁'.backfillDays ▸ hutc)
      (h₁'.backfillDays ▸ hlocal)
    refine ⟨_, _, t, t', ht, ht', ?_⟩
    rw [h₁.backfillDays, h₁'.backfillDays, h₁.history, h₁'.history]
    exact (perm_generateReports hutc hlocal h₁.agree (fun _ _ => hs.collectable)
      (fun _ _ => hs₁.collectable) s.obsHistory).symm.trans
      (perm_generateReports hutc hlocal h₁'.agree (fun _ _ => hs.collectable)
        (fun _ _ => hs₁'.collectable) s.obsHistory)
  · exact deletionBound_eq (admitted_reportDayIndex hutc' hlocal' hday)
      (numDays_le_maxAggregationDays (hs.windows key config hconfig) hmax).1

end Unobserved

/-! ### Two stores -/

/-- A numeric report with a value on day 400 and its aggregation type, and a unique-actives report
that was active on day 500. -/
def twoReports (aggregationType : OnDeviceAggregationType) : LocalAggregateStore :=
  ⟨1, AList.insert ⟨1, 2, 3, 4⟩
    { type := .numericAggregates
        (AList.singleton "c" (AList.singleton 5 (AList.singleton 400 (.numeric 10))))
      aggregationConfig :=
        { project := ⟨1, 2⟩
          metric := { customerId := 1, projectId := 2, id := 3, metricType := .EVENT_COUNT }
          report :=
            { id := 4
              reportType := .PER_DEVICE_NUMERIC_STATS
              aggregationType := aggregationType }
          aggregationWindow := [.days 1] } }
    (AList.singleton ⟨1, 2, 6, 7⟩
      { type := .uniqueActivesAggregates (AList.singleton 0 (AList.singleton 500 (.activity true)))
        aggregationConfig :=
          { project := ⟨1, 2⟩
            metric :=
              { customerId := 1
                projectId := 2
                id := 6
                metricType := .EVENT_OCCURRED
                metricDimensions := [{}] }
            report := { id := 7, reportType := .UNIQUE_N_DAY_ACTIVES }
            aggregationWindow := [.days 1] } })⟩

/-- A store with the two reports and without a history. -/
def twoReportsStore (aggregationType : OnDeviceAggregationType) : AggregateStore where
  localAggregateStore := twoReports aggregationType
  emptyLocalAggregateStore := makeNewLocalAggregateStore
  obsHistory := makeNewObservationHistoryStore
  isDisabled := false
  backfillDays := 0
  backfillDays_le := Nat.zero_le _

private theorem lookup_twoReports {aggregationType : OnDeviceAggregationType}
    {key : ReportAggregationKey} {a : ReportAggregates}
    (h : (twoReports aggregationType).byReportKey.lookup key = some a) :
    a.aggregationConfig.aggregationWindow = [.days 1] ∧
      (reportKind a.aggregationConfig = some .numeric →
        a.aggregationConfig.report.aggregationType = aggregationType) ∧
      ∀ component byEventCode code, a.numericAggregates.lookup component = some byEventCode →
        (byEventCode.lookup code).isSome → code = 5 := by
  simp only [twoReports, ProtoMap.lookup_insert_eq_ite] at h
  split_ifs at h
  · obtain rfl := Option.some.inj h
    refine ⟨rfl, fun _ => rfl, fun component byEventCode code hcomponent hcode => ?_⟩
    have hmem : ProtoMap.entry component byEventCode ∈
        (AList.singleton "c" (AList.singleton 5 (AList.singleton 400 (.numeric 10))) :
          PerDeviceNumericAggregates).entries := ProtoMap.mem_entries_iff.mpr hcomponent
    obtain ⟨-, rfl⟩ := Sigma.mk.inj (List.mem_singleton.mp hmem)
    obtain ⟨daily, hdaily⟩ := Option.isSome_iff_exists.mp hcode
    have hmem' : ProtoMap.entry code daily ∈
        (AList.singleton 5 (AList.singleton 400 (.numeric 10)) : EventCodeAggregates).entries :=
      ProtoMap.mem_entries_iff.mpr hdaily
    exact (Sigma.mk.inj (List.mem_singleton.mp hmem')).1
  · have hmem : ProtoMap.entry key a ∈ (AList.singleton _ _ :
        ProtoMap ReportAggregationKey ReportAggregates).entries := ProtoMap.mem_entries_iff.mpr h
    obtain ⟨-, rfl⟩ := Sigma.mk.inj (List.mem_singleton.mp hmem)
    refine ⟨rfl, fun hkind => absurd hkind (by decide), fun component byEventCode code hlookup => ?_⟩
    exact absurd hlookup (by simp [ReportAggregates.numericAggregates])

private theorem windowsSorted_twoReports {aggregationType : OnDeviceAggregationType}
    (key : ReportAggregationKey) (config : AggregationConfig)
    (h : (twoReports aggregationType).configOf key = some config) :
    WindowsSorted config.aggregationWindow := by
  obtain ⟨a, hlookup, rfl⟩ := Option.map_eq_some_iff.mp h
  rw [(lookup_twoReports hlookup).1]
  exact ⟨List.pairwise_singleton _ _, fun window hwindow => by
    rw [List.mem_singleton.mp hwindow]; decide⟩

private theorem collectableStore_twoReports : CollectableStore (twoReports .SUM) := by
  refine ⟨windowsSorted_twoReports, fun key config hconfig hkind => ?_, ?_⟩
  · obtain ⟨a, hlookup, rfl⟩ := Option.map_eq_some_iff.mp hconfig
    rw [(lookup_twoReports hlookup).2.1 hkind]
    trivial
  · rintro key component code code' ⟨a, byEventCode, daily, hlookup, hcomponent, hcode⟩
      ⟨a', byEventCode', daily', hlookup', hcomponent', hcode'⟩ -
    rw [(lookup_twoReports hlookup).2.2 component byEventCode code hcomponent (by rw [hcode]; rfl),
      (lookup_twoReports hlookup').2.2 component byEventCode' code' hcomponent'
        (by rw [hcode']; rfl)]

/-- Garbage collection on day 450 erases the value of day 400, which the observations of day 500 do
not read. -/
theorem garbageCollect_unobserved_twoReports :
    ∃ s' new new' t t', CollectStep 500 500 (twoReportsStore .SUM) s' ∧
      (storedDays (twoReports .SUM) ⟨1, 2, 3, 4⟩ "c" 5).lookup 400 = some (.numeric 10) ∧
      (storedDays s'.localAggregateStore ⟨1, 2, 3, 4⟩ "c" 5).lookup 400 = none ∧
      generateObservations .reliable 500 500 (twoReportsStore .SUM) = some (.kOK, new, t) ∧
      generateObservations .reliable 500 500 s' = some (.kOK, new', t') ∧ new.Perm new' := by
  have hgc : garbageCollect 450 450 (twoReportsStore .SUM) = some (.kOK, _) := rfl
  have hstep : CollectStep 500 500 (twoReportsStore .SUM) _ :=
    ⟨_, 450, 450, .kOK, .refl _, hgc, by decide, by decide⟩
  obtain ⟨new, new', t, t', hnew, hnew', hperm⟩ := (garbageCollect_unobserved
    collectableStore_twoReports (by decide) (by decide) (.single hstep)).1 _ _ (.refl _) (.refl _)
  exact ⟨_, new, new', t, t', hstep, rfl, rfl, hnew, hnew', hperm⟩

/-- An aggregation type that the code does not know makes `GenerateObservations` return as long as
the report has a value. After a garbage collection that erases the value, the observations of both
reports are written. -/
theorem garbageCollect_observed_unrecognized :
    (∀ key config, (twoReportsStore (.unrecognized 9)).localAggregateStore.configOf key =
      some config → WindowsSorted config.aggregationWindow) ∧
    ∃ s' new new' t t', CollectStep 500 500 (twoReportsStore (.unrecognized 9)) s' ∧
      generateObservations .reliable 500 500 (twoReportsStore (.unrecognized 9)) =
        some (.kInvalidArguments, new, t) ∧
      generateObservations .reliable 500 500 s' = some (.kOK, new', t') ∧
      new.length = 0 ∧ new'.length = 2 ∧ ¬ new.Perm new' := by
  have hbefore : (generateObservations .reliable 500 500 (twoReportsStore (.unrecognized 9))).map
      (fun r => (r.1, r.2.1.length)) = some (.kInvalidArguments, 0) := by decide +kernel
  have hafter : ((garbageCollect 450 450 (twoReportsStore (.unrecognized 9))).bind fun r =>
      (generateObservations .reliable 500 500 r.2).map fun r => (r.1, r.2.1.length)) =
        some (.kOK, 2) := by decide +kernel
  obtain ⟨⟨status, new, t⟩, hnew, heq⟩ := Option.map_eq_some_iff.mp hbefore
  obtain ⟨⟨status₁, s'⟩, hgc, hafter⟩ := Option.bind_eq_some_iff.mp hafter
  obtain ⟨⟨status', new', t'⟩, hnew', heq'⟩ := Option.map_eq_some_iff.mp hafter
  obtain ⟨rfl, hlength⟩ := Prod.mk.inj heq
  obtain ⟨rfl, hlength'⟩ := Prod.mk.inj heq'
  dsimp only at hlength hlength' hnew'
  refine ⟨windowsSorted_twoReports, s', new, new', t, t', ?_, hnew, hnew', hlength, hlength', ?_⟩
  · exact ⟨_, 450, 450, status₁, .refl _, hgc, by decide, by decide⟩
  · intro hperm
    have hsame := hperm.length_eq
    omega

end Cobalt.LocalAggregation
