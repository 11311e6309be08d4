import Cobalt.Lib.Prog
import Cobalt.LocalAggregation.GenerateObservations

/-!
# The steps of `GenerateObservations`

After it has copied the aggregates, `GenerateObservations` holds no lock for longer than one access
to the history. Here the functions that generate observations are written as programs of such
accesses, between which other threads can run. Executed without interruption they are the functions
of `Cobalt.LocalAggregation.GenerateObservations`.

## Main definitions

* `GenOp`: a read of the history, an attempt at an observation, or a write to the history.
* `Steps.generateReports`: the program of a call, for the copy of the aggregates.

## Main results

* `Steps.exec_generateReports`: the uninterrupted program is `generateReports`.
* `Steps.asks_generateReports`: the program writes to the history of sources that fit the copy only.
-/

namespace Cobalt.LocalAggregation

/-- The operations of `GenerateObservations` that others can come between. -/
inductive GenOp
  | get (source : ObservationSource)
  | attempt (w : Written)
  | set (source : ObservationSource) (value : ℕ)

namespace GenOp

/-- What an operation returns. -/
def Res : GenOp → Type
  | get _ => ℕ
  | attempt _ => Status
  | set _ _ => Unit

/-- What an operation does. -/
def handle (backend : Backend) : (op : GenOp) → GenState → op.Res × GenState
  | get source, s => (getLastGenerated s.obsHistory source, s)
  | attempt w, s => generateSingle backend w s
  | set source value, s =>
    ((), { s with obsHistory := setLastGenerated source value s.obsHistory })

/-- The operation writes to the history of a source that fits the store, if it writes at all. -/
def Fits (store : LocalAggregateStore) : GenOp → Prop
  | set source _ => LocalAggregation.Fits store source
  | _ => True

end GenOp

/-- A program of these operations. -/
abbrev GenProg (A : Type) : Type := Prog GenOp GenOp.Res A

namespace Steps

/-! ### The programs -/

/-- A read of the history. -/
def get (source : ObservationSource) : GenProg ℕ :=
  .ask (.get source) .done

/-- An attempt at one observation. -/
def attempt (w : Written) : GenProg Status :=
  .ask (.attempt w) .done

/-- A write to the history. -/
def record (source : ObservationSource) (value : ℕ) : GenProg Status :=
  .ask (.set source value) fun _ => .done .kOK

/-- `if (status != kOK) return status;` after a program, then the next one. -/
def andThen (p next : GenProg Status) : GenProg Status :=
  p.bind fun status => if status = .kOK then next else .done status

section Generate

variable (reportKey : ReportAggregationKey) (aggregates : ReportAggregates)

/-- The program of `LocalAggregation.generateUniqueActivesDay`. -/
def generateUniqueActivesDay (eventCode : ℕ) (window : OnDeviceAggregationWindow)
    (obsDayIndex activeDayIndex : ℕ) : GenProg (Status × ℕ) :=
  let search := searchActivity (aggregates.uniqueActivesAggregates.lookup eventCode) obsDayIndex
    (numDays window) activeDayIndex
  (andThen
    (attempt (uniqueActivesWritten reportKey aggregates.aggregationConfig obsDayIndex eventCode window
      search.1))
    (record (.uniqueActives reportKey eventCode (numDays window)) obsDayIndex)).bind
  fun status => .done (status, search.2)

/-- The program of `LocalAggregation.generateUniqueActivesWindow`. -/
def generateUniqueActivesWindow (backfillPeriodStart finalDayIndex eventCode : ℕ)
    (window : OnDeviceAggregationWindow) : GenProg Status :=
  match window with
  | .days n =>
    if kMaxAllowedAggregationDays < n then .done .kOK
    else
      (get (.uniqueActives reportKey eventCode n)).bind fun lastGen =>
        let first := firstDayIndex lastGen backfillPeriodStart
        (Prog.runAllWith .kOK (generateUniqueActivesDay reportKey aggregates eventCode (.days n))
          (List.range' first (finalDayIndex + 1 - first)) 0).bind fun r => .done r.1
  | _ => .done .kOK

/-- The program of `LocalAggregation.generateUniqueActivesObservations`. -/
def generateUniqueActivesObservations (backfillDays numEventCodes finalDayIndex : ℕ) :
    GenProg Status :=
  let backfillPeriodStart := U32.ofNat (finalDayIndex - backfillDays)
  Prog.runAll .kOK
    (fun eventCode => Prog.runAll .kOK
      (generateUniqueActivesWindow reportKey aggregates backfillPeriodStart finalDayIndex eventCode)
      aggregates.aggregationConfig.aggregationWindow)
    (List.range numEventCodes)

/-- The program of `LocalAggregation.windowsByObsDay`: one read of the history for every window of
days. -/
def windowsByObsDay (component : String) (eventCode backfillPeriodStart finalDayIndex : ℕ) :
    List OnDeviceAggregationWindow → ProtoMap ℕ (List OnDeviceAggregationWindow) →
      GenProg (ProtoMap ℕ (List OnDeviceAggregationWindow))
  | [], byObsDay => .done byObsDay
  | .days n :: windows, byObsDay =>
    (get (.numeric reportKey component eventCode n)).bind fun lastGen =>
      let first := firstDayIndex lastGen backfillPeriodStart
      windowsByObsDay component eventCode backfillPeriodStart finalDayIndex windows
        (pushWindow (.days n) (List.range' first (finalDayIndex + 1 - first)) byObsDay)
  | _ :: windows, byObsDay =>
    windowsByObsDay component eventCode backfillPeriodStart finalDayIndex windows byObsDay

/-- The program of `LocalAggregation.generateSingleFromScan`. -/
def generateSingleFromScan (obsDayIndex : ℕ) (component : String) (eventCode : ℕ)
    (window : OnDeviceAggregationWindow) (windowAggregate : ℤ) : GenProg Status :=
  match aggregates.aggregationConfig.report.reportType with
  | .PER_DEVICE_NUMERIC_STATS =>
    attempt (perDeviceNumericWritten reportKey aggregates.aggregationConfig obsDayIndex component
      eventCode window windowAggregate)
  | .PER_DEVICE_HISTOGRAM =>
    attempt (perDeviceHistogramWritten reportKey aggregates.aggregationConfig obsDayIndex component
      eventCode window windowAggregate)
  | _ => .done .kInvalidArguments

/-- The program of `LocalAggregation.generateNumericWindow`. -/
def generateNumericWindow (component : String) (eventCode : ℕ) (dailyAggregates : DailyAggregates)
    (obsDayIndex : ℕ) (window : OnDeviceAggregationWindow) (scan : Scan) :
    GenProg (Status × Scan) :=
  match scanDays aggregates.aggregationConfig.report.aggregationType dailyAggregates obsDayIndex
      (numDays window - scan.numDays) scan with
  | .error status => .done (status, scan)
  | .ok scan =>
    (andThen
      (if scan.found then
        generateSingleFromScan reportKey aggregates obsDayIndex component eventCode window
          scan.aggregate
      else .done .kOK)
      (record (.numeric reportKey component eventCode (numDays window)) obsDayIndex)).bind
    fun status => .done (status, scan)

/-- The program of `LocalAggregation.generateNumericDay`. -/
def generateNumericDay (component : String) (eventCode : ℕ) (dailyAggregates : DailyAggregates)
    (byObsDay : ProtoMap ℕ (List OnDeviceAggregationWindow)) (obsDayIndex : ℕ) : GenProg Status :=
  match byObsDay.lookup obsDayIndex with
  | none => .done .kOK
  | some windows =>
    (Prog.runAllWith .kOK
      (generateNumericWindow reportKey aggregates component eventCode dailyAggregates obsDayIndex)
      windows {}).bind fun r => .done r.1

/-- The program of `LocalAggregation.generateNumericEventCode`. -/
def generateNumericEventCode (backfillPeriodStart finalDayIndex : ℕ) (component : String)
    (eventCode : ℕ) (dailyAggregates : DailyAggregates) : GenProg Status :=
  (windowsByObsDay reportKey component eventCode backfillPeriodStart finalDayIndex
    aggregates.aggregationConfig.aggregationWindow ∅).bind fun byObsDay =>
    Prog.runAll .kOK
      (generateNumericDay reportKey aggregates component eventCode dailyAggregates byObsDay)
      (List.range' backfillPeriodStart (finalDayIndex + 1 - backfillPeriodStart))

/-- The program of `LocalAggregation.generateParticipationDay`. -/
def generateParticipationDay (obsDayIndex : ℕ) : GenProg Status :=
  (attempt (reportParticipationWritten reportKey aggregates.aggregationConfig obsDayIndex)).bind
    fun _ => record (.reportParticipation reportKey) obsDayIndex

/-- The program of `LocalAggregation.generateParticipation`. -/
def generateParticipation (backfillPeriodStart finalDayIndex : ℕ) : GenProg Status :=
  (get (.reportParticipation reportKey)).bind fun lastGen =>
    let first := firstDayIndex lastGen backfillPeriodStart
    Prog.runAll .kOK (generateParticipationDay reportKey aggregates)
      (List.range' first (finalDayIndex + 1 - first))

/-- The program of `LocalAggregation.generateNumericComponents`. -/
def generateNumericComponents (backfillPeriodStart finalDayIndex : ℕ) : GenProg Status :=
  Prog.runAll .kOK
    (fun byComponent => Prog.runAll .kOK
      (fun byEventCode => generateNumericEventCode reportKey aggregates backfillPeriodStart
        finalDayIndex byComponent.1 byEventCode.1 byEventCode.2)
      byComponent.2.entries)
    aggregates.numericAggregates.entries

/-- The program of `LocalAggregation.generateObsFromNumericAggregates`. -/
def generateObsFromNumericAggregates (backfillDays finalDayIndex : ℕ) : GenProg Status :=
  let backfillPeriodStart := U32.ofNat (finalDayIndex - backfillDays)
  andThen (generateNumericComponents reportKey aggregates backfillPeriodStart finalDayIndex)
    (generateParticipation reportKey aggregates backfillPeriodStart finalDayIndex)

/-- The program of `LocalAggregation.generateReport`. -/
def generateReport (backfillDays finalDayIndexUtc finalDayIndexLocal : ℕ) : GenProg Status :=
  let config := aggregates.aggregationConfig
  match reportDayIndex config.metric.timeZonePolicy finalDayIndexUtc finalDayIndexLocal with
  | none => .done .kOK
  | some finalDayIndex =>
    match maxAggregationDays config.aggregationWindow finalDayIndex with
    | none => .done .kOK
    | some _ =>
      match reportKind config with
      | some .uniqueActives =>
        generateUniqueActivesObservations reportKey aggregates backfillDays
          (basicRapporNumCategories config.metric) finalDayIndex
      | some .numeric =>
        generateObsFromNumericAggregates reportKey aggregates backfillDays finalDayIndex
      | none => .done .kOK

end Generate

/-- The program of `LocalAggregation.generateReports`. -/
def generateReports (backfillDays finalDayIndexUtc finalDayIndexLocal : ℕ)
    (store : LocalAggregateStore) : GenProg Status :=
  Prog.runAll .kOK
    (fun report => generateReport report.1 report.2 backfillDays finalDayIndexUtc finalDayIndexLocal)
    store.byReportKey.entries

/-! ### Uninterrupted execution -/

section Exec

variable (backend : Backend) (reportKey : ReportAggregationKey) (aggregates : ReportAggregates)

theorem exec_andThen {p next : GenProg Status} {f g : GenState → Status × GenState}
    (hp : ∀ s, Prog.exec (GenOp.handle backend) p s = f s)
    (hnext : ∀ s, Prog.exec (GenOp.handle backend) next s = g s) (s : GenState) :
    Prog.exec (GenOp.handle backend) (andThen p next) s = LocalAggregation.andThen (f s) g := by
  rw [andThen, Prog.exec_bind, hp, LocalAggregation.andThen]
  split_ifs
  · exact hnext _
  · rfl

theorem exec_generateUniqueActivesDay (eventCode : ℕ) (window : OnDeviceAggregationWindow)
    (obsDayIndex activeDayIndex : ℕ) (s : GenState) :
    Prog.exec (GenOp.handle backend)
        (generateUniqueActivesDay reportKey aggregates eventCode window obsDayIndex activeDayIndex) s =
      (((LocalAggregation.generateUniqueActivesDay backend reportKey aggregates eventCode window
          obsDayIndex (activeDayIndex, s)).1,
        (LocalAggregation.generateUniqueActivesDay backend reportKey aggregates eventCode window
          obsDayIndex (activeDayIndex, s)).2.1),
        (LocalAggregation.generateUniqueActivesDay backend reportKey aggregates eventCode window
          obsDayIndex (activeDayIndex, s)).2.2) := by
  rw [generateUniqueActivesDay, Prog.exec_bind, exec_andThen backend (fun _ => rfl) (fun _ => rfl)]
  rfl

theorem exec_generateUniqueActivesWindow (backfillPeriodStart finalDayIndex eventCode : ℕ)
    (window : OnDeviceAggregationWindow) (s : GenState) :
    Prog.exec (GenOp.handle backend) (generateUniqueActivesWindow reportKey aggregates
        backfillPeriodStart finalDayIndex eventCode window) s =
      LocalAggregation.generateUniqueActivesWindow backend reportKey aggregates backfillPeriodStart
        finalDayIndex eventCode window s := by
  cases window with
  | unitsNotSet => rfl
  | hours n => rfl
  | days n =>
    rw [generateUniqueActivesWindow, LocalAggregation.generateUniqueActivesWindow]
    split_ifs
    · rfl
    · rw [Prog.exec_bind, Prog.exec_bind]
      dsimp only
      rw [Prog.exec_runAllWith fun d _ x s => exec_generateUniqueActivesDay backend reportKey
        aggregates eventCode (.days n) d x s]
      rfl

theorem exec_generateUniqueActivesObservations (backfillDays numEventCodes finalDayIndex : ℕ)
    (s : GenState) :
    Prog.exec (GenOp.handle backend) (generateUniqueActivesObservations reportKey aggregates
        backfillDays numEventCodes finalDayIndex) s =
      LocalAggregation.generateUniqueActivesObservations backend reportKey aggregates backfillDays
        numEventCodes finalDayIndex s :=
  Prog.exec_runAll (fun eventCode _ s => Prog.exec_runAll (fun window _ s =>
    exec_generateUniqueActivesWindow backend reportKey aggregates _ _ eventCode window s) s) s

/-- The reads for one event code leave the state alone, so they all see the same history. -/
theorem exec_windowsByObsDay (component : String)
    (eventCode backfillPeriodStart finalDayIndex : ℕ) (windows : List OnDeviceAggregationWindow)
    (s : GenState) :
    Prog.exec (GenOp.handle backend) (windowsByObsDay reportKey component eventCode
        backfillPeriodStart finalDayIndex windows ∅) s =
      (LocalAggregation.windowsByObsDay
        (getPerDeviceNumericLastGeneratedDayIndex s.obsHistory reportKey component eventCode)
        backfillPeriodStart finalDayIndex windows, s) := by
  rw [LocalAggregation.windowsByObsDay]
  generalize (∅ : ProtoMap ℕ (List OnDeviceAggregationWindow)) = byObsDay
  induction windows generalizing byObsDay with
  | nil => rfl
  | cons window windows ih => cases window <;> exact ih _

theorem exec_generateNumericWindow (component : String) (eventCode : ℕ)
    (dailyAggregates : DailyAggregates) (obsDayIndex : ℕ) (window : OnDeviceAggregationWindow)
    (scan : Scan) (s : GenState) :
    Prog.exec (GenOp.handle backend) (generateNumericWindow reportKey aggregates component eventCode
        dailyAggregates obsDayIndex window scan) s =
      (((LocalAggregation.generateNumericWindow backend reportKey aggregates component eventCode
          dailyAggregates obsDayIndex window (scan, s)).1,
        (LocalAggregation.generateNumericWindow backend reportKey aggregates component eventCode
          dailyAggregates obsDayIndex window (scan, s)).2.1),
        (LocalAggregation.generateNumericWindow backend reportKey aggregates component eventCode
          dailyAggregates obsDayIndex window (scan, s)).2.2) := by
  rw [generateNumericWindow, LocalAggregation.generateNumericWindow]
  cases scanDays aggregates.aggregationConfig.report.aggregationType dailyAggregates obsDayIndex
      (numDays window - scan.numDays) scan with
  | error status => rfl
  | ok scan' =>
    have hsingle : ∀ s, Prog.exec (GenOp.handle backend)
        (if scan'.found then generateSingleFromScan reportKey aggregates obsDayIndex component
            eventCode window scan'.aggregate
          else .done .kOK) s =
        if scan'.found then LocalAggregation.generateSingleFromScan backend reportKey aggregates
            obsDayIndex component eventCode window scan'.aggregate s
          else (.kOK, s) := by
      intro s
      split_ifs
      · rw [generateSingleFromScan, LocalAggregation.generateSingleFromScan]
        cases aggregates.aggregationConfig.report.reportType <;> rfl
      · rfl
    dsimp only
    rw [Prog.exec_bind, exec_andThen backend hsingle (fun _ => rfl)]
    rfl

theorem exec_generateNumericEventCode (backfillPeriodStart finalDayIndex : ℕ) (component : String)
    (eventCode : ℕ) (dailyAggregates : DailyAggregates) (s : GenState) :
    Prog.exec (GenOp.handle backend) (generateNumericEventCode reportKey aggregates
        backfillPeriodStart finalDayIndex component eventCode dailyAggregates) s =
      LocalAggregation.generateNumericEventCode backend reportKey aggregates backfillPeriodStart
        finalDayIndex component eventCode dailyAggregates s := by
  rw [generateNumericEventCode, Prog.exec_bind, exec_windowsByObsDay]
  refine Prog.exec_runAll (fun d _ s => ?_) s
  dsimp only
  rw [generateNumericDay, LocalAggregation.generateNumericDay]
  generalize (LocalAggregation.windowsByObsDay _ _ _ _).lookup d = windows
  cases windows with
  | none => rfl
  | some windows =>
    dsimp only
    rw [Prog.exec_bind, Prog.exec_runAllWith fun window _ scan s => exec_generateNumericWindow
      backend reportKey aggregates component eventCode dailyAggregates d window scan s]
    rfl

theorem exec_generateObsFromNumericAggregates (backfillDays finalDayIndex : ℕ) (s : GenState) :
    Prog.exec (GenOp.handle backend)
        (generateObsFromNumericAggregates reportKey aggregates backfillDays finalDayIndex) s =
      LocalAggregation.generateObsFromNumericAggregates backend reportKey aggregates backfillDays
        finalDayIndex s := by
  refine exec_andThen backend (fun s => ?_) (fun s => ?_) s
  · exact Prog.exec_runAll (fun byComponent _ s => Prog.exec_runAll (fun byEventCode _ s =>
      exec_generateNumericEventCode backend reportKey aggregates _ _ _ _ _ s) s) s
  · exact Prog.exec_runAll (fun d _ s => rfl) s

/-- **The programs are those of the functions.** Without interruption a call does what
`LocalAggregation.generateReports` does. -/
theorem exec_generateReports (backfillDays finalDayIndexUtc finalDayIndexLocal : ℕ)
    (store : LocalAggregateStore) (s : GenState) :
    Prog.exec (GenOp.handle backend)
        (generateReports backfillDays finalDayIndexUtc finalDayIndexLocal store) s =
      LocalAggregation.generateReports backend backfillDays finalDayIndexUtc finalDayIndexLocal store
        s := by
  refine Prog.exec_runAll (fun report _ s => ?_) s
  rw [generateReport, LocalAggregation.generateReport]
  cases reportDayIndex report.2.aggregationConfig.metric.timeZonePolicy finalDayIndexUtc
      finalDayIndexLocal with
  | none => rfl
  | some finalDayIndex =>
    dsimp only
    cases maxAggregationDays report.2.aggregationConfig.aggregationWindow finalDayIndex with
    | none => rfl
    | some _ =>
      dsimp only
      rcases reportKind report.2.aggregationConfig with _ | _ | _
      · rfl
      · exact exec_generateUniqueActivesObservations backend report.1 report.2 _ _ _ s
      · exact exec_generateObsFromNumericAggregates backend report.1 report.2 _ _ s

end Exec

/-! ### The sources that a call writes to -/

section Asks

variable {P : GenOp → Prop} {reportKey : ReportAggregationKey} {aggregates : ReportAggregates}
  (hget : ∀ source, P (.get source)) (hattempt : ∀ w, P (.attempt w))

theorem asks_andThen {p next : GenProg Status} (hp : p.Asks P) (hnext : next.Asks P) :
    (andThen p next).Asks P := by
  refine hp.bind fun status => ?_
  split_ifs
  · exact hnext
  · trivial

include hget hattempt

theorem asks_generateUniqueActivesObservations
    (hset : ∀ code days d, P (.set (.uniqueActives reportKey code days) d))
    (backfillDays numEventCodes finalDayIndex : ℕ) :
    (generateUniqueActivesObservations reportKey aggregates backfillDays numEventCodes
      finalDayIndex).Asks P := by
  refine Prog.Asks.runAll fun code _ => Prog.Asks.runAll fun window _ => ?_
  cases window with
  | unitsNotSet => trivial
  | hours n => trivial
  | days n =>
    rw [generateUniqueActivesWindow]
    split_ifs
    · trivial
    · refine Prog.Asks.bind ⟨hget _, fun _ => trivial⟩ fun lastGen => Prog.Asks.bind ?_ fun _ => trivial
      refine Prog.Asks.runAllWith (fun d _ active => ?_) 0
      refine Prog.Asks.bind (asks_andThen ⟨hattempt _, fun _ => trivial⟩ ?_) fun _ => trivial
      exact ⟨hset _ _ _, fun _ => trivial⟩

omit hget in
theorem asks_generateNumericWindow {component : String} {eventCode : ℕ}
    (hset : ∀ days d, P (.set (.numeric reportKey component eventCode days) d))
    (dailyAggregates : DailyAggregates) (obsDayIndex : ℕ) (window : OnDeviceAggregationWindow)
    (scan : Scan) :
    (generateNumericWindow reportKey aggregates component eventCode dailyAggregates obsDayIndex window
      scan).Asks P := by
  rw [generateNumericWindow]
  split
  · trivial
  · refine Prog.Asks.bind (asks_andThen ?_ ⟨hset _ _, fun _ => trivial⟩) fun _ => trivial
    split_ifs
    · rw [generateSingleFromScan]
      split
      · exact ⟨hattempt _, fun _ => trivial⟩
      · exact ⟨hattempt _, fun _ => trivial⟩
      · trivial
    · trivial

omit hattempt in
theorem asks_windowsByObsDay (component : String)
    (eventCode backfillPeriodStart finalDayIndex : ℕ) (windows : List OnDeviceAggregationWindow)
    (byObsDay : ProtoMap ℕ (List OnDeviceAggregationWindow)) :
    (windowsByObsDay reportKey component eventCode backfillPeriodStart finalDayIndex windows
      byObsDay).Asks P := by
  induction windows generalizing byObsDay with
  | nil => trivial
  | cons window windows ih =>
    cases window with
    | unitsNotSet => exact ih _
    | hours n => exact ih _
    | days n => exact Prog.Asks.bind ⟨hget _, fun _ => trivial⟩ fun lastGen => ih _

theorem asks_generateObsFromNumericAggregates
    (hset : ∀ component byEventCode code daily,
      aggregates.numericAggregates.lookup component = some byEventCode →
      byEventCode.lookup code = some daily → ∀ days d,
      P (.set (.numeric reportKey component code days) d))
    (hpart : ∀ d, P (.set (.reportParticipation reportKey) d)) (backfillDays finalDayIndex : ℕ) :
    (generateObsFromNumericAggregates reportKey aggregates backfillDays finalDayIndex).Asks P := by
  refine asks_andThen ?_ ?_
  · refine Prog.Asks.runAll fun byComponent hcomponent => Prog.Asks.runAll fun byEventCode hcode => ?_
    have hset' := hset _ _ _ _ (ProtoMap.mem_entries_iff.mp hcomponent)
      (ProtoMap.mem_entries_iff.mp hcode)
    refine Prog.Asks.bind (asks_windowsByObsDay hget _ _ _ _ _ _) fun byObsDay => ?_
    refine Prog.Asks.runAll fun d _ => ?_
    rw [generateNumericDay]
    split
    · trivial
    · refine Prog.Asks.bind (Prog.Asks.runAllWith (fun window _ scan => ?_) _) fun _ => trivial
      exact asks_generateNumericWindow hattempt hset' _ d window scan
  · refine Prog.Asks.bind ⟨hget _, fun _ => trivial⟩ fun lastGen => Prog.Asks.runAll fun d _ => ?_
    exact Prog.Asks.bind ⟨hattempt _, fun _ => trivial⟩ fun _ => ⟨hpart d, fun _ => trivial⟩

end Asks

/-- Where a call writes. A call writes to the history of sources that fit its copy of the
aggregates. -/
theorem asks_generateReports (backfillDays finalDayIndexUtc finalDayIndexLocal : ℕ)
    (store : LocalAggregateStore) :
    (generateReports backfillDays finalDayIndexUtc finalDayIndexLocal store).Asks
      (GenOp.Fits store) := by
  have hget : ∀ source, GenOp.Fits store (.get source) := fun _ => trivial
  have hattempt : ∀ w, GenOp.Fits store (.attempt w) := fun _ => trivial
  refine Prog.Asks.runAll fun report hreport => ?_
  have hlookup := ProtoMap.mem_entries_iff.mp hreport
  have hkind := kindOf_eq_of_lookup hlookup
  rw [generateReport]
  split
  · trivial
  · split
    · trivial
    · split
      · next hunique =>
        rw [hunique] at hkind
        exact asks_generateUniqueActivesObservations hget hattempt (fun _ _ _ => hkind) _ _ _
      · next hnumeric =>
        rw [hnumeric] at hkind
        refine asks_generateObsFromNumericAggregates hget hattempt
          (fun component byEventCode code daily hcomponent hcode days d => ?_) (fun _ => hkind) _ _
        exact ⟨hkind, report.2, byEventCode, daily, hlookup, hcomponent, hcode⟩
      · trivial

end Steps

end Cobalt.LocalAggregation
