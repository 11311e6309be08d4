import Cobalt.Lib.Run
import Cobalt.LocalAggregation.NumericAggregates
import Cobalt.LocalAggregation.UniqueActives

/-!
# `GenerateObservations` and runs of the `AggregateStore`

A call of `GenerateObservations` works on a copy of the aggregates and goes through the reports in
the order in which the copy is iterated, up to the first failure. A run of the store is a sequence
of calls; between two calls the maps of the store may be rehashed, which changes the order in which
they are iterated and nothing else.

## Main definitions

* `generateReport`, `generateObservations`.
* `Call`, `Call.run`, `Step`: the calls that a run is made of.
* `SameReports`: two stores with the same content, in whatever order.

## Main results

* `generateReports_rel`: an invariant rule for everything a call does.
* `configOf_step`: no call changes the configuration of a report.
* `metadata_of_run`: the metadata of every observation written in a run.
-/

namespace Cobalt.LocalAggregation

/-! ### The function of the source -/

/-- `RapporConfigHelper::BasicRapporNumCategories`; zero unless the metric has exactly one
dimension. -/
def basicRapporNumCategories (metric : MetricDefinition) : ℕ :=
  match metric.metricDimensions with
  | [dimension] => U32.add dimension.maxEventCode 1
  | _ => 0

/-- How observations are generated for a report. -/
inductive ReportKind
  | uniqueActives
  | numeric
  deriving DecidableEq, Repr

/-- The two nested `switch` statements on the metric type and the report type; the other reports
are passed over. -/
def reportKind (config : AggregationConfig) : Option ReportKind :=
  match config.metric.metricType with
  | .EVENT_OCCURRED =>
    match config.report.reportType with
    | .UNIQUE_N_DAY_ACTIVES => some .uniqueActives
    | _ => none
  | .EVENT_COUNT | .ELAPSED_TIME | .FRAME_RATE | .MEMORY_USAGE =>
    match config.report.reportType with
    | .PER_DEVICE_NUMERIC_STATS | .PER_DEVICE_HISTOGRAM => some .numeric
    | _ => none
  | _ => none

/-- Observations from numeric aggregates are generated for two report types. -/
theorem reportType_of_reportKind_numeric {config : AggregationConfig}
    (h : reportKind config = some .numeric) :
    config.report.reportType = .PER_DEVICE_NUMERIC_STATS ∨
      config.report.reportType = .PER_DEVICE_HISTOGRAM := by
  rw [reportKind] at h
  cases hmetric : config.metric.metricType <;> rw [hmetric] at h <;>
    cases hreport : config.report.reportType <;> simp [hreport] at h ⊢

/-- The body of the loop of `GenerateObservations`. -/
def generateReport (backend : Backend) (backfillDays finalDayIndexUtc finalDayIndexLocal : ℕ)
    (reportKey : ReportAggregationKey) (aggregates : ReportAggregates) (s : GenState) :
    Status × GenState :=
  let config := aggregates.aggregationConfig
  match reportDayIndex config.metric.timeZonePolicy finalDayIndexUtc finalDayIndexLocal with
  | none => (.kOK, s)
  | some finalDayIndex =>
    match maxAggregationDays config.aggregationWindow finalDayIndex with
    | none => (.kOK, s)
    | some _ =>
      match reportKind config with
      | some .uniqueActives =>
        generateUniqueActivesObservations backend reportKey aggregates backfillDays
          (basicRapporNumCategories config.metric) finalDayIndex s
      | some .numeric =>
        generateObsFromNumericAggregates backend reportKey aggregates backfillDays finalDayIndex s
      | none => (.kOK, s)

/-- The loop of `GenerateObservations` over the copied store. -/
def generateReports (backend : Backend) (backfillDays finalDayIndexUtc finalDayIndexLocal : ℕ)
    (store : LocalAggregateStore) : GenState → Status × GenState :=
  Loop.runAll .kOK
    (fun report => generateReport backend backfillDays finalDayIndexUtc finalDayIndexLocal
      report.1 report.2)
    store.byReportKey.entries

/-- `GenerateObservations`: the status, the observations written and the store afterwards, `none`
when a `CHECK` fails. -/
def generateObservations (backend : Backend) (finalDayIndexUtc finalDayIndexLocal : ℕ)
    (s : AggregateStore) : Option (Status × List Written × AggregateStore) :=
  let finalDayIndexLocal := localDayIndex finalDayIndexUtc finalDayIndexLocal
  if Admitted s.backfillDays finalDayIndexUtc ∧ Admitted s.backfillDays finalDayIndexLocal then
    let r := generateReports backend s.backfillDays finalDayIndexUtc finalDayIndexLocal
      s.localAggregateStore ⟨s.obsHistory, 0, []⟩
    some (r.1, r.2.written, { s with obsHistory := r.2.obsHistory })
  else none

/-- What an accepted call of `GenerateObservations` returns. -/
theorem generateObservations_cases {backend : Backend} {finalDayIndexUtc finalDayIndexLocal : ℕ}
    {s s' : AggregateStore} {status : Status} {new : List Written}
    (h : generateObservations backend finalDayIndexUtc finalDayIndexLocal s =
      some (status, new, s')) :
    (Admitted s.backfillDays finalDayIndexUtc ∧
      Admitted s.backfillDays (localDayIndex finalDayIndexUtc finalDayIndexLocal)) ∧
    ∃ g, generateReports backend s.backfillDays finalDayIndexUtc
        (localDayIndex finalDayIndexUtc finalDayIndexLocal) s.localAggregateStore
        ⟨s.obsHistory, 0, []⟩ = (status, g) ∧
      new = g.written ∧ s' = { s with obsHistory := g.obsHistory } := by
  rw [generateObservations] at h
  dsimp only at h
  split_ifs at h with hadmitted
  obtain ⟨hstatus, hrest⟩ := Prod.mk.inj (Option.some.inj h)
  obtain ⟨hnew, hs'⟩ := Prod.mk.inj hrest
  exact ⟨hadmitted, _, Prod.ext hstatus rfl, hnew.symm, hs'.symm⟩

/-- `GenerateObservations` changes nothing but the history. -/
theorem eq_of_generateObservations {backend : Backend} {finalDayIndexUtc finalDayIndexLocal : ℕ}
    {s s' : AggregateStore} {status : Status} {new : List Written}
    (h : generateObservations backend finalDayIndexUtc finalDayIndexLocal s =
      some (status, new, s')) :
    ∃ obsHistory, s' = { s with obsHistory := obsHistory } := by
  obtain ⟨-, g, -, -, hs'⟩ := generateObservations_cases h
  exact ⟨g.obsHistory, hs'⟩

/-! ### What a call can do

Everything that `GenerateObservations` does is a sequence of attempts at single observations and of
records in the history, both for sources that fit the configuration of their report. -/

/-- How observations are generated for the report with a key. -/
def kindOf (store : LocalAggregateStore) (key : ReportAggregationKey) : Option ReportKind :=
  (store.configOf key).bind reportKind

/-- The store has aggregates for the event code of a component. -/
def HasCode (store : LocalAggregateStore) (key : ReportAggregationKey) (component : String)
    (code : ℕ) : Prop :=
  ∃ aggregates byEventCode daily, store.byReportKey.lookup key = some aggregates ∧
    aggregates.numericAggregates.lookup component = some byEventCode ∧
    byEventCode.lookup code = some daily

/-- The source is one that observations are generated for. -/
def Fits (store : LocalAggregateStore) : ObservationSource → Prop
  | .uniqueActives key _ _ => kindOf store key = some .uniqueActives
  | .numeric key component code _ =>
    kindOf store key = some .numeric ∧ HasCode store key component code
  | .reportParticipation key => kindOf store key = some .numeric

/-- The observation is one of the report that its source belongs to, with the configuration that the
store has for it. -/
def Describes (store : LocalAggregateStore) (w : Written) : Prop :=
  ∃ config, store.configOf w.source.reportKey = some config ∧ w.IsOf config

/-- The day is one that a call can record for a report: it is not after the day index of the call in
the time zone of the report. -/
def Recordable (store : LocalAggregateStore) (finalDayIndexUtc finalDayIndexLocal : ℕ)
    (key : ReportAggregationKey) (d : ℕ) : Prop :=
  ∃ config finalDayIndex, store.configOf key = some config ∧
    reportDayIndex config.metric.timeZonePolicy finalDayIndexUtc finalDayIndexLocal =
      some finalDayIndex ∧ d ≤ finalDayIndex

theorem Recordable.le_max {store : LocalAggregateStore} {finalDayIndexUtc finalDayIndexLocal : ℕ}
    {key : ReportAggregationKey} {d : ℕ}
    (h : Recordable store finalDayIndexUtc finalDayIndexLocal key d) :
    d ≤ max finalDayIndexUtc finalDayIndexLocal := by
  obtain ⟨config, finalDayIndex, _, hfinal, hd⟩ := h
  exact hd.trans (reportDayIndex_le_max hfinal)

theorem kindOf_eq_of_lookup {store : LocalAggregateStore} {key : ReportAggregationKey}
    {aggregates : ReportAggregates} (h : store.byReportKey.lookup key = some aggregates) :
    kindOf store key = reportKind aggregates.aggregationConfig := by
  rw [kindOf, LocalAggregateStore.configOf, h]
  rfl

section Rel

variable {R : GenState → GenState → Prop} {backend : Backend} {reportKey : ReportAggregationKey}
  {aggregates : ReportAggregates} (hrefl : ∀ s, R s s) (htrans : ∀ s t u, R s t → R t u → R s u)
include hrefl htrans

omit hrefl in
private theorem rel_andThen {r : Status × GenState} {next : GenState → Status × GenState}
    {s : GenState} (h : R s r.2) (hnext : ∀ s, R s (next s).2) : R s (andThen r next).2 := by
  rw [andThen]
  split_ifs
  · exact htrans _ _ _ h (hnext _)
  · exact h

theorem generateUniqueActivesObservations_rel
    (hgen : ∀ w s, (∃ code days, w.source = .uniqueActives reportKey code days) →
      w.IsOf aggregates.aggregationConfig → R s (generateSingle backend w s).2)
    {finalDayIndex : ℕ}
    (hset : ∀ code days d s, d ≤ finalDayIndex →
      R s (record (setLastGenerated (.uniqueActives reportKey code days) d) s).2)
    (backfillDays numEventCodes : ℕ) (s : GenState) :
    R s (generateUniqueActivesObservations backend reportKey aggregates backfillDays numEventCodes
      finalDayIndex s).2 := by
  refine Loop.runAll_rel hrefl htrans (fun code _ s => ?_) s
  refine Loop.runAll_rel hrefl htrans (fun window _ s => ?_) s
  cases window with
  | unitsNotSet => exact hrefl s
  | hours n => exact hrefl s
  | days n =>
    rw [generateUniqueActivesWindow]
    split_ifs
    · exact hrefl s
    · refine Loop.runAll_rel (R := fun st st' : ℕ × GenState => R st.2 st'.2)
        (fun st => hrefl st.2) (fun _ _ _ => htrans _ _ _) (fun d hd st => ?_) (0, s)
      have hle : d ≤ finalDayIndex := by
        have hmem := List.mem_range'_1.mp hd
        omega
      exact rel_andThen htrans (hgen _ _ ⟨code, n, rfl⟩ ⟨⟨_, _, rfl⟩, rfl⟩)
        fun s => hset code n d s hle

private theorem generateNumericWindow_rel
    {component : String} {code d : ℕ}
    (hgen : ∀ w s, (∃ days, w.source = .numeric reportKey component code days) →
      w.IsOf aggregates.aggregationConfig → R s (generateSingle backend w s).2)
    (hset : ∀ days s,
      R s (record (setLastGenerated (.numeric reportKey component code days) d) s).2)
    (daily : DailyAggregates)
    (window : OnDeviceAggregationWindow) (st : Scan × GenState) :
    R st.2 (generateNumericWindow backend reportKey aggregates component code daily d window
      st).2.2 := by
  rw [generateNumericWindow]
  split
  · exact hrefl st.2
  · next scan _ =>
    refine rel_andThen htrans ?_ (hset (numDays window))
    split_ifs
    · rw [generateSingleFromScan]
      split
      · exact hgen _ _ ⟨numDays window, rfl⟩ ⟨⟨_, _, Or.inl rfl⟩, rfl⟩
      · exact hgen _ _ ⟨numDays window, rfl⟩ ⟨⟨_, _, Or.inr rfl⟩, rfl⟩
      · exact hrefl st.2
    · exact hrefl st.2

theorem generateNumericComponents_rel {finalDayIndex : ℕ}
    (hgen : ∀ component byEventCode code daily,
      aggregates.numericAggregates.lookup component = some byEventCode →
      byEventCode.lookup code = some daily → ∀ w s,
      (∃ days, w.source = .numeric reportKey component code days) →
      w.IsOf aggregates.aggregationConfig → R s (generateSingle backend w s).2)
    (hset : ∀ component byEventCode code daily,
      aggregates.numericAggregates.lookup component = some byEventCode →
      byEventCode.lookup code = some daily → ∀ days d s, d ≤ finalDayIndex →
      R s (record (setLastGenerated (.numeric reportKey component code days) d) s).2)
    (start : ℕ) (s : GenState) :
    R s (generateNumericComponents backend reportKey aggregates start finalDayIndex s).2 := by
  refine Loop.runAll_rel hrefl htrans (fun byComponent hcomponent s => ?_) s
  refine Loop.runAll_rel hrefl htrans (fun byEventCode hcode s => ?_) s
  have hcomponent := ProtoMap.mem_entries_iff.mp hcomponent
  have hcode := ProtoMap.mem_entries_iff.mp hcode
  refine Loop.runAll_rel hrefl htrans (fun d hd s => ?_) s
  have hle : d ≤ finalDayIndex := by
    have hmem := List.mem_range'_1.mp hd
    omega
  rw [generateNumericDay]
  split
  · exact hrefl s
  · exact Loop.runAll_rel (R := fun st st' : Scan × GenState => R st.2 st'.2)
      (fun st => hrefl st.2) (fun _ _ _ => htrans _ _ _)
      (fun window _ st => generateNumericWindow_rel hrefl htrans
        (hgen _ _ _ _ hcomponent hcode)
        (fun days s => hset _ _ _ _ hcomponent hcode days d s hle) _ window st) ({}, s)

theorem generateObsFromNumericAggregates_rel {finalDayIndex : ℕ}
    (hgen : ∀ component byEventCode code daily,
      aggregates.numericAggregates.lookup component = some byEventCode →
      byEventCode.lookup code = some daily → ∀ w s,
      (∃ days, w.source = .numeric reportKey component code days) →
      w.IsOf aggregates.aggregationConfig → R s (generateSingle backend w s).2)
    (hset : ∀ component byEventCode code daily,
      aggregates.numericAggregates.lookup component = some byEventCode →
      byEventCode.lookup code = some daily → ∀ days d s, d ≤ finalDayIndex →
      R s (record (setLastGenerated (.numeric reportKey component code days) d) s).2)
    (hpart : ∀ w s, w.source = .reportParticipation reportKey →
      w.IsOf aggregates.aggregationConfig → w.dayIndex ≤ finalDayIndex →
      R s (record (setLastGenerated (.reportParticipation reportKey) w.dayIndex)
        (generateSingle backend w s).2).2)
    (backfillDays : ℕ) (s : GenState) :
    R s (generateObsFromNumericAggregates backend reportKey aggregates backfillDays finalDayIndex
      s).2 := by
  refine rel_andThen htrans (generateNumericComponents_rel hrefl htrans hgen hset _ s) fun s => ?_
  refine Loop.runAll_rel hrefl htrans (fun d hd s => ?_) s
  have hmem := List.mem_range'_1.mp hd
  exact hpart (reportParticipationWritten reportKey aggregates.aggregationConfig d) s rfl ⟨rfl, rfl⟩
    (by have : (reportParticipationWritten reportKey aggregates.aggregationConfig d).dayIndex = d
          := rfl
        omega)

/-- **What a call can do.** A relation that is kept by every attempt at an observation and by every
record, for the sources that fit the store, is kept by the whole call. -/
theorem generateReports_rel {store : LocalAggregateStore}
    (hgen : ∀ w s, Fits store w.source → Describes store w → R s (generateSingle backend w s).2)
    {finalDayIndexUtc finalDayIndexLocal : ℕ}
    (hset : ∀ k d s, Fits store k →
      Recordable store finalDayIndexUtc finalDayIndexLocal k.reportKey d →
      R s (record (setLastGenerated k d) s).2)
    (backfillDays : ℕ) (s : GenState) :
    R s (generateReports backend backfillDays finalDayIndexUtc finalDayIndexLocal store s).2 := by
  refine Loop.runAll_rel hrefl htrans (fun report hreport s => ?_) s
  have hlookup := ProtoMap.mem_entries_iff.mp hreport
  have hkind := kindOf_eq_of_lookup hlookup
  have hconfig : store.configOf report.1 = some report.2.aggregationConfig := by
    rw [LocalAggregateStore.configOf, hlookup]
    rfl
  rw [generateReport]
  split
  · exact hrefl s
  · next finalDayIndex hfinal =>
    have hrec : ∀ d ≤ finalDayIndex,
        Recordable store finalDayIndexUtc finalDayIndexLocal report.1 d := fun d hd =>
      ⟨report.2.aggregationConfig, finalDayIndex, hconfig, hfinal, hd⟩
    have hdescribes : ∀ w : Written, w.source.reportKey = report.1 →
        w.IsOf report.2.aggregationConfig → Describes store w := fun w hkey hof =>
      ⟨report.2.aggregationConfig, hkey ▸ hconfig, hof⟩
    split
    · exact hrefl s
    · split
      · next hunique =>
        rw [hunique] at hkind
        refine generateUniqueActivesObservations_rel hrefl htrans (fun w s hw hof => ?_)
          (fun code days d s hd => hset _ d s hkind (hrec d hd)) _ _ s
        obtain ⟨code, days, hw⟩ := hw
        exact hgen w s (by rw [hw]; exact hkind) (hdescribes w (by rw [hw]; rfl) hof)
      · next hnumeric =>
        rw [hnumeric] at hkind
        have hfits : ∀ component byEventCode code daily,
            report.2.numericAggregates.lookup component = some byEventCode →
            byEventCode.lookup code = some daily → ∀ days,
            Fits store (.numeric report.1 component code days) :=
          fun component byEventCode code daily hcomponent hcode days =>
            ⟨hkind, report.2, byEventCode, daily, hlookup, hcomponent, hcode⟩
        refine generateObsFromNumericAggregates_rel hrefl htrans
          (fun component byEventCode code daily hcomponent hcode w s hw hof => ?_)
          (fun component byEventCode code daily hcomponent hcode days d s hd =>
            hset _ d s (hfits _ _ _ _ hcomponent hcode days) (hrec d hd))
          (fun w s hw hof hd => ?_) _ s
        · obtain ⟨days, hw⟩ := hw
          exact hgen w s (hw ▸ hfits _ _ _ _ hcomponent hcode days)
            (hdescribes w (by rw [hw]; rfl) hof)
        · exact htrans _ _ _ (hgen w s (by rw [hw]; exact hkind)
            (hdescribes w (by rw [hw]; rfl) hof)) (hset _ _ _ hkind (hrec _ hd))
      · exact hrefl s

end Rel

/-- Every observation that a call writes is about a source that fits the store, and is one of the
report of the source. -/
theorem fits_of_mem_written (backend : Backend) (store : LocalAggregateStore)
    (backfillDays finalDayIndexUtc finalDayIndexLocal : ℕ) (s : GenState) :
    ∃ new, (generateReports backend backfillDays finalDayIndexUtc finalDayIndexLocal store
      s).2.written = s.written ++ new ∧ ∀ w ∈ new, Fits store w.source ∧ Describes store w := by
  refine generateReports_rel
    (R := fun s s' => ∃ new, s'.written = s.written ++ new ∧
      ∀ w ∈ new, Fits store w.source ∧ Describes store w)
    (fun s => ⟨[], by simp⟩) ?_ ?_ (fun k d s _ _ => ⟨[], by simp [record]⟩) _ s
  · rintro s t u ⟨a, ha, hfa⟩ ⟨b, hb, hfb⟩
    refine ⟨a ++ b, by rw [hb, ha, List.append_assoc], fun w hw => ?_⟩
    rcases List.mem_append.mp hw with hw | hw
    · exact hfa w hw
    · exact hfb w hw
  · intro w s hw hdescribes
    rcases generateSingle_cases backend w s with ⟨_, h⟩ | h
    · exact ⟨[], by rw [h]; simp⟩
    · refine ⟨[w], by rw [h], fun w' hw' => ?_⟩
      rw [List.mem_singleton.mp hw']
      exact ⟨hw, hdescribes⟩

/-! ### Runs -/

/-- The calls that a run is made of. -/
inductive Call
  | setActive (key : ReportAggregationKey) (eventCode dayIndex : ℕ)
  | updateNumericAggregate (key : ReportAggregationKey) (component : String)
      (eventCode dayIndex : ℕ) (value : ℤ)
  | garbageCollect (dayIndexUtc dayIndexLocal : ℕ)
  | generateObservations (backend : Backend) (finalDayIndexUtc finalDayIndexLocal : ℕ)

/-- A call, `none` when it fails a `CHECK`. Its outputs are the observations written. -/
def Call.run (s : AggregateStore) : Call → Option (List Written × AggregateStore)
  | .setActive key eventCode dayIndex =>
    some ([], (LocalAggregation.setActive key eventCode dayIndex s).2)
  | .updateNumericAggregate key component eventCode dayIndex value =>
    some ([], (LocalAggregation.updateNumericAggregate key component eventCode dayIndex value s).2)
  | .garbageCollect dayIndexUtc dayIndexLocal =>
    (LocalAggregation.garbageCollect dayIndexUtc dayIndexLocal s).map fun r => ([], r.2)
  | .generateObservations backend finalDayIndexUtc finalDayIndexLocal =>
    (LocalAggregation.generateObservations backend finalDayIndexUtc finalDayIndexLocal s).map
      fun r => r.2

theorem of_run_garbageCollect {s s' : AggregateStore} {out : List Written} {utc loc : ℕ}
    (h : Call.run s (.garbageCollect utc loc) = some (out, s')) :
    out = [] ∧ ∃ status, garbageCollect utc loc s = some (status, s') := by
  obtain ⟨⟨status, s₁⟩, hgc, heq⟩ := Option.map_eq_some_iff.mp h
  obtain ⟨rfl, rfl⟩ := Prod.mk.inj heq
  exact ⟨rfl, status, hgc⟩

theorem of_run_generateObservations {s s' : AggregateStore} {out : List Written}
    {backend : Backend} {utc loc : ℕ}
    (h : Call.run s (.generateObservations backend utc loc) = some (out, s')) :
    ∃ status, generateObservations backend utc loc s = some (status, out, s') := by
  obtain ⟨⟨status, new, s₁⟩, hgen, heq⟩ := Option.map_eq_some_iff.mp h
  obtain ⟨rfl, rfl⟩ := Prod.mk.inj heq
  exact ⟨status, hgen⟩

/-- Two maps with the same lookups up to a relation on the values. -/
def SameEntries {K V : Type} [DecidableEq K] (R : V → V → Prop) (m m' : ProtoMap K V) : Prop :=
  ∀ k, Option.Rel R (m.lookup k) (m'.lookup k)

/-- The same aggregates, in whatever order. -/
inductive SameAggregates : ReportAggregatesType → ReportAggregatesType → Prop
  | typeNotSet : SameAggregates .typeNotSet .typeNotSet
  | uniqueActives {a a' : UniqueActivesReportAggregates} (h : SameEntries (SameEntries Eq) a a') :
      SameAggregates (.uniqueActivesAggregates a) (.uniqueActivesAggregates a')
  | numeric {a a' : PerDeviceNumericAggregates}
      (h : SameEntries (SameEntries (SameEntries Eq)) a a') :
      SameAggregates (.numericAggregates a) (.numericAggregates a')

/-- The same reports with the same configurations and aggregates, in whatever order. -/
def SameReports (store store' : LocalAggregateStore) : Prop :=
  SameEntries (fun a a' => a.aggregationConfig = a'.aggregationConfig ∧
    SameAggregates a.type a'.type) store.byReportKey store'.byReportKey

/-- The store after its maps were rehashed, or copied with another order of iteration. -/
def Rehashed (s s₁ : AggregateStore) : Prop :=
  ∃ store, SameReports s.localAggregateStore store ∧ s₁ = { s with localAggregateStore := store }

/-- One of the allowed calls, made on the store as it is or after its maps were rehashed. -/
def Step (allowed : Call → Prop) (s : AggregateStore) (out : List Written) (s' : AggregateStore) :
    Prop :=
  ∃ s₁ call, Rehashed s s₁ ∧ allowed call ∧ Call.run s₁ call = some (out, s')

theorem SameEntries.refl {K V : Type} [DecidableEq K] {R : V → V → Prop} (h : ∀ v, R v v)
    (m : ProtoMap K V) : SameEntries R m m := by
  intro k
  cases m.lookup k with
  | none => exact .none
  | some v => exact .some (h v)

theorem SameReports.refl (store : LocalAggregateStore) : SameReports store store := by
  refine SameEntries.refl (fun a => ⟨rfl, ?_⟩) _
  cases a.type with
  | typeNotSet => exact .typeNotSet
  | uniqueActivesAggregates => exact .uniqueActives (.refl (.refl fun _ => rfl) _)
  | numericAggregates => exact .numeric (.refl (.refl (.refl fun _ => rfl)) _)

theorem Rehashed.refl (s : AggregateStore) : Rehashed s s :=
  ⟨s.localAggregateStore, .refl _, rfl⟩

/-- A call on the store as it is. -/
theorem Step.of_run {allowed : Call → Prop} {s s' : AggregateStore} {out : List Written}
    (call : Call) (hcall : allowed call) (h : Call.run s call = some (out, s')) :
    Step allowed s out s' :=
  ⟨s, call, .refl s, hcall, h⟩

theorem SameReports.configOf_eq {store store' : LocalAggregateStore}
    (h : SameReports store store') (key : ReportAggregationKey) :
    store'.configOf key = store.configOf key := by
  have hkey := h key
  rw [LocalAggregateStore.configOf, LocalAggregateStore.configOf]
  generalize store.byReportKey.lookup key = a, store'.byReportKey.lookup key = a' at hkey ⊢
  cases hkey with
  | none => rfl
  | some hsame => exact congrArg some hsame.1.symm

theorem Rehashed.configOf_eq {s s₁ : AggregateStore} (h : Rehashed s s₁)
    (key : ReportAggregationKey) :
    s₁.localAggregateStore.configOf key = s.localAggregateStore.configOf key := by
  obtain ⟨store, hsame, rfl⟩ := h
  exact hsame.configOf_eq key

theorem Rehashed.obsHistory_eq {s s₁ : AggregateStore} (h : Rehashed s s₁) :
    s₁.obsHistory = s.obsHistory := by
  obtain ⟨store, _, rfl⟩ := h
  rfl

theorem kindOf_eq_of_configOf_eq {store store' : LocalAggregateStore}
    (h : ∀ key, store'.configOf key = store.configOf key) : kindOf store' = kindOf store := by
  funext key
  rw [kindOf, kindOf, h key]

/-- No call changes the configuration of a report. -/
theorem configOf_run {s s' : AggregateStore} {call : Call} {out : List Written}
    (h : Call.run s call = some (out, s')) (key : ReportAggregationKey) :
    s'.localAggregateStore.configOf key = s.localAggregateStore.configOf key := by
  cases call with
  | setActive key' code d =>
    rw [← (Prod.mk.inj (Option.some.inj h)).2]
    exact configOf_setActive key' code d s key
  | updateNumericAggregate key' component code d value =>
    rw [← (Prod.mk.inj (Option.some.inj h)).2]
    exact configOf_updateNumericAggregate key' component code d value s key
  | garbageCollect utc loc =>
    obtain ⟨-, status, hgc⟩ := of_run_garbageCollect h
    exact configOf_garbageCollect hgc key
  | generateObservations backend utc loc =>
    obtain ⟨status, hgen⟩ := of_run_generateObservations h
    obtain ⟨obsHistory, rfl⟩ := eq_of_generateObservations hgen
    rfl

/-- What a call does to the history. Only `GenerateObservations` changes it or has outputs. -/
theorem run_cases {s s' : AggregateStore} {call : Call} {out : List Written}
    (h : Call.run s call = some (out, s')) :
    (out = [] ∧ s'.obsHistory = s.obsHistory) ∨
      ∃ backend utc loc status, call = .generateObservations backend utc loc ∧
        generateObservations backend utc loc s = some (status, out, s') := by
  cases call with
  | setActive key code d =>
    obtain ⟨rfl, rfl⟩ := Prod.mk.inj (Option.some.inj h)
    refine Or.inl ⟨rfl, ?_⟩
    unfold setActive
    split_ifs
    · rfl
    · split
      · rfl
      · split <;> rfl
  | updateNumericAggregate key component code d value =>
    obtain ⟨rfl, rfl⟩ := Prod.mk.inj (Option.some.inj h)
    refine Or.inl ⟨rfl, ?_⟩
    unfold updateNumericAggregate
    split_ifs
    · rfl
    · split
      · rfl
      · split <;> rfl
  | garbageCollect utc loc =>
    obtain ⟨hout, status, hgc⟩ := of_run_garbageCollect h
    exact Or.inl ⟨hout, (lookup_garbageCollect hgc).2.1⟩
  | generateObservations backend utc loc =>
    obtain ⟨status, hgen⟩ := of_run_generateObservations h
    exact Or.inr ⟨backend, utc, loc, status, rfl, hgen⟩

/-- The same for the observations that `GenerateObservations` returns. -/
theorem fits_of_generateObservations {backend : Backend} {utc loc : ℕ} {s s' : AggregateStore}
    {status : Status} {new : List Written}
    (h : generateObservations backend utc loc s = some (status, new, s')) :
    ∀ w ∈ new, Fits s.localAggregateStore w.source ∧ Describes s.localAggregateStore w := by
  obtain ⟨_, g, hg, rfl, _⟩ := generateObservations_cases h
  obtain ⟨new, hnew, hfits⟩ := fits_of_mem_written backend s.localAggregateStore s.backfillDays
    utc (localDayIndex utc loc) ⟨s.obsHistory, 0, []⟩
  rw [hg] at hnew
  rw [hnew]
  exact hfits

/-- Every observation written by a call is about a source that fits, and is one of its report. -/
theorem fits_of_run {s s' : AggregateStore} {call : Call} {out : List Written}
    (h : Call.run s call = some (out, s')) :
    ∀ w ∈ out, Fits s.localAggregateStore w.source ∧ Describes s.localAggregateStore w := by
  rcases run_cases h with ⟨rfl, _⟩ | ⟨backend, utc, loc, status, -, hgen⟩
  · exact fun w hw => absurd hw List.not_mem_nil
  · exact fits_of_generateObservations hgen

theorem configOf_step {allowed : Call → Prop} {s s' : AggregateStore} {out : List Written}
    (h : Step allowed s out s') (key : ReportAggregationKey) :
    s'.localAggregateStore.configOf key = s.localAggregateStore.configOf key := by
  obtain ⟨s₁, call, hrehash, _, hrun⟩ := h
  rw [configOf_run hrun, hrehash.configOf_eq]

/-- Every observation written in a run is one of the report of its source. -/
theorem describes_of_run {allowed : Call → Prop} {s₀ s : AggregateStore} {out : List Written}
    (hrun : Run (Step allowed) s₀ out s) : ∀ w ∈ out, Describes s₀.localAggregateStore w := by
  -- The configurations stay those of the start.
  refine (hrun.invariant (I := fun out s =>
    (∀ key, s.localAggregateStore.configOf key = s₀.localAggregateStore.configOf key) ∧
      ∀ w ∈ out, Describes s₀.localAggregateStore w)
    ⟨fun _ => rfl, fun w hw => absurd hw List.not_mem_nil⟩ ?_).2
  rintro out s new s' ⟨hconfig, hout⟩ hstep
  refine ⟨fun key => (configOf_step hstep key).trans (hconfig key), fun w hw => ?_⟩
  obtain ⟨s₁, call, hrehash, -, hrun⟩ := hstep
  rcases List.mem_append.mp hw with hw | hw
  · exact hout w hw
  · obtain ⟨-, config, hsome, hof⟩ := fits_of_run hrun w hw
    rw [hrehash.configOf_eq, hconfig] at hsome
    exact ⟨config, hsome, hof⟩

/-- The metadata of the observations. Where the reports are stored under their ids, every
observation that is written in a run holds the ids of the report of its source, and the day that it
was generated for. -/
theorem metadata_of_run {allowed : Call → Prop} {s₀ s : AggregateStore} {out : List Written}
    (hkeyed : KeyedByIds s₀.localAggregateStore) (hrun : Run (Step allowed) s₀ out s) :
    ∀ w ∈ out, w.observation.metadata = ⟨w.source.reportKey.customerId,
      w.source.reportKey.projectId, w.source.reportKey.metricId, w.source.reportKey.reportId,
      w.dayIndex⟩ := by
  intro w hw
  obtain ⟨config, hconfig, hof⟩ := describes_of_run hrun w hw
  rw [hkeyed _ config hconfig, hof.observation]
  rfl

/-! ### Well-formed stores -/

/-- Every recorded day is below `UINT32_MAX`, so that the day after it does not wrap. -/
def HistoryBounded (history : AggregatedObservationHistoryStore) : Prop :=
  ∀ k, getLastGenerated history k < U32.max

/-- A store as registrations and calls make it: the windows are in range, and so are the recorded
days. -/
structure WellFormed (s : AggregateStore) : Prop where
  windows : WindowsValid s.localAggregateStore
  history : HistoryBounded s.obsHistory

/-- A read after a write gives the written value, the one from before, or zero where the write
replaced a history of the other kind. -/
theorem getLastGenerated_setLastGenerated_cases (history : AggregatedObservationHistoryStore)
    (k k' : ObservationSource) (v : ℕ) :
    getLastGenerated (setLastGenerated k v history) k' = v ∨
      getLastGenerated (setLastGenerated k v history) k' = getLastGenerated history k' ∨
      getLastGenerated (setLastGenerated k v history) k' = 0 := by
  have hite : ∀ {p : Prop} [Decidable p] {a b c : ℕ}, c = (if p then a else b) → c = a ∨ c = b := by
    intro p _ a b c h
    split_ifs at h
    · exact Or.inl h
    · exact Or.inr h
  cases k with
  | uniqueActives key code days =>
    cases k' with
    | uniqueActives =>
      exact (hite (getUniqueActives_setUniqueActives ..)).imp id Or.inl
    | numeric => exact Or.inr (hite (getPerDeviceNumeric_setUniqueActives ..)).symm
    | reportParticipation => exact Or.inr (Or.inl (getReportParticipation_setUniqueActives ..))
  | numeric key component code days =>
    cases k' with
    | uniqueActives => exact Or.inr (hite (getUniqueActives_setPerDeviceNumeric ..)).symm
    | numeric => exact (hite (getPerDeviceNumeric_setPerDeviceNumeric ..)).imp id Or.inl
    | reportParticipation => exact Or.inr (Or.inl (getReportParticipation_setPerDeviceNumeric ..))
  | reportParticipation key =>
    cases k' with
    | uniqueActives => exact Or.inr (Or.inl (getUniqueActives_setReportParticipation ..))
    | numeric => exact Or.inr (Or.inl (getPerDeviceNumeric_setReportParticipation ..))
    | reportParticipation =>
      exact (hite (getReportParticipation_setReportParticipation ..)).imp id Or.inl

/-- Registrations start from a well-formed store and keep it so. -/
theorem wellFormed_maybeInsertReportConfig {context : ProjectContext} {metric : MetricDefinition}
    {report : ReportDefinition} {s : AggregateStore} (h : WellFormed s) :
    WellFormed (maybeInsertReportConfig context metric report s).2 := by
  refine ⟨windowsValid_maybeInsertReportConfig h.windows, ?_⟩
  have hhistory : (maybeInsertReportConfig context metric report s).2.obsHistory =
      s.obsHistory := by
    simp only [maybeInsertReportConfig]
    split
    · rfl
    · split <;> rfl
  rw [hhistory]
  exact h.history

theorem historyBounded_makeNewObservationHistoryStore :
    HistoryBounded makeNewObservationHistoryStore := by
  intro k
  have hzero : getLastGenerated makeNewObservationHistoryStore k = 0 := by
    cases k <;> rfl
  rw [hzero]
  decide

/-- Windows are a matter of the configurations alone. -/
theorem windowsValid_of_configOf_eq {store store' : LocalAggregateStore}
    (h : ∀ key, store'.configOf key = store.configOf key) (hvalid : WindowsValid store) :
    WindowsValid store' := by
  intro key aggregates hlookup
  have hconfig := h key
  rw [LocalAggregateStore.configOf, hlookup] at hconfig
  obtain ⟨aggregates', hlookup', heq⟩ := Option.map_eq_some_iff.mp hconfig.symm
  have hvalid' := hvalid key aggregates' hlookup'
  rwa [heq] at hvalid'

theorem Rehashed.wellFormed {s s₁ : AggregateStore} (h : Rehashed s s₁) (hwf : WellFormed s) :
    WellFormed s₁ :=
  ⟨windowsValid_of_configOf_eq h.configOf_eq hwf.windows, h.obsHistory_eq ▸ hwf.history⟩

/-- A call of `GenerateObservations` records days below `UINT32_MAX` only. -/
private theorem historyBounded_generateReports {backend : Backend} {store : LocalAggregateStore}
    {backfillDays finalDayIndexUtc finalDayIndexLocal : ℕ} {s : GenState}
    (hutc : finalDayIndexUtc < U32.max) (hlocal : finalDayIndexLocal < U32.max)
    (h : HistoryBounded s.obsHistory) :
    HistoryBounded (generateReports backend backfillDays finalDayIndexUtc finalDayIndexLocal store
      s).2.obsHistory := by
  refine generateReports_rel
    (R := fun s s' => HistoryBounded s.obsHistory → HistoryBounded s'.obsHistory)
    (fun _ h => h) (fun _ _ _ h₁ h₂ h => h₂ (h₁ h)) ?_ ?_ backfillDays s h
  · intro w s _ _ hs
    rcases generateSingle_cases backend w s with ⟨_, heq⟩ | heq <;> rw [heq] <;> exact hs
  · intro k d s _ hd hs k'
    rcases getLastGenerated_setLastGenerated_cases s.obsHistory k k' d with hv | hv | hv
    · exact hv.trans_lt (hd.le_max.trans_lt (max_lt hutc hlocal))
    · exact hv.trans_lt (hs k')
    · exact hv.trans_lt (by decide)

/-- Every call keeps a store well-formed. -/
theorem wellFormed_step {allowed : Call → Prop} {s s' : AggregateStore} {out : List Written}
    (h : Step allowed s out s') (hwf : WellFormed s) : WellFormed s' := by
  refine ⟨windowsValid_of_configOf_eq (configOf_step h) hwf.windows, ?_⟩
  obtain ⟨s₁, call, hrehash, _, hrun⟩ := h
  have hwf₁ := hrehash.wellFormed hwf
  rcases run_cases hrun with ⟨_, hhistory⟩ | ⟨backend, utc, loc, status, -, hgen⟩
  · rw [hhistory]
    exact hwf₁.history
  · obtain ⟨⟨hutc, hlocal⟩, g, hg, _, rfl⟩ := generateObservations_cases hgen
    have hbounded : HistoryBounded (status, g).2.obsHistory := by
      rw [← hg]
      exact historyBounded_generateReports hutc.1 hlocal.1 hwf₁.history
    exact hbounded

end Cobalt.LocalAggregation
