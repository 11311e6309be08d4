import Cobalt.Lib.Run
import Cobalt.LocalAggregation.StoredCodes
import Cobalt.Logger.EventLoggers

/-!
# The event codes of aggregated observations

Numeric aggregates are stored under the packed event code of the logged events, a number of 64
bits. The functions that generate an observation and those that access the history take the code
as a number of 32 bits. So an observation carries the code of its events exactly when that code is
below `2 ^ 32`, and two codes that agree in their lower 32 bits share one history.

## Main definitions

* `AggregatorCall`, `AggregatorStep`: runs of the event aggregator, fed by a logger.
* `EventCodesFaithful`: observations carry the codes of their events, and no two codes share a
  history.

## Main results

* `packedEventCode_iff`: when an observation carries its code.
* `eventCodes_faithful`: event codes are faithful in a run in which those that are aggregated are
  packed into numbers below `2 ^ 32`.
-/

namespace Cobalt.LocalAggregation

open Logger

/-! ### Runs of the event aggregator -/

/-- The event codes, the component and the value of an event with numeric aggregates. -/
def numericFields : EventType → Option (List ℕ × String × ℤ)
  | .eventCountEvent eventCode component _ count => some (eventCode, component, count)
  | .elapsedTimeEvent eventCode component value | .frameRateEvent eventCode component value
  | .memoryUsageEvent eventCode component value => some (eventCode, component, value)
  | _ => none

/-- The calls that a run of the event aggregator is made of. An event is logged for one report of
its metric at a time. -/
inductive AggregatorCall
  | updateAggregationConfigs (context : ProjectContext)
  | logEvent (record : EventRecord) (metric : MetricDefinition) (report : ReportDefinition)
      (time : Timestamp)
  | garbageCollect (dayIndexUtc dayIndexLocal : ℕ)
  | generateObservations (backend : Backend) (finalDayIndexUtc finalDayIndexLocal : ℕ)
  | deleteData
  | disable (isDisabled : Bool)

/-- What happened in a run: events were logged and observations written. -/
inductive AggregatorOutput
  | logged (metric : MetricDefinition) (report : ReportDefinition) (event : Event)
  | written (w : Written)

/-- A call, `none` when it fails a `CHECK`. -/
def AggregatorCall.run (s : AggregateStore) :
    AggregatorCall → Option (List AggregatorOutput × AggregateStore)
  | .updateAggregationConfigs context =>
    some ([], (LocalAggregation.updateAggregationConfigs context s).2)
  | .logEvent record metric report time =>
    some ([.logged metric report record.event],
      (maybeUpdateLocalAggregation report metric (finalizeEvent metric time record.event) s).2)
  | .garbageCollect utc loc => (LocalAggregation.garbageCollect utc loc s).map fun r => ([], r.2)
  | .generateObservations backend utc loc =>
    (LocalAggregation.generateObservations backend utc loc s).map fun r =>
      (r.2.1.map .written, r.2.2)
  | .deleteData => some ([], LocalAggregation.deleteData s)
  | .disable isDisabled => some ([], LocalAggregation.disable isDisabled s)

/-- An event reaches the aggregator when the logger has accepted it, for a report of its metric. -/
def AggregatorCall.Accepted : AggregatorCall → Prop
  | .logEvent record metric report _ => record.metric = some metric ∧ report ∈ metric.reports ∧
      prepareAndValidateEvent record.event.type.metricType record = .kOK
  | _ => True

/-- The packed event code of an event that is logged for a per-device numeric report is below
`2 ^ 32`. -/
def AggregatorCall.CodeFits : AggregatorCall → Prop
  | .logEvent record _ report _ => isPerDeviceNumeric report.reportType →
      ∀ eventCode component value, numericFields record.event.type = some (eventCode, component, value) →
        Config.packEventCodes eventCode < U32.size
  | _ => True

/-- One of the allowed calls, made on the store as it is or after its maps were rehashed. -/
def AggregatorStep (allowed : AggregatorCall → Prop) (s : AggregateStore)
    (out : List AggregatorOutput) (s' : AggregateStore) : Prop :=
  ∃ s₁ call, Rehashed s s₁ ∧ allowed call ∧ call.run s₁ = some (out, s')

/-! ### Faithful event codes -/

/-- The packed event code that an observation from numeric aggregates carries. -/
def ObservationType.packedEventCode : ObservationType → Option ℕ
  | .perDeviceNumeric _ eventCode _ _ => some eventCode
  | .perDeviceHistogram _ eventCode _ _ => some eventCode
  | _ => none

/-- The event is aggregated for the report under the packed event code. -/
def AggregatedUnder (metric : MetricDefinition) (report : ReportDefinition) (event : Event)
    (key : ReportAggregationKey) (component : String) (code : ℕ) : Prop :=
  key = reportKeyOf report.id metric ∧ isPerDeviceNumeric report.reportType ∧ ∃ eventCode value,
    numericFields event.type = some (eventCode, component, value) ∧
      code = Config.packEventCodes eventCode

/-- An event that is aggregated under this packed event code was logged. -/
def LoggedUnder (out : List AggregatorOutput) (key : ReportAggregationKey) (component : String)
    (code : ℕ) : Prop :=
  ∃ metric report event, .logged metric report event ∈ out ∧
    AggregatedUnder metric report event key component code

/-- What event codes have to satisfy in a run with the outputs `out`. -/
structure EventCodesFaithful (out : List AggregatorOutput) : Prop where
  /-- An observation carries the packed event code under which its events were aggregated. -/
  carries : ∀ w key component code days, .written w ∈ out →
    w.source = .numeric key component code days →
    w.observation.type.packedEventCode = some code ∧ LoggedUnder out key component code
  /-- What is recorded for one packed event code is not seen by another one. -/
  apart : ∀ key component code code', LoggedUnder out key component code →
    LoggedUnder out key component code' → code ≠ code' → ∀ history days days' value,
    getPerDeviceNumericLastGeneratedDayIndex
        (setPerDeviceNumericLastGeneratedDayIndex history key component code days value) key
        component code' days' =
      getPerDeviceNumericLastGeneratedDayIndex history key component code' days'
  /-- An event changes the aggregates under its own packed event code alone. -/
  own : ∀ metric report event key component code,
    ¬ AggregatedUnder metric report event key component code → ∀ s,
    storedDays (maybeUpdateLocalAggregation report metric event s).2.localAggregateStore key
      component code = storedDays s.localAggregateStore key component code

/-! ### One observation and one event -/

/-- When an observation carries its code. An observation from numeric aggregates carries the
packed event code that its aggregates are stored under if and only if the code is below
`2 ^ 32`. -/
theorem packedEventCode_iff {w : Written} (h : w.Encodes) {key : ReportAggregationKey}
    {component : String} {code days : ℕ} (hsource : w.source = .numeric key component code days) :
    w.observation.type.packedEventCode = some code ↔ code < U32.size := by
  have hcarried : w.observation.type.packedEventCode = some (U32.ofNat code) := by
    have hlt : U32.ofNat code < 2 ^ 50 := (U32.ofNat_lt code).trans (by decide)
    rw [Written.Encodes, hsource] at h
    obtain ⟨window, value, h | h⟩ := h <;>
      rw [h, ObservationType.packedEventCode, Config.packEventCodes_unpackEventCodes hlt]
  rw [hcarried, Option.some.injEq]
  exact ⟨fun heq => heq ▸ U32.ofNat_lt code, U32.ofNat_of_lt⟩

/-- What an event does to the aggregates: nothing, or it makes an event code active, or it is
aggregated under its packed event code. -/
theorem maybeUpdateLocalAggregation_cases (report : ReportDefinition) (metric : MetricDefinition)
    (event : Event) (s : AggregateStore) :
    (maybeUpdateLocalAggregation report metric event s).2 = s ∨
    (∃ eventCode, (maybeUpdateLocalAggregation report metric event s).2 =
      (setActive (reportKeyOf report.id metric) eventCode event.dayIndex s).2) ∨
    isPerDeviceNumeric report.reportType ∧ ∃ eventCode component value,
      numericFields event.type = some (eventCode, component, value) ∧
      (maybeUpdateLocalAggregation report metric event s).2 =
        (updateNumericAggregate (reportKeyOf report.id metric) component
          (Config.packEventCodes eventCode) event.dayIndex value s).2 := by
  obtain ⟨type, dayIndex, hourIndex⟩ := event
  cases type with
  | typeNotSet => exact Or.inl rfl
  | intHistogramEvent => exact Or.inl rfl
  | customEvent => exact Or.inl rfl
  | eventOccurredEvent eventCode =>
    simp only [maybeUpdateLocalAggregation]
    split_ifs
    · exact Or.inr (Or.inl ⟨eventCode, rfl⟩)
    · exact Or.inl rfl
  | eventCountEvent eventCode component
  | elapsedTimeEvent eventCode component
  | frameRateEvent eventCode component
  | memoryUsageEvent eventCode component =>
    simp only [maybeUpdateLocalAggregation]
    split_ifs with hreport
    · exact Or.inr (Or.inr ⟨hreport, eventCode, component, _, rfl, rfl⟩)
    · exact Or.inl rfl

/-- An event adds at most its own packed event code to the store. -/
theorem hasCode_maybeUpdateLocalAggregation {report : ReportDefinition} {metric : MetricDefinition}
    {event : Event} {s : AggregateStore} {key : ReportAggregationKey} {component : String}
    {code : ℕ}
    (h : HasCode (maybeUpdateLocalAggregation report metric event s).2.localAggregateStore key
      component code) :
    HasCode s.localAggregateStore key component code ∨
      AggregatedUnder metric report event key component code := by
  rcases maybeUpdateLocalAggregation_cases report metric event s with
    heq | ⟨eventCode, heq⟩ | ⟨hreport, eventCode, component', value, hfields, heq⟩ <;>
    rw [heq] at h
  · exact Or.inl h
  · exact Or.inl (hasCode_setActive h)
  · refine (hasCode_updateNumericAggregate h).imp id ?_
    rintro ⟨rfl, rfl, rfl⟩
    exact ⟨rfl, hreport, eventCode, value, hfields, rfl⟩

/-- An event leaves the aggregates under other codes alone. -/
theorem storedDays_maybeUpdateLocalAggregation {report : ReportDefinition}
    {metric : MetricDefinition} {event : Event} {key : ReportAggregationKey} {component : String}
    {code : ℕ} (h : ¬ AggregatedUnder metric report event key component code)
    (s : AggregateStore) :
    storedDays (maybeUpdateLocalAggregation report metric event s).2.localAggregateStore key
      component code = storedDays s.localAggregateStore key component code := by
  rcases maybeUpdateLocalAggregation_cases report metric event s with
    heq | ⟨eventCode, heq⟩ | ⟨hreport, eventCode, component', value, hfields, heq⟩ <;> rw [heq]
  · exact storedDays_setActive ..
  · refine storedDays_updateNumericAggregate ?_ _ _ s
    rintro ⟨rfl, rfl, rfl⟩
    exact h ⟨rfl, hreport, eventCode, value, hfields, rfl⟩

theorem emptyLocalAggregateStore_maybeUpdateLocalAggregation (report : ReportDefinition)
    (metric : MetricDefinition) (event : Event) (s : AggregateStore) :
    (maybeUpdateLocalAggregation report metric event s).2.emptyLocalAggregateStore =
      s.emptyLocalAggregateStore := by
  rcases maybeUpdateLocalAggregation_cases report metric event s with
    heq | ⟨eventCode, heq⟩ | ⟨-, eventCode, component, value, _, heq⟩ <;> rw [heq]
  · unfold setActive
    split_ifs
    · rfl
    · split
      · rfl
      · split <;> rfl
  · unfold updateNumericAggregate
    split_ifs
    · rfl
    · split
      · rfl
      · split <;> rfl

theorem emptyLocalAggregateStore_garbageCollect {s s' : AggregateStore} {utc loc : ℕ}
    {status : Status} (h : garbageCollect utc loc s = some (status, s')) :
    s'.emptyLocalAggregateStore = s.emptyLocalAggregateStore := by
  simp only [garbageCollect] at h
  split_ifs at h
  obtain ⟨_, rfl⟩ := Prod.mk.inj (Option.some.inj h)
  rfl

/-- No code is added by registering the reports of a project. -/
private def NoNewCode (s s' : AggregateStore) : Prop :=
  ∀ key component code,
    (HasCode s'.localAggregateStore key component code →
      HasCode s.localAggregateStore key component code) ∧
    (HasCode s'.emptyLocalAggregateStore key component code →
      HasCode s.emptyLocalAggregateStore key component code)

private theorem NoNewCode.refl (s : AggregateStore) : NoNewCode s s :=
  fun _ _ _ => ⟨id, id⟩

private theorem NoNewCode.trans {s s' s'' : AggregateStore} (h : NoNewCode s s')
    (h' : NoNewCode s' s'') : NoNewCode s s'' :=
  fun key component code => ⟨(h key component code).1 ∘ (h' key component code).1,
    (h key component code).2 ∘ (h' key component code).2⟩

private theorem noNewCode_insertReportConfigs (context : ProjectContext)
    (metric : MetricDefinition) (isAggregated : ReportType → Bool) (s : AggregateStore) :
    NoNewCode s (insertReportConfigs context metric isAggregated s).2 := by
  refine Loop.runAll_rel NoNewCode.refl (fun _ _ _ => NoNewCode.trans) (fun report _ s => ?_) s
  split_ifs
  · exact fun _ _ _ => hasCode_maybeInsertReportConfig context metric report s
  · exact .refl s

private theorem noNewCode_updateAggregationConfigs (context : ProjectContext)
    (s : AggregateStore) : NoNewCode s (updateAggregationConfigs context s).2 := by
  refine Loop.runAll_rel NoNewCode.refl (fun _ _ _ => NoNewCode.trans) (fun metric _ s => ?_) s
  have hinsert := noNewCode_insertReportConfigs context metric
  cases metric.metricType with
  | EVENT_OCCURRED =>
    dsimp only
    split_ifs
    · exact (hinsert isUniqueActives s).trans (hinsert isPerDeviceNumeric _)
    · exact hinsert isUniqueActives s
  | EVENT_COUNT => exact hinsert isPerDeviceNumeric s
  | ELAPSED_TIME => exact hinsert isPerDeviceNumeric s
  | FRAME_RATE => exact hinsert isPerDeviceNumeric s
  | MEMORY_USAGE => exact hinsert isPerDeviceNumeric s
  | INT_HISTOGRAM => exact .refl s
  | CUSTOM => exact .refl s
  | other => exact .refl s

/-! ### Runs -/

/-- What a run keeps: the codes of the store are those of logged events, all of them fit, and every
observation was generated from such a code. -/
private structure EventCodesInvariant (out : List AggregatorOutput) (s : AggregateStore) :
    Prop where
  codes : ∀ key component code, HasCode s.localAggregateStore key component code →
    LoggedUnder out key component code
  empty : ∀ key component code, ¬ HasCode s.emptyLocalAggregateStore key component code
  encodes : ∀ w, .written w ∈ out → w.Encodes ∧ ∀ key component code days,
    w.source = .numeric key component code days → LoggedUnder out key component code
  fits : ∀ key component code, LoggedUnder out key component code → code < U32.size

private theorem LoggedUnder.append {out new : List AggregatorOutput} {key : ReportAggregationKey}
    {component : String} {code : ℕ} (h : LoggedUnder out key component code) :
    LoggedUnder (out ++ new) key component code := by
  obtain ⟨metric, report, event, hmem, hunder⟩ := h
  exact ⟨metric, report, event, List.mem_append_left new hmem, hunder⟩

private theorem loggedUnder_append_iff {out new : List AggregatorOutput}
    {key : ReportAggregationKey} {component : String} {code : ℕ} :
    LoggedUnder (out ++ new) key component code ↔
      LoggedUnder out key component code ∨ LoggedUnder new key component code := by
  simp only [LoggedUnder, List.mem_append, or_and_right, exists_or]

/-- A call that logs no event and writes no observation, and adds no code. -/
private theorem EventCodesInvariant.of_noNewCode {out : List AggregatorOutput}
    {s s' : AggregateStore} (h : EventCodesInvariant out s) (hnew : NoNewCode s s') :
    EventCodesInvariant (out ++ []) s' := by
  rw [List.append_nil]
  exact ⟨fun key component code hcode =>
      h.codes key component code ((hnew key component code).1 hcode),
    fun key component code hcode =>
      h.empty key component code ((hnew key component code).2 hcode), h.encodes, h.fits⟩

private theorem EventCodesInvariant.logEvent {out : List AggregatorOutput} {s : AggregateStore}
    (h : EventCodesInvariant out s) {record : EventRecord} {metric : MetricDefinition}
    {report : ReportDefinition} {time : Timestamp}
    (hfits : (AggregatorCall.logEvent record metric report time).CodeFits) :
    EventCodesInvariant (out ++ [.logged metric report record.event])
      (maybeUpdateLocalAggregation report metric (finalizeEvent metric time record.event) s).2 := by
  refine ⟨fun key component code hcode => ?_, fun key component code => ?_, fun w hw => ?_,
    fun key component code hlogged => ?_⟩
  · rcases hasCode_maybeUpdateLocalAggregation hcode with hcode | hunder
    · exact (h.codes key component code hcode).append
    · exact ⟨metric, report, record.event, List.mem_append_right _ List.mem_cons_self, hunder⟩
  · rw [emptyLocalAggregateStore_maybeUpdateLocalAggregation]
    exact h.empty key component code
  · rcases List.mem_append.mp hw with hw | hw
    · exact ⟨(h.encodes w hw).1, fun key component code days hsource =>
        ((h.encodes w hw).2 key component code days hsource).append⟩
    · exact absurd (List.mem_singleton.mp hw) (by simp)
  · rcases loggedUnder_append_iff.mp hlogged with hlogged | hlogged
    · exact h.fits key component code hlogged
    · obtain ⟨metric', report', event', hmem, _, hreport, eventCode, value, hfields, rfl⟩ := hlogged
      obtain ⟨-, rfl, rfl⟩ := AggregatorOutput.logged.inj (List.mem_singleton.mp hmem)
      exact hfits hreport eventCode component value hfields

private theorem EventCodesInvariant.generateObservations {out : List AggregatorOutput}
    {s s' : AggregateStore} (h : EventCodesInvariant out s) {backend : Backend} {utc loc : ℕ}
    {status : Status} {new : List Written}
    (hgen : LocalAggregation.generateObservations backend utc loc s = some (status, new, s')) :
    EventCodesInvariant (out ++ new.map .written) s' := by
  have hfits := fits_of_generateObservations hgen
  obtain ⟨obsHistory, rfl⟩ := eq_of_generateObservations hgen
  refine ⟨fun key component code hcode => (h.codes key component code hcode).append, h.empty,
    fun w hw => ?_, fun key component code hlogged => ?_⟩
  · rcases List.mem_append.mp hw with hw | hw
    · exact ⟨(h.encodes w hw).1, fun key component code days hsource =>
        ((h.encodes w hw).2 key component code days hsource).append⟩
    · obtain ⟨w', hw', heq⟩ := List.mem_map.mp hw
      obtain rfl := AggregatorOutput.written.inj heq
      obtain ⟨-, config, -, hof⟩ := hfits w' hw'
      refine ⟨hof.encodes, fun key component code days hsource => ?_⟩
      have hw' := (hfits w' hw').1
      rw [hsource] at hw'
      exact (h.codes key component code hw'.2).append
  · rcases loggedUnder_append_iff.mp hlogged with hlogged | ⟨_, _, _, hmem, _⟩
    · exact h.fits key component code hlogged
    · obtain ⟨_, _, heq⟩ := List.mem_map.mp hmem
      exact absurd heq (by simp)

private theorem EventCodesInvariant.step {out new : List AggregatorOutput} {s s' : AggregateStore}
    (h : EventCodesInvariant out s)
    (hstep : AggregatorStep (fun call => call.Accepted ∧ call.CodeFits) s new s') :
    EventCodesInvariant (out ++ new) s' := by
  obtain ⟨s₁, call, hrehash, ⟨-, hfits⟩, hrun⟩ := hstep
  have h₁ : EventCodesInvariant out s₁ := by
    refine ⟨fun key component code hcode => h.codes key component code (hrehash.hasCode hcode),
      ?_, h.encodes, h.fits⟩
    obtain ⟨store, _, rfl⟩ := hrehash
    exact h.empty
  cases call with
  | updateAggregationConfigs context =>
    obtain ⟨rfl, rfl⟩ := Prod.mk.inj (Option.some.inj hrun)
    exact h₁.of_noNewCode (noNewCode_updateAggregationConfigs context s₁)
  | logEvent record metric report time =>
    obtain ⟨rfl, rfl⟩ := Prod.mk.inj (Option.some.inj hrun)
    exact h₁.logEvent hfits
  | garbageCollect utc loc =>
    obtain ⟨⟨status, s₂⟩, hgc, heq⟩ := Option.map_eq_some_iff.mp hrun
    obtain ⟨rfl, rfl⟩ := Prod.mk.inj heq
    refine h₁.of_noNewCode fun key component code => ⟨hasCode_garbageCollect hgc, ?_⟩
    rw [emptyLocalAggregateStore_garbageCollect hgc]
    exact id
  | generateObservations backend utc loc =>
    obtain ⟨⟨status, written, s₂⟩, hgen, heq⟩ := Option.map_eq_some_iff.mp hrun
    obtain ⟨rfl, rfl⟩ := Prod.mk.inj heq
    exact h₁.generateObservations hgen
  | deleteData =>
    obtain ⟨rfl, rfl⟩ := Prod.mk.inj (Option.some.inj hrun)
    exact h₁.of_noNewCode fun key component code =>
      ⟨fun hcode => absurd hcode (h₁.empty key component code), id⟩
  | disable isDisabled =>
    obtain ⟨rfl, rfl⟩ := Prod.mk.inj (Option.some.inj hrun)
    exact h₁.of_noNewCode fun _ _ _ => ⟨id, id⟩

/-- **Event codes are faithful as long as they fit.** Start with a store without reports, and make
any sequence of calls in which the packed event codes of the events that are logged for per-device
numeric reports are below `2 ^ 32`. Then every observation from numeric aggregates carries the
packed event code of the events that were aggregated in it, and different packed event codes have
different histories. -/
theorem eventCodes_faithful {s₀ s : AggregateStore} {out : List AggregatorOutput}
    (hstore : s₀.localAggregateStore = makeNewLocalAggregateStore)
    (hempty : s₀.emptyLocalAggregateStore = makeNewLocalAggregateStore)
    (hrun : Run (AggregatorStep fun call => call.Accepted ∧ call.CodeFits) s₀ out s) :
    EventCodesFaithful out := by
  have hinv : EventCodesInvariant out s := by
    refine Run.invariant ?_ (fun _ _ _ _ h hstep => h.step hstep) hrun
    refine ⟨fun key component code hcode => ?_, fun key component code hcode => ?_,
      fun w hw => absurd hw List.not_mem_nil, ?_⟩
    · rw [hstore] at hcode
      exact absurd hcode not_hasCode_makeNewLocalAggregateStore
    · rw [hempty] at hcode
      exact not_hasCode_makeNewLocalAggregateStore hcode
    · rintro key component code ⟨_, _, _, hmem, _⟩
      exact absurd hmem List.not_mem_nil
  refine ⟨fun w key component code days hw hsource => ?_,
    fun key component code code' hcode hcode' hne history days days' value => ?_,
    fun metric report event key component code h s => storedDays_maybeUpdateLocalAggregation h s⟩
  · obtain ⟨hencodes, hlogged⟩ := hinv.encodes w hw
    have hlogged := hlogged key component code days hsource
    exact ⟨(packedEventCode_iff hencodes hsource).mpr (hinv.fits _ _ _ hlogged), hlogged⟩
  · have hlt := hinv.fits key component code hcode
    have hlt' := hinv.fits key component code' hcode'
    rw [getPerDeviceNumeric_setPerDeviceNumeric, U32.ofNat_of_lt hlt, U32.ofNat_of_lt hlt',
      if_neg fun h => hne h.2.2.1.symm]

/-! ### A metric with four dimensions -/

/-- A report of daily counts. -/
def countReport : ReportDefinition where
  id := 4
  reportType := .PER_DEVICE_NUMERIC_STATS
  aggregationWindow := [.days 1]

/-- A metric that counts events with four event codes. -/
def countMetric : MetricDefinition where
  customerId := 1
  projectId := 2
  id := 3
  metricType := .EVENT_COUNT
  metricDimensions := List.replicate 4 { maxEventCode := 1023 }
  reports := [countReport]

/-- The project of the metric. -/
def countContext : ProjectContext := ⟨⟨1, 2⟩, [countMetric]⟩

/-- An event of the metric. -/
def countEvent (eventCodes : List ℕ) : EventRecord :=
  .new countContext 3 (.eventCountEvent eventCodes "c" 0 10)

/-- A store without reports. -/
def newStore : AggregateStore where
  localAggregateStore := makeNewLocalAggregateStore
  emptyLocalAggregateStore := makeNewLocalAggregateStore
  obsHistory := makeNewObservationHistoryStore
  isDisabled := false
  backfillDays := 0
  backfillDays_le := Nat.zero_le _

/-- The packed event codes that the observations of a run carry. -/
def carriedCodes (out : List AggregatorOutput) : List ℕ :=
  out.filterMap fun
    | .written w => w.observation.type.packedEventCode
    | _ => none

/-- Two events whose codes fit into 32 bits. -/
theorem eventCodes_faithful_fitting :
    ∃ out s, Run (AggregatorStep fun call => call.Accepted ∧ call.CodeFits) newStore out s ∧
      carriedCodes out = [2 ^ 30 + 2, 1] ∧ EventCodesFaithful out := by
  have hfits : ∀ {eventCodes : List ℕ}, Config.packEventCodes eventCodes < U32.size →
      (AggregatorCall.logEvent (countEvent eventCodes) countMetric countReport
        ⟨500, 500, 0, 0⟩).CodeFits := by
    intro eventCodes hlt _ codes component value hfields
    obtain ⟨rfl, -⟩ := Prod.mk.inj (Option.some.inj hfields)
    exact hlt
  have h₁ := (@Run.nil _ _ (AggregatorStep fun call => call.Accepted ∧ call.CodeFits)
    newStore).snoc ⟨_, .updateAggregationConfigs countContext, .refl _, ⟨trivial, trivial⟩, rfl⟩
  have h₂ := h₁.snoc ⟨_, .logEvent (countEvent [1]) countMetric countReport ⟨500, 500, 0, 0⟩,
    .refl _, ⟨⟨by decide, by decide, by decide⟩, hfits (by decide)⟩, rfl⟩
  have h₃ := h₂.snoc ⟨_, .logEvent (countEvent [2, 0, 0, 1]) countMetric countReport
    ⟨500, 500, 0, 0⟩, .refl _, ⟨⟨by decide, by decide, by decide⟩, hfits (by decide)⟩, rfl⟩
  have h₄ := h₃.snoc ⟨_, .generateObservations .reliable 500 500, .refl _, ⟨trivial, trivial⟩, rfl⟩
  exact ⟨_, _, h₄, by decide, eventCodes_faithful rfl rfl h₄⟩

/-- The event codes `[1, 0, 0, 4]` are packed into `2 ^ 32 + 1`, and the observation for them
carries the code 1. The observation for the event codes `[1]` is never written: the history has
been told that the code 1 is done. -/
theorem eventCodes_truncated :
    ∃ out s, Run (AggregatorStep AggregatorCall.Accepted) newStore out s ∧
      LoggedUnder out ⟨1, 2, 3, 4⟩ "c" (2 ^ 32 + 1) ∧ LoggedUnder out ⟨1, 2, 3, 4⟩ "c" 1 ∧
      carriedCodes out = [1] ∧ ¬ EventCodesFaithful out := by
  have h₁ := (@Run.nil _ _ (AggregatorStep AggregatorCall.Accepted) newStore).snoc
    ⟨_, .updateAggregationConfigs countContext, .refl _, trivial, rfl⟩
  have h₂ := h₁.snoc ⟨_, .logEvent (countEvent [1]) countMetric countReport ⟨500, 500, 0, 0⟩,
    .refl _, ⟨by decide, by decide, by decide⟩, rfl⟩
  have h₃ := h₂.snoc ⟨_, .logEvent (countEvent [1, 0, 0, 4]) countMetric countReport
    ⟨500, 500, 0, 0⟩, .refl _, ⟨by decide, by decide, by decide⟩, rfl⟩
  have h₄ := h₃.snoc ⟨_, .generateObservations .reliable 500 500, .refl _, trivial, rfl⟩
  have hlogged : ∀ {eventCodes code out}, code = Config.packEventCodes eventCodes →
      .logged countMetric countReport (countEvent eventCodes).event ∈ out →
      LoggedUnder out ⟨1, 2, 3, 4⟩ "c" code :=
    fun {eventCodes _ _} hcode hmem => ⟨_, _, _, hmem, rfl, rfl, eventCodes, 10, rfl, hcode⟩
  have hlong : 2 ^ 32 + 1 = Config.packEventCodes [1, 0, 0, 4] := by decide
  have hshort : 1 = Config.packEventCodes [1] := by decide
  refine ⟨_, _, h₄, hlogged hlong (by simp), hlogged hshort (by simp), by decide,
    fun hfaithful => ?_⟩
  have hshared := hfaithful.apart _ _ _ _ (hlogged hlong (by simp)) (hlogged hshort (by simp))
    (by decide) makeNewObservationHistoryStore 1 1 500
  exact absurd hshared (by decide)

end Cobalt.LocalAggregation
