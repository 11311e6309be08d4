import Cobalt.LocalAggregation.EventCodes
import Cobalt.LocalAggregation.GenerateSteps
import Cobalt.LocalAggregation.Sweeps

/-!
# `DeleteData` during a call of `GenerateObservations`

`GenerateObservations` copies the aggregates under their lock and then accesses the history many
times, each time under its lock. `DeleteData` takes the two locks one after the other. A race is any
interleaving of the two. What a call records for numeric aggregates names a component and an event
code of its copy; recorded after the deletion, it brings them back.

## Main definitions

* `Race`, `Race.Step`: the interleavings.
* `Clean`: no component, event code or day of a logged event is left.
* `Timely`: nothing is recorded for numeric aggregates after the history was reset.

## Main results

* `Race.run_exec`: the steps of a call that is not interrupted from some point on.
* `clean_iff_timely`: once both have finished, the store is clean if and only if the race was timely.
-/

namespace Cobalt.LocalAggregation

open Logger

/-! ### The race -/

/-- Where the call of `GenerateObservations` is. -/
inductive Generator
  | waiting
  | running (p : GenProg Status)
  | finished (status : Status)

/-- Where the call of `DeleteData` is: between its two locks the aggregates are cleared and the
history is not. -/
inductive Deleter
  | waiting
  | cleared
  | finished
  deriving DecidableEq, Repr

/-- The store and the two calls. The attempts and the written observations are those of the call of
`GenerateObservations`. -/
structure Race where
  store : AggregateStore
  attempts : ℕ := 0
  written : List Written := []
  generator : Generator := .waiting
  deleter : Deleter := .waiting

/-- A write to the history, with where `DeleteData` was at the time. -/
structure Record where
  deleter : Deleter
  source : ObservationSource
  value : ℕ
  deriving DecidableEq, Repr

namespace Race

/-- What the operations of `GenerateObservations` see of the state. -/
def genState (r : Race) : GenState :=
  ⟨r.store.obsHistory, r.attempts, r.written⟩

/-- The state after an operation of `GenerateObservations`. -/
def withGenState (r : Race) (s : GenState) (generator : Generator) : Race :=
  { r with
    store := { r.store with obsHistory := s.obsHistory }
    attempts := s.attempts
    written := s.written
    generator := generator }

/-- The write to the history that an operation is. -/
def recordOf (deleter : Deleter) : GenOp → List Record
  | .set source value => [⟨deleter, source, value⟩]
  | _ => []

/-- One step of one of the two calls. The copy may be iterated in another order than the store. -/
inductive Step (backend : Backend) (utc loc : ℕ) : Race → List Record → Race → Prop
  | copy {r : Race} (copy : LocalAggregateStore) (h : r.generator = .waiting)
      (hutc : Admitted r.store.backfillDays utc)
      (hloc : Admitted r.store.backfillDays (localDayIndex utc loc))
      (hcopy : SameReports r.store.localAggregateStore copy) :
      Step backend utc loc r []
        { r with
          generator := .running
            (Steps.generateReports r.store.backfillDays utc (localDayIndex utc loc) copy) }
  | operation {r : Race} (op : GenOp) (next : op.Res → GenProg Status)
      (h : r.generator = .running (.ask op next)) :
      Step backend utc loc r (recordOf r.deleter op)
        (r.withGenState (op.handle backend r.genState).2
          (.running (next (op.handle backend r.genState).1)))
  | returned {r : Race} (status : Status) (h : r.generator = .running (.done status)) :
      Step backend utc loc r [] { r with generator := .finished status }
  | clear {r : Race} (h : r.deleter = .waiting) :
      Step backend utc loc r []
        { r with
          store := { r.store with localAggregateStore := r.store.emptyLocalAggregateStore }
          deleter := .cleared }
  | reset {r : Race} (h : r.deleter = .cleared) :
      Step backend utc loc r []
        { r with
          store := { r.store with obsHistory := makeNewObservationHistoryStore }
          deleter := .finished }

/-- Both calls have returned. -/
def Finished (r : Race) : Prop :=
  (∃ status, r.generator = .finished status) ∧ r.deleter = .finished

/-- What a program records when it is executed without interruption. -/
def records (backend : Backend) (deleter : Deleter) : GenProg Status → GenState → List Record
  | .done _, _ => []
  | .ask op next, s =>
    recordOf deleter op ++ records backend deleter (next (op.handle backend s).1)
      (op.handle backend s).2

/-- A call that is no longer interrupted takes the steps of its program and returns what the
execution of the program returns. -/
theorem run_exec {backend : Backend} {utc loc : ℕ} {r₀ r : Race} {out : List Record}
    (hrun : Run (Step backend utc loc) r₀ out r) {p : GenProg Status}
    (h : r.generator = .running p) :
    Run (Step backend utc loc) r₀ (out ++ records backend r.deleter p r.genState)
      (r.withGenState (Prog.exec (GenOp.handle backend) p r.genState).2
        (.finished (Prog.exec (GenOp.handle backend) p r.genState).1)) := by
  induction p generalizing r out with
  | done status =>
    exact hrun.snoc (.returned status h)
  | ask op next ih =>
    have hnext := ih _ (hrun.snoc (.operation op next h)) rfl
    rw [List.append_assoc] at hnext
    exact hnext

end Race

/-! ### What a deletion should leave -/

/-- No aggregates: the reports are those of the registry and nothing else is stored. -/
def NoData (store : LocalAggregateStore) : Prop :=
  ∀ key aggregates, store.byReportKey.lookup key = some aggregates →
    aggregates.uniqueActivesAggregates = ∅ ∧ aggregates.numericAggregates = ∅

/-- No component, event code or day of a logged event is left. The histories of unique actives and
of participation name event codes of the metric definitions and days of the generation. -/
structure Clean (s : AggregateStore) : Prop where
  aggregates : NoData s.localAggregateStore
  history : ∀ key, (reportHistory s.obsHistory key).perDeviceNumericHistory = ∅

/-- The record is for the numeric aggregates of a report and comes after the reset of the
history. -/
def Record.Late (record : Record) (key : ReportAggregationKey) : Prop :=
  record.deleter = .finished ∧ ∃ component eventCode days,
    record.source = .numeric key component eventCode days

/-- Nothing is recorded for numeric aggregates after the history was reset. -/
def Timely (out : List Record) : Prop :=
  ∀ record ∈ out, ∀ key, ¬ record.Late key

/-! ### The store that is copied on deletion -/

theorem noData_makeNewLocalAggregateStore : NoData makeNewLocalAggregateStore := by
  intro key aggregates hlookup
  exact absurd hlookup (by simp [makeNewLocalAggregateStore])

/-- Reports are registered without aggregates. -/
theorem noData_insertReportConfig {context : ProjectContext} {metric : MetricDefinition}
    {report : ReportDefinition} {key : ReportAggregationKey} {store store' : LocalAggregateStore}
    (h : insertReportConfig store key (populateReportAggregates context metric report) = some store')
    (hstore : NoData store) : NoData store' := by
  rw [insertReportConfig] at h
  split_ifs at h
  · exact Option.some.inj h ▸ hstore
  · obtain ⟨aggregates, haggregates, rfl⟩ := Option.map_eq_some_iff.mp h
    intro key' aggregates' hlookup
    rw [ProtoMap.lookup_insert_eq_ite] at hlookup
    split_ifs at hlookup
    · obtain rfl := Option.some.inj hlookup
      obtain ⟨windows, _, hsome⟩ := Option.bind_eq_some_iff.mp haggregates
      split at hsome <;> first | contradiction | (obtain rfl := Option.some.inj hsome; exact ⟨rfl, rfl⟩)
    · exact hstore key' aggregates' hlookup

/-- The relation that registrations keep. -/
private def KeepsNoData (s s' : AggregateStore) : Prop :=
  NoData s.emptyLocalAggregateStore → NoData s'.emptyLocalAggregateStore

private theorem keepsNoData_maybeInsertReportConfig (context : ProjectContext)
    (metric : MetricDefinition) (report : ReportDefinition) (s : AggregateStore) :
    KeepsNoData s (maybeInsertReportConfig context metric report s).2 := by
  intro h
  simp only [maybeInsertReportConfig]
  split
  · exact h
  · split
    · exact h
    · next hinsert => exact noData_insertReportConfig hinsert h

private theorem keepsNoData_updateAggregationConfigs (context : ProjectContext) (s : AggregateStore) :
    KeepsNoData s (updateAggregationConfigs context s).2 := by
  have htrans : ∀ s t u : AggregateStore, KeepsNoData s t → KeepsNoData t u → KeepsNoData s u :=
    fun _ _ _ h h' => h' ∘ h
  have hinsert : ∀ metric isAggregated s,
      KeepsNoData s (insertReportConfigs context metric isAggregated s).2 := by
    intro metric isAggregated s
    refine Loop.runAll_rel (fun _ => id) htrans (fun report _ s => ?_) s
    split_ifs
    · exact keepsNoData_maybeInsertReportConfig context metric report s
    · exact id
  refine Loop.runAll_rel (fun _ => id) htrans (fun metric _ s => ?_) s
  dsimp only
  split
  · split_ifs
    · exact htrans _ _ _ (hinsert metric isUniqueActives s) (hinsert metric isPerDeviceNumeric _)
    · exact hinsert metric isUniqueActives s
  · exact hinsert metric isPerDeviceNumeric s
  · exact hinsert metric isPerDeviceNumeric s
  · exact hinsert metric isPerDeviceNumeric s
  · exact hinsert metric isPerDeviceNumeric s
  · exact id

/-- No call puts data into the store that a deletion copies. -/
theorem noData_emptyLocalAggregateStore {allowed : AggregatorCall → Prop} {s₀ s : AggregateStore}
    {out : List AggregatorOutput} (h : NoData s₀.emptyLocalAggregateStore)
    (hrun : Run (AggregatorStep allowed) s₀ out s) : NoData s.emptyLocalAggregateStore := by
  refine Run.invariant (I := fun _ s => NoData s.emptyLocalAggregateStore) h ?_ hrun
  rintro _ s new s' h ⟨s₁, call, ⟨store, _, rfl⟩, _, hcall⟩
  cases call with
  | updateAggregationConfigs context =>
    obtain ⟨rfl, rfl⟩ := Prod.mk.inj (Option.some.inj hcall)
    exact keepsNoData_updateAggregationConfigs context _ h
  | logEvent record metric report time =>
    obtain ⟨rfl, rfl⟩ := Prod.mk.inj (Option.some.inj hcall)
    rw [emptyLocalAggregateStore_maybeUpdateLocalAggregation]
    exact h
  | garbageCollect utc loc =>
    obtain ⟨⟨status, s₂⟩, hgc, heq⟩ := Option.map_eq_some_iff.mp hcall
    obtain ⟨rfl, rfl⟩ := Prod.mk.inj heq
    rw [emptyLocalAggregateStore_garbageCollect hgc]
    exact h
  | generateObservations backend utc loc =>
    obtain ⟨⟨status, written, s₂⟩, hgen, heq⟩ := Option.map_eq_some_iff.mp hcall
    obtain ⟨rfl, rfl⟩ := Prod.mk.inj heq
    obtain ⟨obsHistory, rfl⟩ := eq_of_generateObservations hgen
    exact h
  | deleteData =>
    obtain ⟨rfl, rfl⟩ := Prod.mk.inj (Option.some.inj hcall)
    exact h
  | disable isDisabled =>
    obtain ⟨rfl, rfl⟩ := Prod.mk.inj (Option.some.inj hcall)
    exact h

/-! ### The numeric history after a record -/

/-- A record changes the entry of its own report alone. -/
theorem reportHistory_setLastGenerated_of_ne {source : ObservationSource} {key : ReportAggregationKey}
    (hne : key ≠ source.reportKey) (value : ℕ) (history : AggregatedObservationHistoryStore) :
    reportHistory (setLastGenerated source value history) key = reportHistory history key := by
  rw [reportHistory, reportHistory]
  cases source with
  | uniqueActives => exact congrArg (·.getD {}) (lookup_setUniqueActives_of_ne hne _ _ _)
  | numeric => exact congrArg (·.getD {}) (lookup_setPerDeviceNumeric_of_ne hne _ _ _ _)
  | reportParticipation => exact congrArg (·.getD {}) (lookup_setReportParticipation_of_ne hne _)

/-- A record for numeric aggregates leaves an entry. -/
theorem perDeviceNumericHistory_setPerDeviceNumeric (history : AggregatedObservationHistoryStore)
    (key : ReportAggregationKey) (component : String) (code days value : ℕ) :
    (reportHistory (setPerDeviceNumericLastGeneratedDayIndex history key component code days value)
      key).perDeviceNumericHistory ≠ ∅ := by
  intro hempty
  have hlookup := congrArg (AList.lookup component) hempty
  simp only [reportHistory, setPerDeviceNumericLastGeneratedDayIndex, ProtoMap.lookup_update_self,
    Option.getD_some, AggregatedObservationHistory.perDeviceNumericHistory] at hlookup
  exact absurd hlookup (by simp)

theorem perDeviceNumericHistory_setReportParticipation
    (history : AggregatedObservationHistoryStore) (key : ReportAggregationKey) (value : ℕ) :
    (reportHistory (setReportParticipationLastGeneratedDayIndex history key value)
      key).perDeviceNumericHistory = (reportHistory history key).perDeviceNumericHistory := by
  simp only [reportHistory, setReportParticipationLastGeneratedDayIndex,
    ProtoMap.lookup_update_self, Option.getD_some]
  rfl

theorem perDeviceNumericHistory_setUniqueActives (history : AggregatedObservationHistoryStore)
    (key : ReportAggregationKey) (code days value : ℕ) :
    (reportHistory (setUniqueActivesLastGeneratedDayIndex history key code days value)
      key).perDeviceNumericHistory = ∅ := by
  simp only [reportHistory, setUniqueActivesLastGeneratedDayIndex, ProtoMap.lookup_update_self,
    Option.getD_some]
  rfl

/-- Without a numeric history nothing is found in it. -/
theorem getPerDeviceNumeric_eq_zero {history : AggregatedObservationHistoryStore}
    {key : ReportAggregationKey} (h : (reportHistory history key).perDeviceNumericHistory = ∅)
    (component : String) (code days : ℕ) :
    getPerDeviceNumericLastGeneratedDayIndex history key component code days = 0 := by
  rw [getPerDeviceNumeric_eq, h]
  rfl

/-! ### The invariant of a race -/

/-- What every step of a race keeps. -/
structure RaceInvariant (out : List Record) (r : Race) : Prop where
  empty : NoData r.store.emptyLocalAggregateStore
  aggregates : r.deleter ≠ .waiting → NoData r.store.localAggregateStore
  /-- Nothing is recorded before the copy is taken, and then for sources that fit it. -/
  waiting : r.generator = .waiting → out = []
  fits : ∃ copy, (∀ record ∈ out, Fits copy record.source) ∧
    ∀ p, r.generator = .running p → p.Asks (GenOp.Fits copy)
  late : r.deleter ≠ .finished → ∀ record ∈ out, record.deleter ≠ .finished
  /-- After the reset the numeric history of a report is empty until a record for it. -/
  history : r.deleter = .finished → ∀ key,
    (reportHistory r.store.obsHistory key).perDeviceNumericHistory = ∅ ↔
      ∀ record ∈ out, ¬ record.Late key

namespace RaceInvariant

variable {backend : Backend} {out : List Record} {r : Race}

theorem init {store : AggregateStore} (h : NoData store.emptyLocalAggregateStore) :
    RaceInvariant [] { store := store } where
  empty := h
  aggregates hne := absurd rfl hne
  waiting _ := rfl
  fits := ⟨store.localAggregateStore, by simp, fun p hp => by simp at hp⟩
  late _ := by simp
  history hfinished := by simp at hfinished

/-- A write to the history. It fits the copy, so it does not replace a numeric history by one of the
other kind. -/
theorem set (h : RaceInvariant out r) {source : ObservationSource} {value : ℕ}
    {next : GenOp.Res (.set source value) → GenProg Status}
    (hr : r.generator = .running (.ask (.set source value) next)) :
    RaceInvariant (out ++ Race.recordOf r.deleter (.set source value))
      (r.withGenState ((GenOp.set source value).handle backend r.genState).2
        (.running (next ((GenOp.set source value).handle backend r.genState).1))) := by
  obtain ⟨copy, hout, hasks⟩ := h.fits
  obtain ⟨hsource, hnext⟩ := hasks _ hr
  have hmem : ∀ {record}, record ∈ out ++ [⟨r.deleter, source, value⟩] →
      record ∈ out ∨ record = ⟨r.deleter, source, value⟩ := by simp
  refine ⟨h.empty, h.aggregates, fun hwaiting => by simp [Race.withGenState] at hwaiting,
    ⟨copy, fun record hrecord => ?_, fun p hp => ?_⟩, fun hdeleter record hrecord => ?_,
    fun hfinished key => ?_⟩
  · rcases hmem hrecord with hrecord | rfl
    · exact hout record hrecord
    · exact hsource
  · exact Generator.running.inj hp ▸ hnext _
  · rcases hmem hrecord with hrecord | rfl
    · exact h.late hdeleter record hrecord
    · exact hdeleter
  · have hfinished : r.deleter = .finished := hfinished
    have hold := h.history hfinished key
    have hlate : (∀ record ∈ out ++ [⟨r.deleter, source, value⟩], ¬ record.Late key) ↔
        (∀ record ∈ out, ¬ record.Late key) ∧
          ¬ (⟨r.deleter, source, value⟩ : Record).Late key := by
      simp only [List.mem_append, List.mem_singleton, or_imp, forall_and, forall_eq]
    refine Iff.trans ?_ hlate.symm
    change (reportHistory (setLastGenerated source value r.store.obsHistory)
      key).perDeviceNumericHistory = ∅ ↔ _
    by_cases hkey : key = source.reportKey
    · subst hkey
      cases source with
      | uniqueActives key code days =>
        refine iff_of_true (perDeviceNumericHistory_setUniqueActives ..) ⟨?_, ?_⟩
        · rintro record hrecord ⟨_, component, code', days', heq⟩
          have hnumeric := hout record hrecord
          rw [heq] at hnumeric
          exact absurd (hsource.symm.trans hnumeric.1) (by simp)
        · rintro ⟨_, _, _, _, heq⟩
          simp at heq
      | numeric key component code days =>
        refine iff_of_false ?_ fun hnone => hnone.2 ⟨hfinished, component, code, days, rfl⟩
        exact perDeviceNumericHistory_setPerDeviceNumeric _ key component code days value
      | reportParticipation key =>
        rw [setLastGenerated, ObservationSource.reportKey,
          perDeviceNumericHistory_setReportParticipation]
        refine hold.trans ⟨fun hnone => ⟨hnone, ?_⟩, And.left⟩
        rintro ⟨_, _, _, _, heq⟩
        simp at heq
    · rw [reportHistory_setLastGenerated_of_ne hkey]
      refine hold.trans ⟨fun hnone => ⟨hnone, ?_⟩, And.left⟩
      rintro ⟨_, component, code, days, heq⟩
      have heq : source = .numeric key component code days := heq
      rw [heq] at hkey
      exact hkey rfl

/-- The other operations leave the store and the records alone. -/
theorem operation (h : RaceInvariant out r) {op : GenOp} {next : op.Res → GenProg Status}
    (hr : r.generator = .running (.ask op next)) :
    RaceInvariant (out ++ Race.recordOf r.deleter op)
      (r.withGenState (op.handle backend r.genState).2
        (.running (next (op.handle backend r.genState).1))) := by
  obtain ⟨copy, hout, hasks⟩ := h.fits
  have hnext := (hasks _ hr).2
  cases op with
  | set source value => exact h.set hr
  | get source =>
    have hnone : out ++ Race.recordOf r.deleter (.get source) = out := List.append_nil out
    rw [hnone]
    exact ⟨h.empty, h.aggregates, fun hwaiting => by simp [Race.withGenState] at hwaiting,
      ⟨copy, hout, fun p hp => Generator.running.inj hp ▸ hnext _⟩, h.late, h.history⟩
  | attempt w =>
    have hhistory : (generateSingle backend w r.genState).2.obsHistory = r.store.obsHistory := by
      rcases generateSingle_cases backend w r.genState with ⟨_, heq⟩ | heq <;> rw [heq] <;> rfl
    have hnone : out ++ Race.recordOf r.deleter (.attempt w) = out := List.append_nil out
    rw [hnone]
    refine ⟨h.empty, h.aggregates, fun hwaiting => by simp [Race.withGenState] at hwaiting,
      ⟨copy, hout, fun p hp => Generator.running.inj hp ▸ hnext _⟩, h.late, ?_⟩
    intro hfinished key
    change (reportHistory (generateSingle backend w r.genState).2.obsHistory
      key).perDeviceNumericHistory = ∅ ↔ _
    rw [hhistory]
    exact h.history hfinished key

/-- Every step of a race keeps the invariant. -/
theorem step {utc loc : ℕ} {new : List Record} {r' : Race} (h : RaceInvariant out r)
    (hstep : Race.Step backend utc loc r new r') : RaceInvariant (out ++ new) r' := by
  cases hstep with
  | operation op next hr => exact h.operation hr
  | copy copy hr _ _ _ =>
    obtain rfl := h.waiting hr
    refine ⟨h.empty, h.aggregates, fun hwaiting => by simp at hwaiting,
      ⟨copy, by simp, fun p hp => ?_⟩, by simp, h.history⟩
    exact Generator.running.inj hp ▸ Steps.asks_generateReports _ _ _ copy
  | returned status hr =>
    obtain ⟨copy, hout, _⟩ := h.fits
    rw [List.append_nil]
    exact ⟨h.empty, h.aggregates, fun hwaiting => by simp at hwaiting,
      ⟨copy, hout, fun p hp => by simp at hp⟩, h.late, h.history⟩
  | clear hr =>
    rw [List.append_nil]
    exact ⟨h.empty, fun _ => h.empty, h.waiting, h.fits, fun _ => h.late (by simp [hr]),
      fun hfinished => by simp at hfinished⟩
  | reset hr =>
    rw [List.append_nil]
    refine ⟨h.empty, fun _ => h.aggregates (by simp [hr]), h.waiting, h.fits,
      fun hfinished => absurd rfl hfinished, fun _ key => iff_of_true rfl ?_⟩
    exact fun record hrecord hlate => h.late (by simp [hr]) record hrecord hlate.1

end RaceInvariant

/-- **What a deletion leaves.** Take any store that calls of the event aggregator lead to, and let
`DeleteData` race against `GenerateObservations`. Once both have returned, no component, event code
or day of a logged event is left if and only if nothing was recorded for numeric aggregates after
`DeleteData` had reset the history. -/
theorem clean_iff_timely {allowed : AggregatorCall → Prop} {s₀ s : AggregateStore}
    {outputs : List AggregatorOutput}
    (hempty : s₀.emptyLocalAggregateStore = makeNewLocalAggregateStore)
    (hcalls : Run (AggregatorStep allowed) s₀ outputs s) {backend : Backend} {utc loc : ℕ}
    {out : List Record} {r : Race} (hrace : Run (Race.Step backend utc loc) { store := s } out r)
    (hfinished : r.Finished) : Clean r.store ↔ Timely out := by
  have hnoData : NoData s₀.emptyLocalAggregateStore :=
    hempty ▸ noData_makeNewLocalAggregateStore
  have hinv : RaceInvariant out r :=
    Run.invariant (RaceInvariant.init (noData_emptyLocalAggregateStore hnoData hcalls))
      (fun _ _ _ _ h hstep => h.step hstep) hrace
  have hhistory := hinv.history hfinished.2
  constructor
  · exact fun hclean record hrecord key => (hhistory key).mp (hclean.history key) record hrecord
  · exact fun htimely => ⟨hinv.aggregates (by simp [hfinished.2]),
      fun key => (hhistory key).mpr fun record hrecord => htimely record hrecord key⟩

/-! ### A counted event -/

/-- A store with one report and one event on day 500, with the event code 1 and the component
`c`. -/
def countedStore : AggregateStore :=
  (maybeUpdateLocalAggregation countReport countMetric
    (finalizeEvent countMetric ⟨500, 500, 0, 0⟩ (countEvent [1]).event)
    (updateAggregationConfigs countContext newStore).2).2

private theorem run_countedStore : ∃ outputs,
    Run (AggregatorStep AggregatorCall.Accepted) newStore outputs countedStore := by
  have h₁ := (@Run.nil _ _ (AggregatorStep AggregatorCall.Accepted) newStore).snoc
    ⟨_, .updateAggregationConfigs countContext, .refl _, trivial, rfl⟩
  have h₂ := h₁.snoc ⟨_, .logEvent (countEvent [1]) countMetric countReport ⟨500, 500, 0, 0⟩,
    .refl _, ⟨by decide, by decide, by decide⟩, rfl⟩
  exact ⟨_, h₂⟩

/-- The aggregates are cleared, then copied, and the rest of the generation comes after the reset of
the history: it records the participation of the report. -/
theorem clean_iff_timely_cleared : ∃ out r,
    Run (Race.Step .reliable 500 500) { store := countedStore } out r ∧ r.Finished ∧
      out = [⟨.finished, .reportParticipation ⟨1, 2, 3, 4⟩, 500⟩] ∧ Clean r.store := by
  obtain ⟨outputs, hcalls⟩ := run_countedStore
  have h₁ := (@Run.nil _ _ (Race.Step .reliable 500 500) { store := countedStore }).snoc (.clear rfl)
  have h₂ := h₁.snoc (.copy _ rfl (by decide +kernel) (by decide +kernel) (.refl _))
  have h₃ := Race.run_exec (h₂.snoc (.reset rfl)) rfl
  refine ⟨_, _, h₃, ⟨⟨_, rfl⟩, rfl⟩, by decide +kernel,
    (clean_iff_timely rfl hcalls h₃ ⟨⟨_, rfl⟩, rfl⟩).mpr ?_⟩
  rintro record hrecord key ⟨_, component, code, days, heq⟩
  rw [List.mem_singleton.mp hrecord] at heq
  simp at heq

/-- The store is copied before `DeleteData` and the observations are generated after it. The history
that is left names the component and the event code of the deleted event. -/
theorem not_clean_interrupted : ∃ outputs out r,
    Run (AggregatorStep AggregatorCall.Accepted) newStore outputs countedStore ∧
      Run (Race.Step .reliable 500 500) { store := countedStore } out r ∧ r.Finished ∧
      getPerDeviceNumericLastGeneratedDayIndex r.store.obsHistory ⟨1, 2, 3, 4⟩ "c" 1 1 = 500 ∧
      ¬ Clean r.store := by
  obtain ⟨outputs, hcalls⟩ := run_countedStore
  have h₁ := (@Run.nil _ _ (Race.Step .reliable 500 500) { store := countedStore }).snoc
    (.copy _ rfl (by decide +kernel) (by decide +kernel) (.refl _))
  have h₂ := (h₁.snoc (.clear rfl)).snoc (.reset rfl)
  have h₃ := Race.run_exec h₂ rfl
  refine ⟨outputs, _, _, hcalls, h₃, ⟨⟨_, rfl⟩, rfl⟩, by decide +kernel, fun hclean => ?_⟩
  have hzero := getPerDeviceNumeric_eq_zero (hclean.history ⟨1, 2, 3, 4⟩) "c" 1 1
  exact absurd hzero (by decide +kernel)

end Cobalt.LocalAggregation
