import Cobalt.LocalAggregation.EventCodes
import Cobalt.Public.CobaltService

/-!
# The collection policy

While the policy is `DO_NOT_COLLECT`, logged events are to be dropped, and when it becomes so, the
stored data are deleted. The `UndatedEventManager` is not told of the policy. It saves events all
the time and keeps them when the policy becomes `DO_NOT_COLLECT`, and a flush under a later policy
passes them on, and their number.

Two runs that differ only in events that are withheld in this sense leave the same data in the
stores, if no flush under a policy that collects data finds a withheld event among those that were
saved.

## Main definitions

* `collected`: the calls of a run other than those of withheld events.
* `CleanRun`: the flushes of the run find no withheld events.
* `CobaltService.Agree`: the relation between two services that the proof is about.

## Main results

* `log_disabled`: an event does not change stores that are disabled.
* `CobaltService.Agree.step`, `CobaltService.Agree.withheld`: a call that both services make, and one
  of a withheld event that only the first makes.
* `stores_eq_of_collected_eq`: the two-run theorem.
* `stores_ne_flushed`: two withheld events that are stored.
-/

namespace Cobalt.Public

open LocalAggregation Logger

variable {Obs Enc W : Type} {env : Environment Obs Enc W}

/-! ### Disabled stores -/

/-- Both stores are disabled. -/
def StoresDisabled (s : Stores (ObservationStore W)) : Prop :=
  s.aggregateStore.isDisabled = true ∧ s.observationStore.isDisabled = true

theorem maybeUpdateLocalAggregation_disabled (report : ReportDefinition) (metric : MetricDefinition)
    (event : Event) {s : AggregateStore} (h : s.isDisabled = true) :
    (maybeUpdateLocalAggregation report metric event s).2 = s := by
  rcases maybeUpdateLocalAggregation_cases report metric event s with
    heq | ⟨eventCode, heq⟩ | ⟨-, eventCode, component, value, _, heq⟩
  · exact heq
  · rw [heq, setActive, if_pos h]
  · rw [heq, updateNumericAggregate, if_pos h]

theorem isDisabled_maybeInsertReportConfig (context : ProjectContext) (metric : MetricDefinition)
    (report : ReportDefinition) (s : AggregateStore) :
    (maybeInsertReportConfig context metric report s).2.isDisabled = s.isDisabled := by
  unfold maybeInsertReportConfig
  dsimp only
  split
  · rfl
  · split <;> rfl

/-- Registering the reports of a project does not enable a store. -/
theorem isDisabled_updateAggregationConfigs (context : ProjectContext) (s : AggregateStore) :
    (updateAggregationConfigs context s).2.isDisabled = s.isDisabled := by
  have htrans (s t u : AggregateStore) (hst : t.isDisabled = s.isDisabled)
      (htu : u.isDisabled = t.isDisabled) : u.isDisabled = s.isDisabled := htu.trans hst
  have hinsert (metric : MetricDefinition) (isAggregated : ReportType → Bool) (s : AggregateStore) :
      (insertReportConfigs context metric isAggregated s).2.isDisabled = s.isDisabled := by
    unfold insertReportConfigs
    refine Loop.runAll_rel (E := Status) (R := fun s t => t.isDisabled = s.isDisabled) (fun _ => rfl) htrans
      (fun report _ s => ?_) s
    split
    · exact isDisabled_maybeInsertReportConfig ..
    · rfl
  unfold updateAggregationConfigs
  refine Loop.runAll_rel (E := Status) (R := fun s t => t.isDisabled = s.isDisabled) (fun _ => rfl) htrans
    (fun metric _ s => ?_) s
  split
  · dsimp only
    split_ifs
    · exact htrans _ _ _ (hinsert ..) (hinsert ..)
    · exact hinsert ..
  · exact hinsert ..
  · exact hinsert ..
  · exact hinsert ..
  · exact hinsert ..
  · rfl

theorem writeObservation_disabled (observation : Obs) {store : ObservationStore W}
    (h : store.isDisabled = true) : (writeObservation env observation store).2 = store := by
  unfold writeObservation
  split
  · rfl
  · dsimp only
    rw [ObservationStore.storeObservation, if_pos h]

theorem maybeGenerateImmediateObservation_disabled (report : ReportDefinition)
    (metric : MetricDefinition) (event : Event) {store : ObservationStore W}
    (h : store.isDisabled = true) :
    (env.eventLogger.maybeGenerateImmediateObservation report metric event store).2 = store := by
  unfold EventLogger.maybeGenerateImmediateObservation
  split
  · rfl
  · rfl
  · split
    · exact writeObservation_disabled _ h
    · rfl
    · rfl

/-- Logging to disabled stores does not change them. -/
theorem log_disabled (time : Timestamp) (metric : MetricDefinition) (event : Event)
    {s : Stores (ObservationStore W)} (h : StoresDisabled s) :
    (env.eventLogger.log time metric event s).2 = s := by
  unfold EventLogger.log
  split_ifs
  · rfl
  · refine (Loop.runAll_rel (R := fun s t => StoresDisabled s → t = s) (fun _ _ => rfl) ?_ ?_ s) h
    · intro s t u hst htu hs
      have heq := hst hs
      rw [htu (heq ▸ hs), heq]
    · rintro report - s ⟨haggregate, hobservation⟩
      unfold EventLogger.logReport
      dsimp only
      rw [maybeUpdateLocalAggregation_disabled _ _ _ haggregate]
      split_ifs
      · rfl
      · rw [maybeGenerateImmediateObservation_disabled _ _ _ hobservation]

theorem logAt_disabled (context : ProjectContext) (metricId : ℕ) (type : EventType) (now : ℤ)
    {s : Stores (ObservationStore W)} (h : StoresDisabled s) :
    (logAt env.eventLogger env.toTimestamp context metricId type now s).2 = s := by
  unfold logAt
  dsimp only
  split
  · exact log_disabled _ _ _ h
  · rfl
  · rfl

theorem flushSavedRecord_disabled (record : SavedEventRecord) (system monotonic : ℤ)
    {s : Stores (ObservationStore W)} (h : StoresDisabled s) :
    (flushSavedRecord env.eventLogger env.toTimestamp record system monotonic s).2 = s := by
  unfold flushSavedRecord
  dsimp only
  split
  · rfl
  · exact log_disabled _ _ _ h

/-- Loops whose bodies do not change disabled stores do not change them either. -/
theorem foldl_disabled {α : Type} {f : Stores (ObservationStore W) → α → Stores (ObservationStore W)}
    (hf : ∀ s a, StoresDisabled s → f s a = s) (l : List α) {s : Stores (ObservationStore W)}
    (h : StoresDisabled s) : l.foldl f s = s := by
  induction l with
  | nil => rfl
  | cons a l ih => rw [List.foldl_cons, hf s a h, ih]

/-- A flush to disabled stores does not change them. -/
theorem flush_disabled (system monotonic : ℤ) (now : ℕ → ℤ) (m : UndatedEventManager)
    {s : Stores (ObservationStore W)} (h : StoresDisabled s) :
    (m.flush env.eventLogger env.toTimestamp env.internalMetricIds env.internalLogger system monotonic
      now s).2.2 = s := by
  have hrecords : UndatedEventManager.flushRecords env.eventLogger env.toTimestamp m.savedRecords
      system monotonic s = s :=
    foldl_disabled (fun _ record hs => flushSavedRecord_disabled record system monotonic hs) _ h
  unfold UndatedEventManager.flush
  dsimp only
  rw [hrecords]
  split
  · rfl
  · exact foldl_disabled (fun _ event hs => logAt_disabled _ _ _ _ hs) _ h

/-! ### Two services -/

/-- The call logs an event. -/
def Call.IsLog : Call → Prop
  | .log .. => True
  | _ => False

/-- A saved record without the number of its call. -/
def eraseCall (record : SavedEventRecord) : SavedEventRecord := { record with call := 0 }

/-- A manager without the numbers of the calls. -/
def eraseCalls (m : UndatedEventManager) : UndatedEventManager :=
  { m with savedRecords := m.savedRecords.map eraseCall }

theorem eraseCalls_enqueue (record : SavedEventRecord) (m : UndatedEventManager) :
    eraseCalls (m.enqueue record) = (eraseCalls m).enqueue (eraseCall record) := by
  obtain ⟨maxSavedEvents, savedRecords, cached, dropped, flushed, system, monotonic⟩ := m
  unfold UndatedEventManager.enqueue eraseCalls
  cases savedRecords with
  | nil =>
    simp only [List.map_nil, List.length_nil]
    split_ifs <;> rfl
  | cons first records =>
    simp only [List.map_cons, List.length_cons, List.length_map]
    split_ifs
    · simp only [List.map_append, List.map_cons, List.map_nil]
      rfl
    · simp only [List.map_append, List.map_cons, List.map_nil]
      rfl

theorem flushed_enqueue (record : SavedEventRecord) (m : UndatedEventManager) :
    (m.enqueue record).flushed = m.flushed := by
  unfold UndatedEventManager.enqueue
  dsimp only
  split_ifs
  · split <;> rfl
  · rfl

/-- The queue after an event was saved has no other records than before and the new one. -/
theorem mem_enqueue {record record' : SavedEventRecord} {m : UndatedEventManager}
    (h : record' ∈ (m.enqueue record).savedRecords) : record' ∈ m.savedRecords ∨ record' = record := by
  unfold UndatedEventManager.enqueue at h
  dsimp only at h
  rcases List.mem_append.mp h with h | h
  · refine Or.inl ?_
    split_ifs at h
    · split at h
      next => exact h
      next hrecords =>
        rw [hrecords]
        exact List.mem_cons_of_mem _ h
    · exact h
  · exact Or.inr (List.mem_singleton.mp h)

/-- The `CHECK` of a flush is about the internal logger. -/
theorem flush_fst (system monotonic : ℤ) (now : ℕ → ℤ) (m : UndatedEventManager)
    (s : Stores (ObservationStore W)) :
    (m.flush env.eventLogger env.toTimestamp env.internalMetricIds env.internalLogger system monotonic
      now s).1 = env.internalLogger.isNone := by
  unfold UndatedEventManager.flush
  cases env.internalLogger <;> rfl

/-- A flush does not read the numbers of the calls. -/
theorem flush_eraseCalls (system monotonic : ℤ) (now : ℕ → ℤ) (m : UndatedEventManager)
    (s : Stores (ObservationStore W)) :
    (m.flush env.eventLogger env.toTimestamp env.internalMetricIds env.internalLogger system monotonic
      now s).2.2 =
      ((eraseCalls m).flush env.eventLogger env.toTimestamp env.internalMetricIds env.internalLogger
        system monotonic now s).2.2 := by
  have hrecords : UndatedEventManager.flushRecords env.eventLogger env.toTimestamp
      (m.savedRecords.map eraseCall) system monotonic s =
      UndatedEventManager.flushRecords env.eventLogger env.toTimestamp m.savedRecords system
        monotonic s := by
    unfold UndatedEventManager.flushRecords
    rw [List.foldl_map]
    rfl
  unfold UndatedEventManager.flush eraseCalls
  dsimp only
  rw [hrecords]

namespace CobaltService

/-- What holds of every service: the stores are disabled just under `DO_NOT_COLLECT`, the manager
was not flushed yet, and the recorded calls were made. -/
structure Inv (s : CobaltService W) : Prop where
  disabled : s.policy = .DO_NOT_COLLECT → StoresDisabled s.stores
  flushed : ∀ m, s.undatedEventManager = some m → m.flushed = false
  pending : ∀ i ∈ s.pending, i < s.calls
  withheld : ∀ i ∈ s.withheld, i < s.calls
  saved : ∀ i ∈ s.saved, i < s.calls

/-- Two services have the same data, under the same policy. If `precise`, their managers have saved
the same events. -/
structure Agree (precise : Prop) (s t : CobaltService W) : Prop where
  stores : s.stores = t.stores
  policy : s.policy = t.policy
  alive : s.alive = t.alive
  manager : s.undatedEventManager.isSome = t.undatedEventManager.isSome
  saved : precise → s.undatedEventManager.map eraseCalls = t.undatedEventManager.map eraseCalls

/-! ### What a call of `Logger::Log` does -/

/-- What becomes of a logged event. -/
inductive LogOutcome
  | rejected
  | dated (now : ℤ) (metric : MetricDefinition) (event : Event)
  | saved (metric : MetricDefinition) (event : Event)

/-- What becomes of an event depends on the call, and on whether there is a manager. -/
def logOutcome (context : ProjectContext) (metricId : ℕ) (type : EventType) (clocks : Clocks)
    (hasManager : Bool) : LogOutcome :=
  let record := EventRecord.new context metricId type
  match prepareAndValidateEvent type.metricType record, record.metric with
  | .kOK, some metric =>
    match clocks.now, hasManager with
    | some now, _ => .dated now metric record.event
    | none, true => .saved metric record.event
    | none, false =>
      match clocks.retry with
      | none => .rejected
      | some now => .dated now metric record.event
  | _, _ => .rejected

variable {s t : CobaltService W}

theorem log_cases (env : Environment Obs Enc W) (context : ProjectContext) (metricId : ℕ)
    (type : EventType) (clocks : Clocks) (h : s.Inv) :
    (logOutcome context metricId type clocks s.undatedEventManager.isSome = .rejected ∧
      (s.log env context metricId type clocks).2 = s) ∨
    (∃ now metric event,
      logOutcome context metricId type clocks s.undatedEventManager.isSome = .dated now metric event ∧
      (s.log env context metricId type clocks).2 =
        { s with stores := (env.eventLogger.log (env.toTimestamp now) metric event s.stores).2 }) ∨
    ∃ metric event m,
      logOutcome context metricId type clocks s.undatedEventManager.isSome = .saved metric event ∧
      s.undatedEventManager = some m ∧
      (s.log env context metricId type clocks).2 =
        { s with
          undatedEventManager := some (m.enqueue ⟨clocks.monotonic, metric, event, s.calls⟩)
          saved := s.saved ++ [s.calls] } := by
  unfold log logOutcome
  dsimp only
  generalize prepareAndValidateEvent type.metricType (EventRecord.new context metricId type) = status
  generalize (EventRecord.new context metricId type).metric = metric
  by_cases hvalid : status = .kOK ∧ metric.isSome
  · obtain ⟨rfl, hmetric⟩ := hvalid
    obtain ⟨metric, rfl⟩ := Option.isSome_iff_exists.mp hmetric
    cases hnow : clocks.now with
    | some now => exact Or.inr (Or.inl ⟨now, metric, _, rfl, rfl⟩)
    | none =>
      cases hm : s.undatedEventManager with
      | some m =>
        refine Or.inr (Or.inr ⟨metric, _, m, rfl, rfl, ?_⟩)
        simp only [UndatedEventManager.save, h.flushed m hm, Bool.false_eq_true, if_false]
      | none =>
        cases hretry : clocks.retry with
        | none => exact Or.inl ⟨rfl, rfl⟩
        | some now => exact Or.inr (Or.inl ⟨now, metric, _, rfl, rfl⟩)
  · refine Or.inl ?_
    cases status <;> cases metric <;> simp at hvalid ⊢

/-- The records of a step. -/
structure Recorded (s s' : CobaltService W) (call : Call) : Prop where
  calls : s'.calls = s.calls + 1
  saved : s.saved ⊆ s'.saved
  added : ∀ i ∈ s'.saved, i ∈ s.saved ∨ (i = s.calls ∧ s.undatedEventManager.isSome = true)
  withheld : ∀ i ∈ s'.withheld, i ∈ s.withheld ∨ i ∈ s.pending ∨
    (i = s.calls ∧ call.IsLog ∧ s.policy = .DO_NOT_COLLECT)
  pending : ∀ i ∈ s'.pending, i ∈ s.pending ∨ (i = s.calls ∧ call.IsLog ∧ i ∈ s'.saved)

theorem pending_of_some {m : UndatedEventManager} (h : s.undatedEventManager = some m) :
    s.pending = m.savedRecords.map (·.call) := by
  rw [CobaltService.pending, h]

theorem pending_of_none (h : s.undatedEventManager = none) : s.pending = [] := by
  rw [CobaltService.pending, h]

/-- A step that saves no event. -/
theorem Recorded.of_saved_eq {s' : CobaltService W} {call : Call} (hcalls : s'.calls = s.calls + 1)
    (hsaved : s'.saved = s.saved) (hpending : s'.pending ⊆ s.pending)
    (hwithheld : ∀ i ∈ s'.withheld, i ∈ s.withheld ∨ i ∈ s.pending ∨
      (i = s.calls ∧ call.IsLog ∧ s.policy = .DO_NOT_COLLECT)) : Recorded s s' call where
  calls := hcalls
  saved := hsaved ▸ List.Subset.refl _
  added _ hi := Or.inl (hsaved ▸ hi)
  withheld := hwithheld
  pending _ hi := Or.inl (hpending hi)

theorem Inv.recorded (h : s.Inv) (env : Environment Obs Enc W) (call : Call) :
    Recorded s (s.perform env call) call := by
  cases call with
  | setDataCollectionPolicy policy =>
    cases policy with
    | COLLECT_AND_UPLOAD =>
      exact .of_saved_eq rfl rfl (List.Subset.refl _) fun i hi => Or.inl hi
    | DO_NOT_UPLOAD =>
      exact .of_saved_eq rfl rfl (List.Subset.refl _) fun i hi => Or.inl hi
    | DO_NOT_COLLECT =>
      refine .of_saved_eq rfl rfl (List.Subset.refl _) fun i hi => ?_
      exact (List.mem_append.mp hi).imp id Or.inl
  | systemClockIsAccurate system monotonic now =>
    dsimp only [perform, systemClockIsAccurate]
    split
    · exact .of_saved_eq rfl rfl (List.Subset.refl _) fun i hi => Or.inl hi
    · exact .of_saved_eq rfl rfl (List.nil_subset _) fun i hi => Or.inl hi
  | newLogger context =>
    exact .of_saved_eq rfl rfl (List.Subset.refl _) fun i hi => Or.inl hi
  | log context metricId type clocks =>
    have hwithheld (i : ℕ) (hi : i ∈ if s.policy = .DO_NOT_COLLECT then s.withheld ++ [s.calls]
        else s.withheld) : i ∈ s.withheld ∨ i ∈ s.pending ∨
          (i = s.calls ∧ (Call.log context metricId type clocks).IsLog ∧
            s.policy = .DO_NOT_COLLECT) := by
      split_ifs at hi with hpolicy
      · rcases List.mem_append.mp hi with hi | hi
        · exact Or.inl hi
        · exact Or.inr (Or.inr ⟨List.mem_singleton.mp hi, trivial, hpolicy⟩)
      · exact Or.inl hi
    dsimp only [perform]
    rcases log_cases env context metricId type clocks h with
      ⟨-, heq⟩ | ⟨now, metric, event, -, heq⟩ | ⟨metric, event, m, -, hm, heq⟩
    · rw [heq]
      exact .of_saved_eq rfl rfl (List.Subset.refl _) hwithheld
    · rw [heq]
      exact .of_saved_eq rfl rfl (List.Subset.refl _) hwithheld
    · rw [heq]
      refine ⟨rfl, List.subset_append_left _ _, fun i hi => ?_, hwithheld, fun i hi => ?_⟩
      · rcases List.mem_append.mp hi with hi | hi
        · exact Or.inl hi
        · exact Or.inr ⟨List.mem_singleton.mp hi, by rw [hm]; rfl⟩
      obtain ⟨record, hrecord, rfl⟩ := List.mem_map.mp hi
      rcases mem_enqueue hrecord with hrecord | rfl
      · refine Or.inl ?_
        rw [pending_of_some hm]
        exact List.mem_map_of_mem hrecord
      · exact Or.inr ⟨rfl, trivial, List.mem_append_right _ (List.mem_singleton_self _)⟩

/-- A call keeps the invariant. -/
theorem Inv.perform (h : s.Inv) (env : Environment Obs Enc W) (call : Call) : (s.perform env call).Inv := by
  have hrecorded := h.recorded env call
  have hpending : ∀ i ∈ (s.perform env call).pending, i < (s.perform env call).calls := by
    intro i hi
    rw [hrecorded.calls]
    rcases hrecorded.pending i hi with hi | ⟨rfl, -⟩
    · exact Nat.lt_succ_of_lt (h.pending i hi)
    · exact Nat.lt_succ_self _
  have hwithheld : ∀ i ∈ (s.perform env call).withheld, i < (s.perform env call).calls := by
    intro i hi
    rw [hrecorded.calls]
    rcases hrecorded.withheld i hi with hi | hi | ⟨rfl, -⟩
    · exact Nat.lt_succ_of_lt (h.withheld i hi)
    · exact Nat.lt_succ_of_lt (h.pending i hi)
    · exact Nat.lt_succ_self _
  have hsaved : ∀ i ∈ (s.perform env call).saved, i < (s.perform env call).calls := by
    intro i hi
    rw [hrecorded.calls]
    rcases hrecorded.added i hi with hi | ⟨rfl, -⟩
    · exact Nat.lt_succ_of_lt (h.saved i hi)
    · exact Nat.lt_succ_self _
  refine ⟨?_, ?_, hpending, hwithheld, hsaved⟩
  · cases call with
    | setDataCollectionPolicy policy =>
      cases policy with
      | COLLECT_AND_UPLOAD => rintro ⟨⟩
      | DO_NOT_UPLOAD => rintro ⟨⟩
      | DO_NOT_COLLECT => exact fun _ => ⟨rfl, rfl⟩
    | systemClockIsAccurate system monotonic now =>
      dsimp only [CobaltService.perform, systemClockIsAccurate]
      split
      · exact h.disabled
      · intro hpolicy
        rw [flush_disabled _ _ _ _ (h.disabled hpolicy)]
        exact h.disabled hpolicy
    | newLogger context =>
      intro hpolicy
      obtain ⟨haggregate, hobservation⟩ := h.disabled hpolicy
      exact ⟨(isDisabled_updateAggregationConfigs context _).trans haggregate, hobservation⟩
    | log context metricId type clocks =>
      dsimp only [CobaltService.perform]
      rcases log_cases env context metricId type clocks h with
        ⟨-, heq⟩ | ⟨now, metric, event, -, heq⟩ | ⟨metric, event, m, -, hm, heq⟩
      · rw [heq]
        exact h.disabled
      · rw [heq]
        intro hpolicy
        rw [log_disabled _ _ _ (h.disabled hpolicy)]
        exact h.disabled hpolicy
      · rw [heq]
        exact h.disabled
  · cases call with
    | setDataCollectionPolicy policy => cases policy <;> exact h.flushed
    | systemClockIsAccurate system monotonic now =>
      dsimp only [CobaltService.perform, systemClockIsAccurate]
      split
      · exact h.flushed
      · simp
    | newLogger context => exact h.flushed
    | log context metricId type clocks =>
      dsimp only [CobaltService.perform]
      rcases log_cases env context metricId type clocks h with
        ⟨-, heq⟩ | ⟨now, metric, event, -, heq⟩ | ⟨metric, event, m, -, hm, heq⟩
      · rw [heq]
        exact h.flushed
      · rw [heq]
        exact h.flushed
      · rw [heq]
        rintro _ ⟨⟩
        rw [flushed_enqueue]
        exact h.flushed m hm

variable {precise : Prop}

theorem systemClockIsAccurate_of_none (h : s.undatedEventManager = none)
    (env : Environment Obs Enc W) (system monotonic : ℤ) (now : ℕ → ℤ) :
    s.systemClockIsAccurate env system monotonic now = s := by
  rw [systemClockIsAccurate, h]

theorem systemClockIsAccurate_of_some {m : UndatedEventManager}
    (h : s.undatedEventManager = some m) (env : Environment Obs Enc W) (system monotonic : ℤ)
    (now : ℕ → ℤ) :
    s.systemClockIsAccurate env system monotonic now =
      { s with
        alive := !env.internalLogger.isNone
        stores := (m.flush env.eventLogger env.toTimestamp env.internalMetricIds env.internalLogger
          system monotonic now s.stores).2.2
        undatedEventManager := none } := by
  simp only [systemClockIsAccurate, h, flush_fst]

/-- A flush of both services. When there is something to flush, the stores are disabled, or the
managers have saved the same events. -/
theorem Agree.systemClockIsAccurate (h : Agree precise s t) (hs : s.Inv) (system monotonic : ℤ)
    (now : ℕ → ℤ) (hflush : s.undatedEventManager.isSome = true →
      precise ∨ s.policy = .DO_NOT_COLLECT) :
    Agree precise (s.systemClockIsAccurate env system monotonic now)
      (t.systemClockIsAccurate env system monotonic now) := by
  cases hm : s.undatedEventManager with
  | none =>
    have hn : t.undatedEventManager = none := by
      rw [← Option.isNone_iff_eq_none, ← Option.not_isSome, ← h.manager, hm]
      rfl
    rw [systemClockIsAccurate_of_none hm, systemClockIsAccurate_of_none hn]
    exact h
  | some m =>
    obtain ⟨n, hn⟩ : ∃ n, t.undatedEventManager = some n :=
      Option.isSome_iff_exists.mp (by rw [← h.manager, hm]; rfl)
    rw [systemClockIsAccurate_of_some hm, systemClockIsAccurate_of_some hn]
    refine ⟨?_, h.policy, rfl, rfl, fun _ => rfl⟩
    dsimp only
    rcases hflush (by rw [hm]; rfl) with hprecise | hpolicy
    · have hsaved := h.saved hprecise
      rw [hm, hn] at hsaved
      rw [flush_eraseCalls, flush_eraseCalls _ _ _ n, h.stores, Option.some.inj hsaved]
    · have hdisabled := hs.disabled hpolicy
      rw [flush_disabled _ _ _ _ hdisabled, flush_disabled _ _ _ _ (h.stores ▸ hdisabled), h.stores]

/-- An event that is logged to both services. -/
theorem Agree.log (h : Agree precise s t) (hs : s.Inv) (ht : t.Inv) (context : ProjectContext)
    (metricId : ℕ) (type : EventType) (clocks : Clocks) :
    Agree precise (s.log env context metricId type clocks).2
      (t.log env context metricId type clocks).2 := by
  rcases log_cases env context metricId type clocks hs with
    ⟨hout, heq⟩ | ⟨now, metric, event, hout, heq⟩ | ⟨metric, event, m, hout, hm, heq⟩ <;>
  rcases log_cases env context metricId type clocks ht with
    ⟨hout', heq'⟩ | ⟨now', metric', event', hout', heq'⟩ | ⟨metric', event', n, hout', hn, heq'⟩ <;>
  rw [h.manager, hout'] at hout
  case inl.inl =>
    rw [heq, heq']
    exact h
  case inr.inl.inr.inl =>
    obtain ⟨rfl, rfl, rfl⟩ := LogOutcome.dated.inj hout
    rw [heq, heq']
    exact { h with stores := by rw [h.stores] }
  case inr.inr.inr.inr =>
    obtain ⟨rfl, rfl⟩ := LogOutcome.saved.inj hout
    rw [heq, heq']
    refine ⟨h.stores, h.policy, h.alive, rfl, fun hprecise => ?_⟩
    have hsaved := h.saved hprecise
    rw [hm, hn] at hsaved
    dsimp only [Option.map_some]
    rw [eraseCalls_enqueue, eraseCalls_enqueue, Option.some.inj hsaved]
    rfl
  all_goals cases hout

/-- A call that both services make. -/
theorem Agree.perform (h : Agree precise s t) (env : Environment Obs Enc W) (hs : s.Inv)
    (ht : t.Inv) (call : Call)
    (hflush : ∀ system monotonic now, call = .systemClockIsAccurate system monotonic now →
      s.undatedEventManager.isSome = true → precise ∨ s.policy = .DO_NOT_COLLECT) :
    Agree precise (s.perform env call) (t.perform env call) := by
  cases call with
  | setDataCollectionPolicy policy =>
    have hstores : (s.setDataCollectionPolicy env policy).stores =
        (t.setDataCollectionPolicy env policy).stores := by
      cases policy <;> simp only [setDataCollectionPolicy, h.stores]
    cases policy <;> exact { h with stores := hstores, policy := rfl }
  | systemClockIsAccurate system monotonic now =>
    exact { h.systemClockIsAccurate hs system monotonic now (hflush _ _ _ rfl) with }
  | newLogger context =>
    have hstores : (s.newLogger context).stores = (t.newLogger context).stores := by
      simp only [newLogger, h.stores]
    exact { h with stores := hstores }
  | log context metricId type clocks => exact { h.log hs ht context metricId type clocks with }

/-- A withheld event that only the first service gets. -/
theorem Agree.withheld (h : Agree precise s t) (hs : s.Inv) {context : ProjectContext} {metricId : ℕ}
    {type : EventType} {clocks : Clocks}
    (hwithheld : s.calls ∈ (s.perform env (.log context metricId type clocks)).pending ∨
      s.policy = .DO_NOT_COLLECT)
    (hprecise : precise → s.calls ∉ (s.perform env (.log context metricId type clocks)).saved) :
    Agree precise (s.perform env (.log context metricId type clocks)) t := by
  dsimp only [CobaltService.perform] at hwithheld hprecise ⊢
  rcases log_cases env context metricId type clocks hs with
    ⟨hout, heq⟩ | ⟨now, metric, event, hout, heq⟩ | ⟨metric, event, m, hout, hm, heq⟩
  · rw [heq]
    exact { h with }
  · rw [heq] at hwithheld ⊢
    rcases hwithheld with hpending | hpolicy
    · exact absurd (hs.pending _ hpending) (lt_irrefl _)
    · have hstores : (env.eventLogger.log (env.toTimestamp now) metric event s.stores).2 = s.stores :=
        log_disabled _ _ _ (hs.disabled hpolicy)
      exact { h with stores := hstores.trans h.stores }
  · rw [heq] at hprecise ⊢
    refine ⟨h.stores, h.policy, h.alive, ?_, fun hp => absurd ?_ (hprecise hp)⟩
    · rw [← h.manager, hm]
      rfl
    · exact List.mem_append_right _ (List.mem_singleton_self _)

/-! ### Runs -/

theorem step_eq_some {s' : CobaltService W} {call : Call} (h : s.step env call = some s') :
    s.alive = true ∧ s.perform env call = s' := by
  unfold step at h
  split_ifs at h with halive
  exact ⟨halive, Option.some.inj h⟩

/-- The events that are withheld after a run were so before it, or were pending, or are events of
the run. -/
theorem Inv.withheld_of_run {f : CobaltService W} {calls : List Call} (h : s.Inv)
    (hrun : s.run env calls = some f) {i : ℕ} (hi : i ∈ f.withheld) :
    i ∈ s.withheld ∨ i ∈ s.pending ∨ s.calls ≤ i := by
  induction calls generalizing s with
  | nil =>
    obtain rfl := Option.some.inj hrun
    exact Or.inl hi
  | cons call calls ih =>
    obtain ⟨s₁, hstep, hrun⟩ := Option.bind_eq_some_iff.mp hrun
    obtain ⟨-, rfl⟩ := step_eq_some hstep
    have hrecorded := h.recorded env call
    rcases ih (h.perform env call) hrun with hi | hi | hi
    · rcases hrecorded.withheld i hi with hi | hi | ⟨rfl, -⟩
      · exact Or.inl hi
      · exact Or.inr (Or.inl hi)
      · exact Or.inr (Or.inr le_rfl)
    · rcases hrecorded.pending i hi with hi | ⟨rfl, -⟩
      · exact Or.inr (Or.inl hi)
      · exact Or.inr (Or.inr le_rfl)
    · rw [hrecorded.calls] at hi
      exact Or.inr (Or.inr (Nat.le_of_succ_le hi))

/-- What was saved before a run was saved. -/
theorem Inv.saved_of_run {f : CobaltService W} {calls : List Call} (h : s.Inv)
    (hrun : s.run env calls = some f) : s.saved ⊆ f.saved := by
  induction calls generalizing s with
  | nil =>
    obtain rfl := Option.some.inj hrun
    exact List.Subset.refl _
  | cons call calls ih =>
    obtain ⟨s₁, hstep, hrun⟩ := Option.bind_eq_some_iff.mp hrun
    obtain ⟨-, rfl⟩ := step_eq_some hstep
    exact List.Subset.trans (h.recorded env call).saved (ih (h.perform env call) hrun)

end CobaltService

/-- The policy at the first flush among the calls. -/
def firstFlush (policy : DataCollectionPolicy) : List Call → Option DataCollectionPolicy
  | [] => none
  | .setDataCollectionPolicy policy' :: calls => firstFlush policy' calls
  | .systemClockIsAccurate .. :: _ => some policy
  | .newLogger _ :: calls => firstFlush policy calls
  | .log .. :: calls => firstFlush policy calls

/-- The calls of a run, numbered from `i`, other than those of withheld events. -/
def collectedFrom (withheld : List ℕ) : ℕ → List Call → List Call
  | _, [] => []
  | i, call :: calls =>
    if i ∈ withheld then collectedFrom withheld (i + 1) calls
    else call :: collectedFrom withheld (i + 1) calls

/-- No flush under a policy that collects data finds withheld events among those that were saved. -/
def CleanRun (env : Environment Obs Enc W) (s : CobaltService W) : List Call → Prop
  | [] => True
  | call :: calls =>
    (match call with
    | .systemClockIsAccurate .. => s.undatedEventManager.isSome = true →
        s.policy ≠ .DO_NOT_COLLECT → ∀ i ∈ s.saved, i ∉ s.withheld
    | _ => True) ∧ ∀ s' ∈ s.step env call, CleanRun env s' calls

namespace CobaltService

variable {s t f : CobaltService W} {calls : List Call} {precise : Prop}

/-- A call other than the first flush leaves the policy at the first flush as it is. -/
theorem firstFlush_perform (h : s.Inv) {call : Call} (calls : List Call)
    (hmanager : (s.perform env call).undatedEventManager.isSome = true) :
    s.undatedEventManager.isSome = true ∧
      firstFlush s.policy (call :: calls) = firstFlush (s.perform env call).policy calls := by
  cases call with
  | setDataCollectionPolicy policy => cases policy <;> exact ⟨hmanager, rfl⟩
  | systemClockIsAccurate system monotonic now =>
    dsimp only [perform] at hmanager
    cases hm : s.undatedEventManager with
    | none =>
      rw [systemClockIsAccurate_of_none hm, hm] at hmanager
      cases hmanager
    | some m =>
      rw [systemClockIsAccurate_of_some hm] at hmanager
      cases hmanager
  | newLogger context => exact ⟨hmanager, rfl⟩
  | log context metricId type clocks =>
    dsimp only [perform] at hmanager ⊢
    rcases log_cases env context metricId type clocks h with
      ⟨-, heq⟩ | ⟨now, metric, event, -, heq⟩ | ⟨metric, event, m, -, hm, heq⟩
    · rw [heq] at hmanager ⊢
      exact ⟨hmanager, rfl⟩
    · rw [heq] at hmanager ⊢
      exact ⟨hmanager, rfl⟩
    · rw [heq, hm]
      exact ⟨rfl, rfl⟩

/-- A run and the run without the withheld events. -/
theorem Agree.run (h : Agree precise s t) (hs : s.Inv) (ht : t.Inv)
    (hrun : s.run env calls = some f)
    (hflush : s.undatedEventManager.isSome = true →
      precise ∨ ∀ policy ∈ firstFlush s.policy calls, policy = .DO_NOT_COLLECT)
    (hprecise : precise → ∀ i ∈ f.saved, i ∉ f.withheld) :
    ∃ g, t.run env (collectedFrom f.withheld s.calls calls) = some g ∧ Agree precise f g := by
  induction calls generalizing s t with
  | nil =>
    obtain rfl := Option.some.inj hrun
    exact ⟨t, rfl, h⟩
  | cons call calls ih =>
    obtain ⟨s₁, hstep, hrun⟩ := Option.bind_eq_some_iff.mp hrun
    obtain ⟨halive, rfl⟩ := step_eq_some hstep
    have hrecorded := hs.recorded env call
    have hs₁ := hs.perform env call
    have hflush₁ (hmanager : (s.perform env call).undatedEventManager.isSome = true) :
        precise ∨ ∀ policy ∈ firstFlush (s.perform env call).policy calls,
          policy = .DO_NOT_COLLECT := by
      obtain ⟨hmanager, hfirst⟩ := firstFlush_perform hs calls hmanager
      rw [← hfirst]
      exact hflush hmanager
    rw [collectedFrom]
    split_ifs with hwithheld
    · -- a withheld event, of which the second run has no call
      have hlog : call.IsLog ∧
          (s.calls ∈ (s.perform env call).pending ∨ s.policy = .DO_NOT_COLLECT) := by
        rcases hs₁.withheld_of_run hrun hwithheld with hi | hi | hi
        · rcases hrecorded.withheld _ hi with hi | hi | ⟨-, hlog, hpolicy⟩
          · exact absurd (hs.withheld _ hi) (lt_irrefl _)
          · exact absurd (hs.pending _ hi) (lt_irrefl _)
          · exact ⟨hlog, Or.inr hpolicy⟩
        · rcases hrecorded.pending _ hi with hi' | ⟨-, hlog, -⟩
          · exact absurd (hs.pending _ hi') (lt_irrefl _)
          · exact ⟨hlog, Or.inl hi⟩
        · rw [hrecorded.calls] at hi
          exact absurd hi (Nat.not_succ_le_self _)
      have hsaved (hp : precise) : s.calls ∉ (s.perform env call).saved := fun hi =>
        hprecise hp _ (hs₁.saved_of_run hrun hi) hwithheld
      obtain ⟨hlog, hwhy⟩ := hlog
      cases call with
      | log context metricId type clocks =>
        have hagree := h.withheld hs hwhy hsaved
        exact hrecorded.calls ▸ ih hagree hs₁ ht hrun hflush₁
      | setDataCollectionPolicy | systemClockIsAccurate | newLogger => exact absurd hlog id
    · have hagree := h.perform env hs ht call (by
        rintro system monotonic now rfl hmanager
        exact (hflush hmanager).imp id fun hfirst => hfirst _ rfl)
      obtain ⟨g, hg, hfg⟩ := ih hagree hs₁ (ht.perform env call) hrun hflush₁
      refine ⟨g, ?_, hfg⟩
      rw [hrecorded.calls] at hg
      have hstep' : t.step env call = some (t.perform env call) := by
        rw [step, if_pos (h.alive ▸ halive)]
      rw [CobaltService.run, List.foldlM_cons, hstep']
      exact hg

/-- Without a manager no event is saved. -/
theorem Inv.saved_of_run_none (h : s.Inv) (hnone : s.undatedEventManager = none)
    (hrun : s.run env calls = some f) {i : ℕ} (hi : i ∈ f.saved) : i ∈ s.saved := by
  induction calls generalizing s with
  | nil =>
    obtain rfl := Option.some.inj hrun
    exact hi
  | cons call calls ih =>
    obtain ⟨s₁, hstep, hrun⟩ := Option.bind_eq_some_iff.mp hrun
    obtain ⟨-, rfl⟩ := step_eq_some hstep
    have hnone₁ : (s.perform env call).undatedEventManager = none := by
      by_contra hsome
      have hmanager := (firstFlush_perform h [] (Option.isSome_iff_ne_none.mpr hsome)).1
      rw [hnone] at hmanager
      cases hmanager
    rcases (h.recorded env call).added i (ih (h.perform env call) hnone₁ hrun) with hi | ⟨-, hsome⟩
    · exact hi
    · rw [hnone] at hsome
      cases hsome

/-- In a clean run the first flush is under `DO_NOT_COLLECT`, or no saved event is withheld. -/
theorem Inv.clean (h : s.Inv) (hmanager : s.undatedEventManager.isSome = true)
    (hclean : CleanRun env s calls) (hrun : s.run env calls = some f) :
    (∀ policy ∈ firstFlush s.policy calls, policy = .DO_NOT_COLLECT) ∨
      ∀ i ∈ f.saved, i ∉ f.withheld := by
  induction calls generalizing s with
  | nil => exact Or.inl (by simp [firstFlush])
  | cons call calls ih =>
    obtain ⟨s₁, hstep, hrun⟩ := Option.bind_eq_some_iff.mp hrun
    have hclean₁ := hclean.2 s₁ hstep
    obtain ⟨-, rfl⟩ := step_eq_some hstep
    have h₁ := h.perform env call
    cases call with
    | systemClockIsAccurate system monotonic now =>
      obtain ⟨m, hm⟩ := Option.isSome_iff_exists.mp hmanager
      have heq := systemClockIsAccurate_of_some hm env system monotonic now
      by_cases hpolicy : s.policy = .DO_NOT_COLLECT
      · refine Or.inl ?_
        rintro policy ⟨⟩
        exact hpolicy
      · refine Or.inr fun i hsaved hwithheld => ?_
        have hnone : (s.perform env (.systemClockIsAccurate system monotonic now)).undatedEventManager =
            none := by
          rw [CobaltService.perform, heq]
        have hi := h₁.saved_of_run_none hnone hrun hsaved
        rcases h₁.withheld_of_run hrun hwithheld with hi' | hi' | hi'
        · rw [CobaltService.perform, heq] at hi hi'
          exact hclean.1 hmanager hpolicy i hi hi'
        · rw [pending_of_none hnone] at hi'
          exact absurd hi' List.not_mem_nil
        · exact absurd (h₁.saved i hi) (not_lt.mpr hi')
    | setDataCollectionPolicy policy =>
      have hmanager₁ : (s.perform env (.setDataCollectionPolicy policy)).undatedEventManager.isSome =
          true := by
        cases policy <;> exact hmanager
      rw [(firstFlush_perform h calls hmanager₁).2]
      exact ih h₁ hmanager₁ hclean₁ hrun
    | newLogger context =>
      have hmanager₁ : (s.perform env (.newLogger context)).undatedEventManager.isSome = true := hmanager
      rw [(firstFlush_perform h calls hmanager₁).2]
      exact ih h₁ hmanager₁ hclean₁ hrun
    | log context metricId type clocks =>
      have hmanager₁ :
          (s.perform env (.log context metricId type clocks)).undatedEventManager.isSome = true := by
        dsimp only [CobaltService.perform]
        rcases log_cases env context metricId type clocks h with
          ⟨-, heq⟩ | ⟨now, metric, event, -, heq⟩ | ⟨metric, event, m, -, hm, heq⟩
        · rw [heq]
          exact hmanager
        · rw [heq]
          exact hmanager
        · rw [heq]
          rfl
      rw [(firstFlush_perform h calls hmanager₁).2]
      exact ih h₁ hmanager₁ hclean₁ hrun

theorem inv_new (aggregateStore : AggregateStore) (contents : W) (maxSavedEvents : ℕ) :
    (new aggregateStore contents maxSavedEvents).Inv where
  disabled := by rintro ⟨⟩
  flushed := by rintro _ ⟨⟩; rfl
  pending := by simp [CobaltService.pending, new]
  withheld := by simp [new]
  saved := by simp [new]

theorem Agree.refl (precise : Prop) (s : CobaltService W) : Agree precise s s := ⟨rfl, rfl, rfl, rfl, fun _ => rfl⟩

end CobaltService

/-- The calls of a run other than those of withheld events: events that were logged while the policy
was `DO_NOT_COLLECT` or were pending when it became so. -/
def collected (calls : List Call) (s : CobaltService W) : List Call :=
  collectedFrom s.withheld 0 calls

/-- A clean run leaves the same data as the run without the withheld events. -/
theorem stores_eq_collected {aggregateStore : AggregateStore} {contents : W} {maxSavedEvents : ℕ}
    {calls : List Call} {s : CobaltService W}
    (hclean : CleanRun env (.new aggregateStore contents maxSavedEvents) calls)
    (hrun : (CobaltService.new aggregateStore contents maxSavedEvents).run env calls = some s) :
    ∃ g, (CobaltService.new aggregateStore contents maxSavedEvents).run env (collected calls s) =
      some g ∧ s.stores = g.stores := by
  have hinv := CobaltService.inv_new aggregateStore contents maxSavedEvents
  rcases hinv.clean rfl hclean hrun with hfirst | hsaved
  · obtain ⟨g, hg, hagree⟩ := (CobaltService.Agree.refl False _).run hinv hinv hrun
      (fun _ => Or.inr hfirst) False.elim
    exact ⟨g, hg, hagree.stores⟩
  · obtain ⟨g, hg, hagree⟩ := (CobaltService.Agree.refl True _).run hinv hinv hrun
      (fun _ => Or.inl trivial) fun _ => hsaved
    exact ⟨g, hg, hagree.stores⟩

/-- **Withheld events do not influence the stored data.** Two clean runs that differ only in
withheld events leave the same aggregates and the same observations. -/
theorem stores_eq_of_collected_eq {aggregateStore : AggregateStore} {contents : W}
    {maxSavedEvents : ℕ} {calls₁ calls₂ : List Call} {s₁ s₂ : CobaltService W}
    (hclean₁ : CleanRun env (.new aggregateStore contents maxSavedEvents) calls₁)
    (hclean₂ : CleanRun env (.new aggregateStore contents maxSavedEvents) calls₂)
    (hrun₁ : (CobaltService.new aggregateStore contents maxSavedEvents).run env calls₁ = some s₁)
    (hrun₂ : (CobaltService.new aggregateStore contents maxSavedEvents).run env calls₂ = some s₂)
    (hcollected : collected calls₁ s₁ = collected calls₂ s₂) : s₁.stores = s₂.stores := by
  obtain ⟨g₁, hg₁, hstores₁⟩ := stores_eq_collected hclean₁ hrun₁
  obtain ⟨g₂, hg₂, hstores₂⟩ := stores_eq_collected hclean₂ hrun₂
  rw [hcollected, hg₂] at hg₁
  rw [hstores₁, hstores₂, Option.some.inj hg₁]

/-! ### Examples of runs -/

instance decidableCleanRun (env : Environment Obs Enc W) (s : CobaltService W) :
    (calls : List Call) → Decidable (CleanRun env s calls)
  | [] => isTrue trivial
  | call :: calls =>
    have (s' : CobaltService W) : Decidable (CleanRun env s' calls) := decidableCleanRun env s' calls
    match call with
    | .systemClockIsAccurate system monotonic now =>
      inferInstanceAs (Decidable ((s.undatedEventManager.isSome = true →
        s.policy ≠ .DO_NOT_COLLECT → ∀ i ∈ s.saved, i ∉ s.withheld) ∧
          ∀ s' ∈ s.step env (.systemClockIsAccurate system monotonic now), CleanRun env s' calls))
    | .setDataCollectionPolicy policy =>
      inferInstanceAs (Decidable (True ∧
        ∀ s' ∈ s.step env (.setDataCollectionPolicy policy), CleanRun env s' calls))
    | .newLogger context =>
      inferInstanceAs (Decidable (True ∧
        ∀ s' ∈ s.step env (.newLogger context), CleanRun env s' calls))
    | .log context metricId type clocks =>
      inferInstanceAs (Decidable (True ∧
        ∀ s' ∈ s.step env (.log context metricId type clocks), CleanRun env s' calls))

/-- A metric whose events are encoded at once. -/
def countMetric (project : Project) (id : ℕ) (metricDimensions : List MetricDimension) :
    MetricDefinition where
  customerId := project.customerId
  projectId := project.projectId
  id := id
  metricType := .EVENT_COUNT
  metricDimensions := metricDimensions
  reports := [{ id := 1, reportType := .EVENT_COMPONENT_OCCURRENCE_COUNT }]

/-- The project of a client, with one metric. -/
def clientProject : ProjectContext where
  project := ⟨1, 1⟩
  metrics := [countMetric ⟨1, 1⟩ 1 [{ maxEventCode := 5 }]]

/-- The internal project, with the metrics about the calls of loggers and about the clock. -/
def internalProject : ProjectContext where
  project := ⟨2, 1⟩
  metrics := [countMetric ⟨2, 1⟩ 1 [{ maxEventCode := 7 }], countMetric ⟨2, 1⟩ 2 [{ maxEventCode := 7 }],
    countMetric ⟨2, 1⟩ 3 [], countMetric ⟨2, 1⟩ 4 []]

/-- Observations are stored as what the encoder is asked for, in a list. -/
def listEnvironment : Environment EncodeRequest EncodeRequest (List EncodeRequest) where
  encode request := (.kOK, some request)
  encrypt := some
  storeObservation observation contents := (.kOk, contents ++ [observation])
  deleteData _ := []
  toTimestamp time :=
    ⟨(time / 86400000000).toNat, (time / 86400000000).toNat, (time / 3600000000).toNat,
      (time / 3600000000).toNat⟩
  releaseStage := none
  internalLogger := some internalProject
  internalMetricIds := ⟨1, 2, 3, 4⟩

/-- A new service with empty stores. -/
def newService : CobaltService (List EncodeRequest) :=
  .new
    { localAggregateStore := makeNewLocalAggregateStore
      emptyLocalAggregateStore := makeNewLocalAggregateStore
      obsHistory := makeNewObservationHistoryStore
      isDisabled := false
      backfillDays := 0
      backfillDays_le := Nat.zero_le _ } [] 10000

/-- The client logs an event, at the given time if the clock is accurate. -/
def clientLogs (now : Option ℤ) : List Call :=
  logMethod listEnvironment (fun _ => 2) false "customer/project" clientProject 1
    (.eventCountEvent [5] "" 0 1) fun _ => ⟨now, now, 0⟩

/-- The policy is not to collect data for a while; then the clock becomes accurate. -/
def policyRestored : List Call :=
  [.setDataCollectionPolicy .COLLECT_AND_UPLOAD, .systemClockIsAccurate 0 0 fun _ => 0]

/-- The withheld events and the number of the stored observations. -/
def summary (s : CobaltService (List EncodeRequest)) : List ℕ × ℕ :=
  (s.withheld, s.stores.observationStore.contents.length)

/-- Two runs that differ only in withheld events leave different data. -/
def Influences (calls₁ calls₂ : List Call) : Prop :=
  ∃ s₁ s₂, newService.run listEnvironment calls₁ = some s₁ ∧
    newService.run listEnvironment calls₂ = some s₂ ∧
    collected calls₁ s₁ = collected calls₂ s₂ ∧ s₁.stores ≠ s₂.stores

/-- Runs that differ in withheld events are told apart by the number of observations. -/
theorem influences_of_summary {calls₁ calls₂ : List Call} {withheld₁ withheld₂ : List ℕ} {n₁ n₂ : ℕ}
    (h₁ : (newService.run listEnvironment calls₁).map summary = some (withheld₁, n₁))
    (h₂ : (newService.run listEnvironment calls₂).map summary = some (withheld₂, n₂))
    (hcollected : collectedFrom withheld₁ 0 calls₁ = collectedFrom withheld₂ 0 calls₂)
    (hne : n₁ ≠ n₂) : Influences calls₁ calls₂ := by
  obtain ⟨s₁, hrun₁, hsummary₁⟩ := Option.map_eq_some_iff.mp h₁
  obtain ⟨s₂, hrun₂, hsummary₂⟩ := Option.map_eq_some_iff.mp h₂
  obtain ⟨hwithheld₁, hlength₁⟩ := Prod.mk.inj hsummary₁
  obtain ⟨hwithheld₂, hlength₂⟩ := Prod.mk.inj hsummary₂
  refine ⟨s₁, s₂, hrun₁, hrun₂, ?_, fun heq => hne ?_⟩
  · rw [collected, collected, hwithheld₁, hwithheld₂, hcollected]
  · rw [← hlength₁, ← hlength₂, heq]

/-- Withheld events that are stored. An event is logged while the policy is `DO_NOT_COLLECT`, or
is pending when it becomes so; without the event nothing is stored. -/
theorem stores_ne_flushed :
    Influences (.setDataCollectionPolicy .DO_NOT_COLLECT :: (clientLogs none ++ policyRestored))
        (.setDataCollectionPolicy .DO_NOT_COLLECT :: policyRestored) ∧
      Influences (clientLogs none ++ .setDataCollectionPolicy .DO_NOT_COLLECT :: policyRestored)
        (.setDataCollectionPolicy .DO_NOT_COLLECT :: policyRestored) := by
  have hquiet : (newService.run listEnvironment
      (.setDataCollectionPolicy .DO_NOT_COLLECT :: policyRestored)).map summary = some ([], 0) := by
    decide
  have hlogged : (newService.run listEnvironment (.setDataCollectionPolicy .DO_NOT_COLLECT ::
      (clientLogs none ++ policyRestored))).map summary = some ([1, 2, 3], 5) := by
    decide
  have hpending : (newService.run listEnvironment (clientLogs none ++
      .setDataCollectionPolicy .DO_NOT_COLLECT :: policyRestored)).map summary =
        some ([0, 1, 2], 5) := by
    decide
  exact ⟨influences_of_summary hlogged hquiet rfl (by decide),
    influences_of_summary hpending hquiet rfl (by decide)⟩

/-- The clock becomes accurate while the policy is not to collect data; afterwards an event is
collected. -/
def flushedWithheld : List Call :=
  [.systemClockIsAccurate 0 0 fun _ => 0, .setDataCollectionPolicy .COLLECT_AND_UPLOAD] ++
    clientLogs (some 86400000000)

theorem stores_eq_flushedWithheld :
    ∃ s₁ s₂, newService.run listEnvironment
        (.setDataCollectionPolicy .DO_NOT_COLLECT :: (clientLogs none ++ flushedWithheld)) = some s₁ ∧
      newService.run listEnvironment (.setDataCollectionPolicy .DO_NOT_COLLECT :: flushedWithheld) =
        some s₂ ∧
      s₁.stores.observationStore.contents.length = 3 ∧ s₁.stores = s₂.stores := by
  have hlogged : (newService.run listEnvironment (.setDataCollectionPolicy .DO_NOT_COLLECT ::
      (clientLogs none ++ flushedWithheld))).map summary = some ([1, 2, 3], 3) := by
    decide
  have hquiet : (newService.run listEnvironment
      (.setDataCollectionPolicy .DO_NOT_COLLECT :: flushedWithheld)).map summary = some ([], 3) := by
    decide
  obtain ⟨s₁, hrun₁, hsummary₁⟩ := Option.map_eq_some_iff.mp hlogged
  obtain ⟨s₂, hrun₂, hsummary₂⟩ := Option.map_eq_some_iff.mp hquiet
  obtain ⟨hwithheld₁, hlength₁⟩ := Prod.mk.inj hsummary₁
  obtain ⟨hwithheld₂, -⟩ := Prod.mk.inj hsummary₂
  have hcollected : collected (.setDataCollectionPolicy .DO_NOT_COLLECT ::
      (clientLogs none ++ flushedWithheld)) s₁ =
      collected (.setDataCollectionPolicy .DO_NOT_COLLECT :: flushedWithheld) s₂ := by
    rw [collected, collected, hwithheld₁, hwithheld₂]
    rfl
  exact ⟨s₁, s₂, hrun₁, hrun₂, hlength₁, stores_eq_of_collected_eq (by decide)
    (by decide) hrun₁ hrun₂ hcollected⟩

end Cobalt.Public
