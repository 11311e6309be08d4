import Cobalt.Logger.UndatedQueue
import Mathlib.Data.List.Count
import Mathlib.Logic.Function.Basic

/-!
# The clock becomes accurate

Any number of calls of `Logger::Log` are under way while `SystemClockIsAccurate` flushes the
`UndatedEventManager` and releases it. A call asks the validated clock for the time. If there is
none it locks its weak pointer to the manager and saves the event, and if the manager is gone it
asks the clock again. The steps of the calls and of the flush are interleaved; `Save` and the flush
exclude each other by the lock of the manager. The events that the flush logs about itself are
logged by calls of their own.

The validated clock reports a time from some point before `SystemClockIsAccurate` on. Before that
point each reading may have a time or not.

## Main definitions

* `Pc`: how far a call is.
* `System`, `Action`, `System.step`, `System.run`: the calls, the manager and the service.
* `System.Accounted`: every event is logged once, is in the queue, or was dropped and counted.

## Main results

* `System.Inv.step`: every step keeps the invariant.
* `accounted_of_clock`: every event is accounted for in every state of every run.
-/

namespace Cobalt.Logger

open LocalAggregation (ProjectContext)

/-! ### What `Save` drops -/

namespace UndatedEventManager

/-- The record that the next call of `Save` drops. -/
def oldest (m : UndatedEventManager) : List SavedEventRecord :=
  if m.maxSavedEvents ≤ m.savedRecords.length then m.savedRecords.head?.toList else []

/-- What `Save` does to the manager before the flush. -/
theorem enqueue_spec (record : SavedEventRecord) (m : UndatedEventManager) :
    m.savedRecords ++ [record] = m.oldest ++ (m.enqueue record).savedRecords ∧
      (m.enqueue record).flushed = m.flushed ∧
      (m.enqueue record).numEventsDropped =
        m.oldest.foldl (fun counts dropped => counts.increment dropped.id) m.numEventsDropped := by
  rw [enqueue, oldest]
  split_ifs
  · cases hrecords : m.savedRecords with
    | nil => simp [hrecords]
    | cons droppedRecord savedRecords => exact ⟨rfl, rfl, rfl⟩
  · exact ⟨rfl, rfl, rfl⟩

end UndatedEventManager

/-! ### The system -/

/-- How far a call of `Logger::Log` is. -/
inductive Pc
  | notCalled
  /-- The event is valid, and the clock is asked for the time. -/
  | validated (metric : MetricDefinition) (event : Event)
  /-- There is no time, and the weak pointer is locked. -/
  | undated (metric : MetricDefinition) (event : Event)
  /-- `Save` reads the monotonic clock. -/
  | managed (metric : MetricDefinition) (event : Event)
  /-- `Save` waits for the lock. -/
  | saving (record : SavedEventRecord)
  /-- The manager is gone, and the clock is asked again. -/
  | retrying (metric : MetricDefinition) (event : Event)
  /-- There is a time, and the event is passed to its event logger. -/
  | dated (metric : MetricDefinition) (event : Event) (now : ℤ)
  /-- The call returned after the event was logged or saved. -/
  | returned (status : Status)
  /-- The call returned because the event is not valid. -/
  | rejected (status : Status)
  /-- The call returned the error that there is no `UndatedEventManager`. -/
  | noManager
  deriving DecidableEq, Repr

/-- How far the call of `SystemClockIsAccurate` is. -/
inductive Phase
  | notCalled
  | flushing
  | flushed
  | released
  deriving DecidableEq, Repr

/-- The state of all calls. `holders` are the calls that hold a shared pointer to the manager
besides the service. The last three fields are a record: the calls whose events were passed to
`EventLogger::Log`, the saved events that were dropped, and the numbers of dropped events that the
flush has reported. -/
structure System (W : Type) where
  accurate : Bool := false
  phase : Phase := .notCalled
  manager : UndatedEventManager
  stores : Stores W
  holders : List ℕ := []
  pc : ℕ → Pc := fun _ => .notCalled
  handed : List ℕ := []
  dropped : List SavedEventRecord := []
  reported : EventCounts := []

/-- A step of one of the calls, numbered in some way, of the clock, or of
`SystemClockIsAccurate`. -/
inductive Action
  | call (i : ℕ) (context : ProjectContext) (metricId : ℕ) (type : EventType)
  | queryClock (i : ℕ) (now : Option ℤ)
  | lockManager (i : ℕ)
  | readMonotonicClock (i : ℕ) (now : ℤ)
  | save (i : ℕ)
  | retryClock (i : ℕ) (now : Option ℤ)
  | log (i : ℕ)
  | becomeAccurate
  | beginFlush (referenceSystemTime referenceMonotonicTime : ℤ)
  | flushNext
  | endFlush
  | release

namespace System

variable {Obs W : Type} (logger : EventLogger Obs W) (toTimestamp : ℤ → Timestamp)

/-- A call goes on. -/
def goTo (i : ℕ) (pc : Pc) (s : System W) : System W :=
  { s with pc := Function.update s.pc i pc }

/-- The event of a record is passed to its event logger, if there is one. -/
def handOver (record : SavedEventRecord) (s : System W) : System W :=
  { s with handed := if record.hasEventLogger then s.handed ++ [record.call] else s.handed }

/-- The clock reports a time once it is accurate. -/
def Reads (s : System W) (now : Option ℤ) : Prop := s.accurate → now.isSome

instance (s : System W) (now : Option ℤ) : Decidable (s.Reads now) :=
  inferInstanceAs (Decidable (s.accurate = true → now.isSome = true))

/-- `Logger::Log` up to the reading of the clock: the event is validated. The methods of the logger
call it with the metric type of the event, for which there is an event logger. -/
def validate (i : ℕ) (context : ProjectContext) (metricId : ℕ) (type : EventType) (s : System W) :
    System W :=
  let record := EventRecord.new context metricId type
  match prepareAndValidateEvent type.metricType record, record.metric with
  | .kOK, some metric => s.goTo i (.validated metric record.event)
  | .kOK, none => s.goTo i (.rejected .kInvalidArguments)
  | status, _ => s.goTo i (.rejected status)

/-- `Save`, under its lock. The shared pointer of the call is destroyed when it returns. -/
def save (i : ℕ) (record : SavedEventRecord) (s : System W) : System W :=
  let r := s.manager.save logger toTimestamp record s.stores
  let s' := { s with manager := r.2.1, stores := r.2.2, holders := s.holders.erase i }.goTo i
    (.returned r.1)
  if s.manager.flushed then s'.handOver record
  else { s' with dropped := s.dropped ++ s.manager.oldest }

/-- A step, `none` where it is not possible. -/
def step (s : System W) : Action → Option (System W)
  | .call i context metricId type =>
    if s.pc i = .notCalled ∧ type ≠ .typeNotSet then some (s.validate i context metricId type)
    else none
  | .queryClock i now =>
    match s.pc i with
    | .validated metric event =>
      if s.Reads now then
        some (s.goTo i (now.elim (.undated metric event) (.dated metric event)))
      else none
    | _ => none
  | .lockManager i =>
    match s.pc i with
    | .undated metric event =>
      if s.phase ≠ .released ∨ s.holders ≠ [] then
        some ({ s with holders := s.holders ++ [i] }.goTo i (.managed metric event))
      else some (s.goTo i (.retrying metric event))
    | _ => none
  | .readMonotonicClock i now =>
    match s.pc i with
    | .managed metric event => some (s.goTo i (.saving ⟨now, metric, event, i⟩))
    | _ => none
  | .save i =>
    match s.pc i with
    | .saving record =>
      if s.phase = .flushing then none else some (s.save logger toTimestamp i record)
    | _ => none
  | .retryClock i now =>
    match s.pc i with
    | .retrying metric event =>
      if s.Reads now then some (s.goTo i (now.elim .noManager (.dated metric event))) else none
    | _ => none
  | .log i =>
    match s.pc i with
    | .dated metric event now =>
      let r := logger.log (toTimestamp now) metric event s.stores
      some ({ s with stores := r.2, handed := s.handed ++ [i] }.goTo i (.returned r.1))
    | _ => none
  | .becomeAccurate => some { s with accurate := true }
  | .beginFlush referenceSystemTime referenceMonotonicTime =>
    if s.phase = .notCalled ∧ s.accurate then
      some { s with
        phase := .flushing
        manager := { s.manager with referenceSystemTime, referenceMonotonicTime } }
    else none
  | .flushNext =>
    match s.phase, s.manager.savedRecords with
    | .flushing, record :: savedRecords =>
      let r := flushSavedRecord logger toTimestamp record s.manager.referenceSystemTime
        s.manager.referenceMonotonicTime s.stores
      some ({ s with manager := { s.manager with savedRecords }, stores := r.2 }.handOver record)
    | _, _ => none
  | .endFlush =>
    match s.phase, s.manager.savedRecords with
    | .flushing, [] =>
      some { s with
        phase := .flushed
        manager := { s.manager with numEventsCached := [], numEventsDropped := [], flushed := true }
        reported := s.manager.numEventsDropped }
    | _, _ => none
  | .release => if s.phase = .flushed then some { s with phase := .released } else none

/-- The state after several steps. -/
def run (s : System W) (actions : List Action) : Option (System W) :=
  actions.foldlM (step logger toTimestamp) s

end System

/-! ### The invariant -/

/-- The call returned after the event was logged or saved. -/
def Pc.done : Pc → Bool
  | .returned _ => true
  | _ => false

/-- What is known of a call: there is an event logger for its event, the record is its own, and it
asks the clock again only when the clock is accurate. -/
def Pc.Ok (accurate : Bool) (i : ℕ) : Pc → Prop
  | .validated metric event | .undated metric event | .managed metric event =>
    SavedEventRecord.hasEventLogger ⟨0, metric, event, i⟩
  | .saving record => record.hasEventLogger ∧ record.call = i
  | .retrying _ _ => accurate
  | .noManager => False
  | _ => True

namespace System

variable {Obs W : Type} {logger : EventLogger Obs W} {toTimestamp : ℤ → Timestamp} {s s' : System W}

/-- The calls whose events were logged, are in the queue, or were dropped. -/
def places (s : System W) : List ℕ :=
  s.handed ++ s.manager.savedRecords.map SavedEventRecord.call ++
    s.dropped.map SavedEventRecord.call

/-- The numbers of dropped events: those that the manager has counted, or those that the flush has
reported. -/
def droppedCounts (s : System W) : EventCounts :=
  if s.manager.flushed then s.reported else s.manager.numEventsDropped

/-- What every step keeps. -/
structure Inv (s : System W) : Prop where
  pcs : ∀ i, (s.pc i).Ok s.accurate i
  places : ∀ i, s.places.count i = if (s.pc i).done then 1 else 0
  clock : s.phase ≠ .notCalled → s.accurate
  flushed : s.manager.flushed ↔ s.phase = .flushed ∨ s.phase = .released
  emptied : s.manager.flushed → s.manager.savedRecords = []
  loggers : ∀ record ∈ s.manager.savedRecords, record.hasEventLogger
  sorted : s.manager.numEventsDropped.Sorted
  counted : ∀ id, s.droppedCounts.get id = numEvents s.dropped id

theorem Inv.init (maxSavedEvents : ℕ) (stores : Stores W) :
    Inv ({ manager := { maxSavedEvents }, stores } : System W) where
  pcs _ := trivial
  places _ := rfl
  clock h := absurd rfl h
  flushed := by simp
  emptied := nofun
  loggers _ hmem := absurd hmem List.not_mem_nil
  sorted := List.Pairwise.nil
  counted _ := rfl

/-- A call goes on without returning. -/
theorem Inv.goTo (h : s.Inv) {i : ℕ} {pc : Pc} (hok : pc.Ok s.accurate i)
    (hdone : pc.done = (s.pc i).done) : (s.goTo i pc).Inv where
  pcs j := by
    by_cases hj : j = i
    · subst hj
      simpa [System.goTo] using hok
    · simpa [System.goTo, hj] using h.pcs j
  places j := by
    refine (h.places j).trans ?_
    by_cases hj : j = i
    · subst hj
      simp [System.goTo, hdone]
    · simp [System.goTo, hj]
  clock := h.clock
  flushed := h.flushed
  emptied := h.emptied
  loggers := h.loggers
  sorted := h.sorted
  counted := h.counted

/-- A call returns, and its event has got a place. -/
theorem places_returned (h : s.Inv) {i : ℕ} (hpc : (s.pc i).done = false) {l : List ℕ}
    (hl : l.Perm (s.places ++ [i])) (status : Status) (j : ℕ) :
    l.count j = if (Function.update s.pc i (.returned status) j).done then 1 else 0 := by
  rw [hl.count_eq, List.count_append, h.places j]
  by_cases hj : j = i
  · subst hj
    rw [hpc, Function.update_self, List.count_singleton_self]
    rfl
  · have hne : i ≠ j := fun heq => hj heq.symm
    simp [hj, hne]

theorem ok_returned (h : s.Inv) (i : ℕ) (status : Status) (j : ℕ) :
    (Function.update s.pc i (.returned status) j).Ok s.accurate j := by
  by_cases hj : j = i
  · subst hj
    rw [Function.update_self]
    trivial
  · rw [Function.update_of_ne hj]
    exact h.pcs j

/-! ### The steps of a call -/

/-- An event that is valid for its metric has an event logger. -/
theorem hasEventLogger_of_valid {type : EventType} (htype : type ≠ .typeNotSet)
    {record : EventRecord} (h : prepareAndValidateEvent type.metricType record = .kOK)
    {metric : MetricDefinition} (hmetric : record.metric = some metric) (event : Event) (i : ℕ) :
    SavedEventRecord.hasEventLogger ⟨0, metric, event, i⟩ := by
  rw [prepareAndValidateEvent, hmetric] at h
  dsimp only at h
  split_ifs at h with hne
  have hmetricType : metric.metricType = type.metricType := not_not.mp hne
  rw [SavedEventRecord.hasEventLogger]
  dsimp only
  rw [hmetricType]
  cases type with
  | typeNotSet => exact absurd rfl htype
  | _ => rfl

theorem Inv.validate (h : s.Inv) {i : ℕ} (hpc : s.pc i = .notCalled) (context : ProjectContext)
    (metricId : ℕ) {type : EventType} (htype : type ≠ .typeNotSet) :
    (s.validate i context metricId type).Inv := by
  have hdone : (s.pc i).done = false := by rw [hpc]; rfl
  simp only [System.validate]
  split
  · next metric hvalid hmetric =>
    exact h.goTo (hasEventLogger_of_valid htype hvalid hmetric _ i) hdone.symm
  · exact h.goTo trivial hdone.symm
  · exact h.goTo trivial hdone.symm

/-- The numbers of the dropped events after one more call of `Save`. -/
theorem get_foldl_increment {counts : EventCounts} (h : counts.Sorted)
    (records : List SavedEventRecord) :
    (records.foldl (fun counts record => counts.increment record.id) counts).Sorted ∧
      ∀ id, (records.foldl (fun counts record => counts.increment record.id) counts).get id =
        counts.get id + numEvents records id := by
  induction records generalizing counts with
  | nil => exact ⟨h, fun _ => rfl⟩
  | cons record records ih =>
    obtain ⟨hsorted, hget⟩ := ih (h.increment record.id)
    refine ⟨hsorted, fun id => (hget id).trans ?_⟩
    rw [EventCounts.get_increment h, numEvents, numEvents, List.countP_cons]
    simp only [decide_eq_true_eq, eq_comm (a := id)]
    omega

/-- `Save` before the flush: the event is in the queue, and the oldest one may be dropped. -/
theorem Inv.save_unflushed (h : s.Inv) {i : ℕ} {record : SavedEventRecord}
    (hpc : s.pc i = .saving record) (hflushed : s.manager.flushed = false) :
    (s.save logger toTimestamp i record).Inv := by
  obtain ⟨hlogger, hcall⟩ : record.hasEventLogger ∧ record.call = i := by
    have hok := h.pcs i
    rwa [hpc] at hok
  have hdone : (s.pc i).done = false := by rw [hpc]; rfl
  obtain ⟨hqueue, hflushed', hdropped⟩ := s.manager.enqueue_spec record
  rw [hflushed] at hflushed'
  obtain ⟨hsorted, hget⟩ := get_foldl_increment h.sorted s.manager.oldest
  have hmem : ∀ r ∈ (s.manager.enqueue record).savedRecords, r.hasEventLogger := by
    intro r hr
    have hr : r ∈ s.manager.savedRecords ++ [record] := by
      rw [hqueue]
      exact List.mem_append_right _ hr
    rcases List.mem_append.mp hr with hr | hr
    · exact h.loggers r hr
    · rwa [List.mem_singleton.mp hr]
  have hplaces : (s.handed ++ (s.manager.enqueue record).savedRecords.map SavedEventRecord.call ++
      (s.dropped ++ s.manager.oldest).map SavedEventRecord.call).Perm (s.places ++ [i]) := by
    have hcalls := congrArg (List.map SavedEventRecord.call) hqueue
    simp only [List.map_append, List.map_singleton, hcall] at hcalls
    refine List.perm_iff_count.mpr fun j => ?_
    have hcount := congrArg (List.count j) hcalls
    simp only [System.places, List.map_append, List.count_append] at hcount ⊢
    omega
  have hsave : s.manager.save logger toTimestamp record s.stores =
      (.kOK, s.manager.enqueue record, s.stores) := by
    rw [UndatedEventManager.save, hflushed]
    rfl
  simp only [System.save, hsave, hflushed, Bool.false_eq_true, if_false]
  refine ⟨ok_returned h i .kOK, places_returned h hdone hplaces .kOK, h.clock, ?_, ?_, hmem, ?_, ?_⟩
  · have hiff := h.flushed
    rw [hflushed, ← hflushed'] at hiff
    exact hiff
  · intro hflag
    exact absurd (hflushed'.symm.trans hflag) Bool.false_ne_true
  · exact hdropped ▸ hsorted
  · intro id
    have hid := h.counted id
    simp only [droppedCounts, hflushed, Bool.false_eq_true, if_false] at hid
    simp only [droppedCounts, System.goTo, hflushed', Bool.false_eq_true, if_false, hdropped, hget,
      hid, numEvents, List.countP_append]

/-- `Save` after the flush: the event is logged. -/
theorem Inv.save_flushed (h : s.Inv) {i : ℕ} {record : SavedEventRecord}
    (hpc : s.pc i = .saving record) (hflushed : s.manager.flushed = true) :
    (s.save logger toTimestamp i record).Inv := by
  obtain ⟨hlogger, hcall⟩ : record.hasEventLogger ∧ record.call = i := by
    have hok := h.pcs i
    rwa [hpc] at hok
  have hdone : (s.pc i).done = false := by rw [hpc]; rfl
  have hmanager : (s.manager.save logger toTimestamp record s.stores).2.1 = s.manager := by
    rw [UndatedEventManager.save, hflushed]
    rfl
  simp only [System.save, hmanager, hflushed, if_true, System.handOver, hlogger]
  generalize s.manager.save logger toTimestamp record s.stores = r
  refine ⟨ok_returned h i _, places_returned h hdone ?_ _, h.clock, h.flushed, h.emptied, h.loggers,
    h.sorted, h.counted⟩
  refine List.perm_iff_count.mpr fun j => ?_
  simp only [System.places, System.goTo, hcall, List.count_append]
  omega

/-- `EventLogger::Log` is called with the time of the clock. -/
theorem Inv.log (h : s.Inv) {i : ℕ} (hdone : (s.pc i).done = false) (status : Status)
    (stores : Stores W) :
    Inv ({ s with stores := stores, handed := s.handed ++ [i] }.goTo i (.returned status)) := by
  refine ⟨ok_returned h i status, places_returned h hdone ?_ status, h.clock, h.flushed, h.emptied,
    h.loggers, h.sorted, h.counted⟩
  refine List.perm_iff_count.mpr fun j => ?_
  simp only [System.places, System.goTo, List.count_append]
  omega

/-! ### The steps of the flush -/

theorem Inv.becomeAccurate (h : s.Inv) : Inv { s with accurate := true } where
  pcs i := by
    have hok := h.pcs i
    dsimp only
    cases hpc : s.pc i <;> rw [hpc] at hok <;> first | exact hok | rfl
  places := h.places
  clock _ := rfl
  flushed := h.flushed
  emptied := h.emptied
  loggers := h.loggers
  sorted := h.sorted
  counted := h.counted

/-- The flush passes on the event at the front of the queue. -/
theorem Inv.flushNext (h : s.Inv) {record : SavedEventRecord} {savedRecords : List SavedEventRecord}
    (hrecords : s.manager.savedRecords = record :: savedRecords) (stores : Stores W) :
    Inv ({ s with manager := { s.manager with savedRecords }, stores }.handOver record) := by
  have hlogger := h.loggers record (hrecords ▸ List.mem_cons_self)
  have hflushed : s.manager.flushed = false := by
    rw [← Bool.not_eq_true]
    intro hflag
    exact absurd (hrecords.symm.trans (h.emptied hflag)) (List.cons_ne_nil _ _)
  rw [System.handOver, if_pos hlogger]
  refine ⟨h.pcs, fun i => ?_, h.clock, h.flushed, fun hflag => ?_, fun r hr => ?_, h.sorted,
    h.counted⟩
  · rw [← h.places i, System.places, System.places, hrecords]
    simp only [List.count_append, List.map_cons, List.count_cons, List.count_nil]
    omega
  · exact absurd (hflushed.symm.trans hflag) Bool.false_ne_true
  · exact h.loggers r (hrecords ▸ List.mem_cons_of_mem record hr)

/-- The flush ends, with an empty queue, and reports the counts. -/
theorem Inv.endFlush (h : s.Inv) (hphase : s.phase = .flushing)
    (hrecords : s.manager.savedRecords = []) :
    Inv { s with
      phase := .flushed
      manager := { s.manager with numEventsCached := [], numEventsDropped := [], flushed := true }
      reported := s.manager.numEventsDropped } := by
  have hflushed : s.manager.flushed = false := by
    rw [← Bool.not_eq_true, h.flushed, hphase]
    simp
  refine ⟨h.pcs, h.places, fun _ => h.clock (by rw [hphase]; exact nofun), ?_, fun _ => hrecords,
    h.loggers, List.Pairwise.nil, fun id => ?_⟩
  · simp
  · have hid := h.counted id
    rw [droppedCounts, hflushed] at hid
    exact hid

/-- Every step keeps the invariant. -/
theorem Inv.step (h : s.Inv) {action : Action} (hstep : s.step logger toTimestamp action = some s') :
    s'.Inv := by
  cases action with
  | call i context metricId type =>
    obtain ⟨⟨hpc, htype⟩, heq⟩ := Option.ite_none_right_eq_some.mp hstep
    obtain rfl := Option.some.inj heq
    exact h.validate hpc context metricId htype
  | queryClock i now =>
    simp only [System.step] at hstep
    split at hstep
    · next metric event hpc =>
      obtain ⟨_, heq⟩ := Option.ite_none_right_eq_some.mp hstep
      obtain rfl := Option.some.inj heq
      have hok := h.pcs i
      have hdone : (s.pc i).done = false := by rw [hpc]; rfl
      rw [hpc] at hok
      cases now with
      | none => exact h.goTo hok hdone.symm
      | some t => exact h.goTo trivial hdone.symm
    · exact absurd hstep nofun
  | lockManager i =>
    simp only [System.step] at hstep
    split at hstep
    · next metric event hpc =>
      have hok := h.pcs i
      have hdone : (s.pc i).done = false := by rw [hpc]; rfl
      rw [hpc] at hok
      split_ifs at hstep with halive
      · obtain rfl := Option.some.inj hstep
        have hholders : Inv { s with holders := s.holders ++ [i] } := { h with }
        exact hholders.goTo hok hdone.symm
      · -- The manager is gone only after the service has released it.
        obtain rfl := Option.some.inj hstep
        have hphase : s.phase = .released := not_not.mp (not_or.mp halive).1
        exact h.goTo (h.clock (by rw [hphase]; exact nofun)) hdone.symm
    · exact absurd hstep nofun
  | readMonotonicClock i now =>
    simp only [System.step] at hstep
    split at hstep
    · next metric event hpc =>
      obtain rfl := Option.some.inj hstep
      have hok := h.pcs i
      have hdone : (s.pc i).done = false := by rw [hpc]; rfl
      rw [hpc] at hok
      exact h.goTo ⟨hok, rfl⟩ hdone.symm
    · exact absurd hstep nofun
  | save i =>
    simp only [System.step] at hstep
    split at hstep
    · next record hpc =>
      obtain ⟨_, heq⟩ := Option.ite_none_left_eq_some.mp hstep
      obtain rfl := Option.some.inj heq
      cases hflushed : s.manager.flushed with
      | false => exact h.save_unflushed hpc hflushed
      | true => exact h.save_flushed hpc hflushed
    · exact absurd hstep nofun
  | retryClock i now =>
    simp only [System.step] at hstep
    split at hstep
    · next metric event hpc =>
      obtain ⟨hreads, heq⟩ := Option.ite_none_right_eq_some.mp hstep
      obtain rfl := Option.some.inj heq
      have hok := h.pcs i
      have hdone : (s.pc i).done = false := by rw [hpc]; rfl
      rw [hpc] at hok
      obtain ⟨t, rfl⟩ := Option.isSome_iff_exists.mp (hreads hok)
      exact h.goTo trivial hdone.symm
    · exact absurd hstep nofun
  | log i =>
    simp only [System.step] at hstep
    split at hstep
    · next metric event now hpc =>
      obtain rfl := Option.some.inj hstep
      exact h.log (by rw [hpc]; rfl) _ _
    · exact absurd hstep nofun
  | becomeAccurate =>
    obtain rfl := Option.some.inj hstep
    exact h.becomeAccurate
  | beginFlush referenceSystemTime referenceMonotonicTime =>
    obtain ⟨⟨hphase, haccurate⟩, heq⟩ := Option.ite_none_right_eq_some.mp hstep
    obtain rfl := Option.some.inj heq
    have hiff := h.flushed
    rw [hphase] at hiff
    exact { h with clock := fun _ => haccurate, flushed := by simpa using hiff }
  | flushNext =>
    simp only [System.step] at hstep
    split at hstep
    · next record savedRecords _ hrecords =>
      obtain rfl := Option.some.inj hstep
      exact h.flushNext hrecords _
    · exact absurd hstep nofun
  | endFlush =>
    simp only [System.step] at hstep
    split at hstep
    · next hphase hrecords =>
      obtain rfl := Option.some.inj hstep
      exact h.endFlush hphase hrecords
    · exact absurd hstep nofun
  | release =>
    obtain ⟨hphase, heq⟩ := Option.ite_none_right_eq_some.mp hstep
    obtain rfl := Option.some.inj heq
    have hiff := h.flushed
    rw [hphase] at hiff
    refine { h with clock := fun _ => h.clock (by rw [hphase]; exact nofun), flushed := ?_ }
    simpa using hiff

theorem Inv.run (h : s.Inv) {actions : List Action}
    (hrun : s.run logger toTimestamp actions = some s') : s'.Inv := by
  induction actions generalizing s with
  | nil => exact Option.some.inj hrun ▸ h
  | cons action actions ih =>
    obtain ⟨s₁, hstep, hrest⟩ := Option.bind_eq_some_iff.mp hrun
    exact ih (h.step hstep) hrest

end System

/-! ### Every event is accounted for -/

/-- The call of `Logger::Log` that takes a step. -/
def Action.caller : Action → Option ℕ
  | .call i _ _ _ | .queryClock i _ | .lockManager i | .readMonotonicClock i _ | .save i
  | .retryClock i _ | .log i => some i
  | _ => none

/-- The event is valid, and the call has not returned. -/
def Pc.UnderWay : Pc → Prop
  | .notCalled | .returned _ | .rejected _ | .noManager => False
  | _ => True

namespace System

variable {Obs W : Type} {logger : EventLogger Obs W} {toTimestamp : ℤ → Timestamp} {s : System W}

/-- The calls whose events are in the queue. -/
def pending (s : System W) : List ℕ := s.manager.savedRecords.map SavedEventRecord.call

/-- The calls whose events were dropped. -/
def evicted (s : System W) : List ℕ := s.dropped.map SavedEventRecord.call

/-- Every event is accounted for. -/
structure Accounted (logger : EventLogger Obs W) (toTimestamp : ℤ → Timestamp) (s : System W) :
    Prop where
  /-- When the flush is over and a call with a valid event has returned, its event was logged exactly
  once and not dropped, or it was dropped from the queue and never logged. -/
  logged : ∀ i status, s.pc i = .returned status → s.phase = .flushed ∨ s.phase = .released →
    s.handed.count i = 1 ∧ i ∉ s.evicted ∨ i ∉ s.handed ∧ s.evicted.count i = 1
  /-- Before that the event may also be in the queue. -/
  pending : ∀ i status, s.pc i = .returned status →
    s.handed.count i + s.pending.count i + s.evicted.count i = 1
  /-- The event of a call that is under way was not logged yet and is nowhere else, and neither is one
  that is not valid. -/
  unlogged : ∀ i, (∀ status, s.pc i ≠ .returned status) →
    i ∉ s.handed ∧ i ∉ s.pending ∧ i ∉ s.evicted
  /-- The dropped events of each project are counted, and the flush reports the counts. -/
  counted : ∀ id, s.droppedCounts.get id = numEvents s.dropped id
  /-- No call returns the error that there is no `UndatedEventManager`. -/
  managed : ∀ i, s.pc i ≠ .noManager
  /-- A call that is under way can go on, or waits for the flush, which can go on. -/
  progress : ∀ i, (s.pc i).UnderWay → ∃ action, (s.step logger toTimestamp action).isSome ∧
    (action.caller = some i ∨ s.phase = .flushing ∧ action.caller = none)

theorem count_places (s : System W) (i : ℕ) :
    s.places.count i = s.handed.count i + s.pending.count i + s.evicted.count i := by
  rw [places, List.count_append, List.count_append]
  rfl

/-- A call that is under way, or the flush that it waits for, can go on. -/
theorem exists_step (logger : EventLogger Obs W) (toTimestamp : ℤ → Timestamp) (s : System W) (i : ℕ)
    (h : (s.pc i).UnderWay) : ∃ action, (s.step logger toTimestamp action).isSome ∧
      (action.caller = some i ∨ s.phase = .flushing ∧ action.caller = none) := by
  have hreads : s.Reads (some 0) := fun _ => rfl
  cases hpc : s.pc i with
  | validated metric event =>
    exact ⟨.queryClock i (some 0), by simp [step, hpc, hreads], Or.inl rfl⟩
  | undated metric event =>
    refine ⟨.lockManager i, ?_, Or.inl rfl⟩
    simp only [step, hpc]
    split_ifs <;> rfl
  | managed metric event => exact ⟨.readMonotonicClock i 0, by simp [step, hpc], Or.inl rfl⟩
  | saving record =>
    by_cases hphase : s.phase = .flushing
    · cases hrecords : s.manager.savedRecords with
      | nil => exact ⟨.endFlush, by simp [step, hphase, hrecords], Or.inr ⟨hphase, rfl⟩⟩
      | cons record savedRecords =>
        exact ⟨.flushNext, by simp [step, hphase, hrecords], Or.inr ⟨hphase, rfl⟩⟩
    · exact ⟨.save i, by simp [step, hpc, hphase], Or.inl rfl⟩
  | retrying metric event =>
    exact ⟨.retryClock i (some 0), by simp [step, hpc, hreads], Or.inl rfl⟩
  | dated metric event now => exact ⟨.log i, by simp [step, hpc], Or.inl rfl⟩
  | notCalled | returned | rejected | noManager =>
    rw [hpc] at h
    exact absurd h id

theorem Inv.accounted (h : s.Inv) : s.Accounted logger toTimestamp := by
  have hreturned : ∀ i status, s.pc i = .returned status →
      s.handed.count i + s.pending.count i + s.evicted.count i = 1 := by
    intro i status hpc
    rw [← count_places, h.places i, hpc]
    rfl
  refine ⟨fun i status hpc hphase => ?_, hreturned, fun i hpc => ?_, h.counted, fun i hpc => ?_,
    exists_step logger toTimestamp s⟩
  · have hcount := hreturned i status hpc
    have hpending : s.pending = [] := congrArg _ (h.emptied (h.flushed.mpr hphase))
    rw [hpending, List.count_nil] at hcount
    rw [← List.count_eq_zero, ← List.count_eq_zero]
    omega
  · have hdone : (s.pc i).done = false := by
      cases hi : s.pc i with
      | returned status => exact absurd hi (hpc status)
      | _ => rfl
    have hcount := h.places i
    rw [count_places, hdone] at hcount
    simp only [Bool.false_eq_true, if_false] at hcount
    rw [← List.count_eq_zero, ← List.count_eq_zero, ← List.count_eq_zero]
    omega
  · have hok := h.pcs i
    rw [hpc] at hok
    exact hok

end System

/-- **No event is lost or logged twice.** In every state of every run from a new service, every
event is accounted for. -/
theorem accounted_of_clock {Obs W : Type} {logger : EventLogger Obs W} {toTimestamp : ℤ → Timestamp}
    {maxSavedEvents : ℕ} {stores : Stores W} {actions : List Action} {s : System W}
    (hrun : System.run logger toTimestamp { manager := { maxSavedEvents }, stores } actions = some s) :
    s.Accounted logger toTimestamp :=
  ((System.Inv.init maxSavedEvents stores).run hrun).accounted

/-- A project with one metric. -/
def countContext : ProjectContext where
  project := ⟨1, 1⟩
  metrics := [(savedCount 1 0 0).metric]

/-- A call finds no time, and locks the manager. -/
def undatedCall (i : ℕ) : List Action :=
  [.call i countContext 1 (.eventCountEvent [] "" 0 1), .queryClock i none, .lockManager i]

/-- The first event is dropped for the second one, which the flush logs. The third one is saved
after the flush, and the fourth one finds that the manager is gone. -/
theorem accounted_of_clock_fourCalls :
    let actions := undatedCall 0 ++ [.readMonotonicClock 0 5, .save 0] ++
      undatedCall 1 ++ [.readMonotonicClock 1 6, .save 1] ++ undatedCall 2 ++
      [.call 3 countContext 1 (.eventCountEvent [] "" 0 1), .queryClock 3 none, .becomeAccurate,
        .beginFlush 100 9, .flushNext, .endFlush, .readMonotonicClock 2 7, .release, .save 2,
        .lockManager 3, .retryClock 3 (some 101), .log 3]
    ∃ s, System.run countingLogger (fun _ => ⟨0, 0, 0, 0⟩)
        { manager := { maxSavedEvents := 1 }, stores := newStores } actions = some s ∧
      s.handed = [1, 2, 3] ∧ s.evicted = [0] ∧ s.reported = [((1, 1), 1)] ∧
      s.Accounted countingLogger fun _ => ⟨0, 0, 0, 0⟩ := by
  intro actions
  have hrun : (System.run countingLogger (fun _ => ⟨0, 0, 0, 0⟩)
      { manager := { maxSavedEvents := 1 }, stores := newStores } actions).map
        (fun s => (s.handed, s.evicted, s.reported)) = some ([1, 2, 3], [0], [((1, 1), 1)]) := by
    decide +kernel
  obtain ⟨s, hs, hrecord⟩ := Option.map_eq_some_iff.mp hrun
  obtain ⟨hhanded, hrest⟩ := Prod.mk.inj hrecord
  obtain ⟨hevicted, hreported⟩ := Prod.mk.inj hrest
  exact ⟨s, hs, hhanded, hevicted, hreported, accounted_of_clock hs⟩

end Cobalt.Logger
