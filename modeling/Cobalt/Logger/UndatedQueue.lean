import Cobalt.Logger.UndatedEventManager
import Mathlib.Data.List.Pairwise

/-!
# The queue of undated events

Until the flush, the `UndatedEventManager` keeps the last events that were saved and counts, for
each project, the events that were saved and those that were dropped to make room. A drop is counted
for the project of the dropped event, which is not that of the event that takes its place. The flush
passes every event in the queue to its event logger, dated by the distance of its monotonic time
from that of the flush, and so does `Save` from then on.

## Main definitions

* `EventCounts.get`: the number of events that are counted for a project.
* `Handed`: a call of `EventLogger::Log`.
* `saveAll`: several calls of `Save`.

## Main results

* `enqueueAll_spec`: the queue holds the last events, and the counts of a project differ by the number
  of its events in the queue.
* `flushRecords_eq_handAll`: the flush is one call of an event logger for each event, in order.
* `save_of_flushed`: so is `Save` after the flush.
* `undatedQueue_law`: all this for every sequence of calls of `Save` and a flush.
-/

namespace Cobalt.Logger

open LocalAggregation (ProjectContext makeNewLocalAggregateStore makeNewObservationHistoryStore)

/-! ### Counts -/

/-- The order of the keys. -/
def Before (id id' : ℕ × ℕ) : Prop := id.1 < id'.1 ∨ (id.1 = id'.1 ∧ id.2 < id'.2)

theorem Before.trans {id id' id'' : ℕ × ℕ} (h : Before id id') (h' : Before id' id'') :
    Before id id'' := by
  rw [Before] at *
  omega

theorem Before.ne {id id' : ℕ × ℕ} (h : Before id id') : id ≠ id' := by
  rintro rfl
  rw [Before] at h
  omega

theorem before_of_ne {id id' : ℕ × ℕ} (hne : id ≠ id') (h : ¬ Before id id') : Before id' id := by
  have hne : ¬ (id.1 = id'.1 ∧ id.2 = id'.2) := fun hand => hne (Prod.ext hand.1 hand.2)
  rw [Before] at *
  omega

namespace EventCounts

/-- The number of events that are counted for a project. -/
def get (counts : EventCounts) (id : ℕ × ℕ) : ℕ := (counts.lookup id).getD 0

/-- The keys are in order. -/
def Sorted (counts : EventCounts) : Prop := counts.Pairwise fun c c' => Before c.1 c'.1

theorem get_cons (id id' : ℕ × ℕ) (n : ℕ) (counts : EventCounts) :
    get ((id', n) :: counts) id = if id = id' then n else get counts id := by
  rw [get, List.lookup_cons]
  by_cases h : id = id'
  · rw [if_pos h, h, beq_self_eq_true]
    rfl
  · rw [if_neg h, beq_false_of_ne h]
    rfl

/-- A key before the first one is not in the map. -/
theorem get_eq_zero {counts : EventCounts} {id : ℕ × ℕ} (h : ∀ c ∈ counts, Before id c.1) :
    get counts id = 0 := by
  induction counts with
  | nil => rfl
  | cons c counts ih =>
    rw [get_cons, if_neg (h c List.mem_cons_self).ne]
    exact ih fun c' hc' => h c' (List.mem_cons_of_mem c hc')

theorem mem_increment {id : ℕ × ℕ} {counts : EventCounts} {c : (ℕ × ℕ) × ℕ}
    (h : c ∈ increment id counts) : c.1 = id ∨ ∃ c' ∈ counts, c'.1 = c.1 := by
  induction counts with
  | nil => exact Or.inl (by rw [List.mem_singleton.mp h])
  | cons c' counts ih =>
    rw [increment] at h
    split_ifs at h with heq hbefore
    · rcases List.mem_cons.mp h with rfl | h
      · exact Or.inl heq.symm
      · exact Or.inr ⟨c, List.mem_cons_of_mem c' h, rfl⟩
    · rcases List.mem_cons.mp h with rfl | h
      · exact Or.inl rfl
      · exact Or.inr ⟨c, h, rfl⟩
    · rcases List.mem_cons.mp h with rfl | h
      · exact Or.inr ⟨c', List.mem_cons_self, rfl⟩
      · rcases ih h with hid | ⟨c'', hmem, hc⟩
        · exact Or.inl hid
        · exact Or.inr ⟨c'', List.mem_cons_of_mem c' hmem, hc⟩

theorem Sorted.increment {counts : EventCounts} (h : counts.Sorted) (id : ℕ × ℕ) :
    (counts.increment id).Sorted := by
  induction counts with
  | nil => exact List.pairwise_singleton _ _
  | cons c counts ih =>
    obtain ⟨hhead, htail⟩ := List.pairwise_cons.mp h
    rw [EventCounts.increment]
    split_ifs with heq hbefore
    · exact List.pairwise_cons.mpr ⟨hhead, htail⟩
    · refine List.pairwise_cons.mpr ⟨fun c' hc' => ?_, h⟩
      rcases List.mem_cons.mp hc' with rfl | hc'
      · exact hbefore
      · exact Before.trans hbefore (hhead c' hc')
    · refine List.pairwise_cons.mpr ⟨fun c' hc' => ?_, ih htail⟩
      rcases mem_increment hc' with hid | ⟨c'', hmem, hc⟩
      · rw [hid]
        exact before_of_ne heq hbefore
      · rw [← hc]
        exact hhead c'' hmem

/-- `++counts[id]` counts one more event for the project, and no other one. -/
theorem get_increment {counts : EventCounts} (h : counts.Sorted) (id id' : ℕ × ℕ) :
    get (counts.increment id) id' = get counts id' + if id' = id then 1 else 0 := by
  induction counts with
  | nil =>
    rw [increment, get_cons]
    exact (Nat.zero_add _).symm
  | cons c counts ih =>
    obtain ⟨hhead, htail⟩ := List.pairwise_cons.mp h
    rw [increment]
    by_cases heq : id = c.1
    · rw [if_pos heq, get_cons, get_cons, ← heq]
      split_ifs <;> rfl
    · rw [if_neg heq]
      by_cases hbefore : id.1 < c.1.1 ∨ (id.1 = c.1.1 ∧ id.2 < c.1.2)
      · have hzero : get (c :: counts) id = 0 := by
          refine get_eq_zero fun c' hc' => ?_
          rcases List.mem_cons.mp hc' with rfl | hc'
          · exact hbefore
          · exact Before.trans hbefore (hhead c' hc')
        rw [if_pos hbefore, get_cons]
        split_ifs with hid
        · rw [hid]
          exact (congrArg (· + 1) hzero).symm
        · rfl
      · rw [if_neg hbefore, get_cons, get_cons, ih htail]
        by_cases hid : id' = id
        · rw [hid, if_neg heq, if_neg heq]
        · rw [if_neg hid]
          split_ifs <;> rfl

end EventCounts

/-! ### The queue -/

/-- The number of events of a project in a list. -/
def numEvents (records : List SavedEventRecord) (id : ℕ × ℕ) : ℕ :=
  records.countP fun record => record.id = id

/-- The law of the counts: the events of a project that were saved are in the queue or were
dropped. -/
structure UndatedEventManager.Counted (m : UndatedEventManager) : Prop where
  cachedSorted : m.numEventsCached.Sorted
  droppedSorted : m.numEventsDropped.Sorted
  counted : ∀ id, m.numEventsCached.get id = m.numEventsDropped.get id + numEvents m.savedRecords id

/-- What `Save` does to a queue before the flush, by whether it is full. -/
theorem UndatedEventManager.enqueue_cases (record : SavedEventRecord) (m : UndatedEventManager)
    (hmax : 1 ≤ m.maxSavedEvents) :
    (m.savedRecords.length < m.maxSavedEvents ∧
      m.enqueue record = { m with
        savedRecords := m.savedRecords ++ [record]
        numEventsCached := m.numEventsCached.increment record.id }) ∨
    (∃ droppedRecord savedRecords, m.savedRecords = droppedRecord :: savedRecords ∧
      m.maxSavedEvents ≤ m.savedRecords.length ∧
      m.enqueue record = { m with
        savedRecords := savedRecords ++ [record]
        numEventsCached := m.numEventsCached.increment record.id
        numEventsDropped := m.numEventsDropped.increment droppedRecord.id }) := by
  rw [UndatedEventManager.enqueue]
  by_cases hfull : m.maxSavedEvents ≤ m.savedRecords.length
  · cases hrecords : m.savedRecords with
    | nil =>
      rw [hrecords, List.length_nil] at hfull
      omega
    | cons droppedRecord savedRecords =>
      rw [hrecords] at hfull
      exact Or.inr ⟨droppedRecord, savedRecords, rfl, hfull, by simp only [if_pos hfull]⟩
  · exact Or.inl ⟨not_le.mp hfull, by simp only [if_neg hfull]⟩

theorem UndatedEventManager.Counted.enqueue {m : UndatedEventManager} (h : m.Counted)
    (hmax : 1 ≤ m.maxSavedEvents) (record : SavedEventRecord) : (m.enqueue record).Counted := by
  rcases m.enqueue_cases record hmax with ⟨_, heq⟩ | ⟨dropped, rest, hrecords, _, heq⟩
  · rw [heq]
    refine ⟨h.cachedSorted.increment _, h.droppedSorted, fun id => ?_⟩
    have hid := h.counted id
    simp only [EventCounts.get_increment h.cachedSorted, numEvents, List.countP_append,
      List.countP_singleton] at hid ⊢
    simp only [eq_comm (a := id), decide_eq_true_eq]
    omega
  · rw [heq]
    refine ⟨h.cachedSorted.increment _, h.droppedSorted.increment _, fun id => ?_⟩
    have hid := h.counted id
    simp only [EventCounts.get_increment h.cachedSorted, EventCounts.get_increment h.droppedSorted,
      numEvents, hrecords, List.countP_cons, List.countP_append, List.countP_nil,
      decide_eq_true_eq] at hid ⊢
    simp only [eq_comm (a := id)]
    omega

/-! ### Saving -/

section Saving

variable {Obs W : Type} (logger : EventLogger Obs W) (toTimestamp : ℤ → Timestamp)

/-- Several calls of `Save`. -/
def saveAll (records : List SavedEventRecord) (p : UndatedEventManager × Stores W) :
    UndatedEventManager × Stores W :=
  records.foldl (fun p record => (p.1.save logger toTimestamp record p.2).2) p

/-- Before the flush the calls of `Save` only change the queue and the counts. -/
theorem saveAll_of_not_flushed {m : UndatedEventManager} (h : m.flushed = false)
    (records : List SavedEventRecord) (s : Stores W) :
    saveAll logger toTimestamp records (m, s) =
      (records.foldl (fun m record => m.enqueue record) m, s) := by
  induction records generalizing m with
  | nil => rfl
  | cons record records ih =>
    have hsave : m.save logger toTimestamp record s = (.kOK, m.enqueue record, s) := by
      rw [UndatedEventManager.save, h]
      rfl
    have hflushed : (m.enqueue record).flushed = false := by
      rw [UndatedEventManager.enqueue, ← h]
      split_ifs
      · cases m.savedRecords <;> rfl
      · rfl
    rw [saveAll, List.foldl_cons, hsave, List.foldl_cons]
    exact ih hflushed

end Saving

/-- Before the flush the queue holds the last events, in the order in which they were saved, and
the counts of each project add up. -/
theorem enqueueAll_spec {maxSavedEvents : ℕ} (hmax : 1 ≤ maxSavedEvents)
    (saved : List SavedEventRecord) :
    let m := saved.foldl (fun m record => m.enqueue record)
      ({ maxSavedEvents } : UndatedEventManager)
    m.maxSavedEvents = maxSavedEvents ∧ m.flushed = false ∧ m.Counted ∧
      m.savedRecords = saved.drop (saved.length - maxSavedEvents) := by
  induction saved using List.reverseRecOn with
  | nil => exact ⟨rfl, rfl, ⟨List.Pairwise.nil, List.Pairwise.nil, fun _ => rfl⟩, by simp⟩
  | append_singleton saved record ih =>
    obtain ⟨hmax', hflushed, hcounted, hrecords⟩ := ih
    rw [List.foldl_append, List.foldl_cons, List.foldl_nil]
    generalize saved.foldl (fun m record => m.enqueue record)
      ({ maxSavedEvents } : UndatedEventManager) = m at hmax' hflushed hcounted hrecords ⊢
    subst hmax'
    have hlength := congrArg List.length hrecords
    rw [List.length_drop] at hlength
    rw [List.length_append, List.length_singleton]
    refine ⟨?_, ?_, hcounted.enqueue hmax record, ?_⟩
    all_goals
      rcases m.enqueue_cases record hmax with ⟨hroom, heq⟩ | ⟨dropped, rest, hcons, hfull, heq⟩
      all_goals rw [heq]
    · exact hflushed
    · exact hflushed
    · have hzero : saved.length + 1 - m.maxSavedEvents = 0 := by omega
      have hzero' : saved.length - m.maxSavedEvents = 0 := by omega
      rw [hzero, List.drop_zero]
      dsimp only
      rw [hrecords, hzero', List.drop_zero]
    · have hle : m.maxSavedEvents ≤ saved.length := by omega
      rw [hcons] at hrecords
      dsimp only
      rw [List.drop_append_of_le_length (by omega), Nat.sub_add_comm hle,
        ← List.drop_drop, ← hrecords]
      rfl

/-! ### The flush -/

section Flush

variable {Obs W : Type} (logger : EventLogger Obs W) (toTimestamp : ℤ → Timestamp)

/-- A call of `EventLogger::Log`, with the system time of the event. -/
structure Handed where
  record : SavedEventRecord
  eventTimestamp : ℤ
  deriving DecidableEq, Repr

/-- The call of `EventLogger::Log`. -/
def Handed.log (call : Handed) (s : Stores W) : Status × Stores W :=
  logger.log (toTimestamp call.eventTimestamp) call.record.metric call.record.event s

/-- The calls one after the other, whatever their results are. -/
def handAll (calls : List Handed) (s : Stores W) : Stores W :=
  calls.foldl (fun s call => (call.log logger toTimestamp s).2) s

/-- There is an event logger for the type of the metric. -/
def SavedEventRecord.hasEventLogger (record : SavedEventRecord) : Bool :=
  match record.metric.metricType with
  | .other _ => false
  | _ => true

/-- The call for an event that happened at its monotonic time, when the system clock and the
monotonic clock had the given times. -/
def SavedEventRecord.handed (referenceSystemTime referenceMonotonicTime : ℤ)
    (record : SavedEventRecord) : Handed where
  record := record
  eventTimestamp := referenceSystemTime -
    (referenceMonotonicTime - record.monotonicTime).tdiv 1000000000 * 1000000

theorem flushSavedRecord_eq (record : SavedEventRecord)
    (referenceSystemTime referenceMonotonicTime : ℤ) (s : Stores W) :
    flushSavedRecord logger toTimestamp record referenceSystemTime referenceMonotonicTime s =
      if record.hasEventLogger then
        (record.handed referenceSystemTime referenceMonotonicTime).log logger toTimestamp s
      else (.kInvalidArguments, s) := by
  rw [flushSavedRecord, SavedEventRecord.hasEventLogger]
  cases record.metric.metricType <;> rfl

/-- The flush is one call for each event that has an event logger, in order. -/
theorem flushRecords_eq_handAll (records : List SavedEventRecord)
    (referenceSystemTime referenceMonotonicTime : ℤ) (s : Stores W) :
    UndatedEventManager.flushRecords logger toTimestamp records referenceSystemTime
        referenceMonotonicTime s =
      handAll logger toTimestamp ((records.filter SavedEventRecord.hasEventLogger).map
        (SavedEventRecord.handed referenceSystemTime referenceMonotonicTime)) s := by
  induction records generalizing s with
  | nil => rfl
  | cons record records ih =>
    rw [UndatedEventManager.flushRecords, List.foldl_cons, flushSavedRecord_eq, List.filter_cons]
    split_ifs with hlogger
    · exact ih _
    · exact ih _

/-- Later events get later times. -/
theorem pairwise_eventTimestamp {records : List SavedEventRecord}
    (h : records.Pairwise fun record record' => record.monotonicTime ≤ record'.monotonicTime)
    (referenceSystemTime referenceMonotonicTime : ℤ) :
    (records.map (SavedEventRecord.handed referenceSystemTime referenceMonotonicTime)).Pairwise
      fun call call' => call.eventTimestamp ≤ call'.eventTimestamp := by
  refine List.pairwise_map.mpr (h.imp fun {record record'} hle => ?_)
  have hshift : (referenceMonotonicTime - record'.monotonicTime).tdiv 1000000000 ≤
      (referenceMonotonicTime - record.monotonicTime).tdiv 1000000000 :=
    Int.tdiv_le_tdiv (by decide) (Int.sub_le_sub_left hle _)
  dsimp only [SavedEventRecord.handed]
  omega

/-- After the flush `Save` changes nothing in the manager and passes the event on. -/
theorem save_of_flushed {m : UndatedEventManager} (h : m.flushed = true)
    (record : SavedEventRecord) (s : Stores W) :
    m.save logger toTimestamp record s =
      if record.hasEventLogger then
        let call := record.handed m.referenceSystemTime m.referenceMonotonicTime
        ((call.log logger toTimestamp s).1, m, (call.log logger toTimestamp s).2)
      else (.kInvalidArguments, m, s) := by
  rw [UndatedEventManager.save, h, if_pos rfl, flushSavedRecord_eq]
  split_ifs <;> rfl

theorem saveAll_of_flushed {m : UndatedEventManager} (h : m.flushed = true)
    (records : List SavedEventRecord) (s : Stores W) :
    (saveAll logger toTimestamp records (m, s)).1 = m := by
  induction records generalizing s with
  | nil => rfl
  | cons record records ih =>
    rw [saveAll, List.foldl_cons, save_of_flushed logger toTimestamp h]
    split_ifs
    · exact ih _
    · exact ih _

/-- The manager and the stores after the calls of `Save` on a new manager. -/
def saving (maxSavedEvents : ℕ) (saved : List SavedEventRecord) (s : Stores W) :
    UndatedEventManager × Stores W :=
  saveAll logger toTimestamp saved ({ maxSavedEvents }, s)

/-- The calls for the events in a queue. -/
def handedCalls (referenceSystemTime referenceMonotonicTime : ℤ) (m : UndatedEventManager) :
    List Handed :=
  (m.savedRecords.filter SavedEventRecord.hasEventLogger).map
    (SavedEventRecord.handed referenceSystemTime referenceMonotonicTime)

/-- The law of the queue, for the events `saved` before a flush at the given times. -/
structure QueueLaw (ids : InternalMetricIds) (internalLogger : ProjectContext) (maxSavedEvents : ℕ)
    (saved : List SavedEventRecord) (referenceSystemTime referenceMonotonicTime : ℤ) (now : ℕ → ℤ)
    (s : Stores W) (m : UndatedEventManager) (flushing : Bool × UndatedEventManager × Stores W) :
    Prop where
  /-- The queue holds the last events, and nothing was logged. -/
  queue : saving logger toTimestamp maxSavedEvents saved s = (m, s) ∧
    m.savedRecords = saved.drop (saved.length - maxSavedEvents)
  counts : ∀ id, (m.numEventsCached.get id : ℤ) - m.numEventsDropped.get id =
    numEvents m.savedRecords id
  /-- The flush logs each event in the queue, and then the counts. -/
  flush : m.flush logger toTimestamp ids (some internalLogger) referenceSystemTime
    referenceMonotonicTime now s = flushing
  handed : flushing.2.2 = UndatedEventManager.logInternalEvents logger toTimestamp internalLogger now
    (m.internalEvents ids) (handAll logger toTimestamp
      (handedCalls referenceSystemTime referenceMonotonicTime m) s)
  ordered : (saved.Pairwise fun record record' => record.monotonicTime ≤ record'.monotonicTime) →
    (handedCalls referenceSystemTime referenceMonotonicTime m).Pairwise fun call call' =>
      call.eventTimestamp ≤ call'.eventTimestamp
  emptied : flushing.1 = false ∧ flushing.2.1.savedRecords = []
  /-- Events that are saved later, after any other ones, are logged at once. -/
  later : ∀ records s', (saveAll logger toTimestamp records flushing.2).1 = flushing.2.1 ∧
    ∀ record, flushing.2.1.save logger toTimestamp record s' =
      if record.hasEventLogger then
        let call := record.handed referenceSystemTime referenceMonotonicTime
        ((call.log logger toTimestamp s').1, flushing.2.1, (call.log logger toTimestamp s').2)
      else (.kInvalidArguments, flushing.2.1, s')

/-- **The law holds** for every sequence of calls of `Save` on a manager with room for an event, a
flush, and any later calls of `Save`. -/
theorem undatedQueue_law (ids : InternalMetricIds) (internalLogger : ProjectContext)
    {maxSavedEvents : ℕ} (hmax : 1 ≤ maxSavedEvents) (saved : List SavedEventRecord)
    (referenceSystemTime referenceMonotonicTime : ℤ) (now : ℕ → ℤ) (s : Stores W) :
    ∃ m flushing, QueueLaw logger toTimestamp ids internalLogger maxSavedEvents saved
      referenceSystemTime referenceMonotonicTime now s m flushing := by
  obtain ⟨_, _, hcounted, hrecords⟩ := enqueueAll_spec hmax saved
  have hsaving := saveAll_of_not_flushed (m := { maxSavedEvents }) logger toTimestamp rfl saved s
  generalize saved.foldl (fun m record => m.enqueue record)
    ({ maxSavedEvents } : UndatedEventManager) = m at hcounted hrecords hsaving
  refine ⟨m, m.flush logger toTimestamp ids (some internalLogger) referenceSystemTime
    referenceMonotonicTime now s, ⟨hsaving, hrecords⟩, fun id => ?_, rfl, ?_, fun hmonotonic => ?_,
    ⟨rfl, rfl⟩, fun records s' => ⟨?_, fun record => ?_⟩⟩
  · have hid := hcounted.counted id
    omega
  · exact congrArg (UndatedEventManager.logInternalEvents logger toTimestamp internalLogger now
      (m.internalEvents ids)) (flushRecords_eq_handAll logger toTimestamp _ _ _ _)
  · refine pairwise_eventTimestamp (List.Pairwise.filter _ ?_) _ _
    rw [hrecords]
    exact hmonotonic.sublist (List.drop_sublist _ _)
  · exact saveAll_of_flushed logger toTimestamp rfl records _
  · exact save_of_flushed logger toTimestamp rfl record s'

end Flush

/-! ### Three events in a queue for two -/

/-- An event logger that counts the observations, and the stores of a new device. -/
def countingLogger : EventLogger Unit ℕ where
  encode _ := (.kOK, some ())
  writeObservation _ n := (.kOK, n + 1)
  releaseStage := none

@[inherit_doc countingLogger]
def newStores : Stores ℕ where
  aggregateStore := ⟨makeNewLocalAggregateStore, makeNewLocalAggregateStore,
    makeNewObservationHistoryStore, false, 0, Nat.zero_le _⟩
  observationStore := 0

/-- An event of a project, with an immediate observation. -/
def savedCount (projectId call : ℕ) (monotonicTime : ℤ) : SavedEventRecord where
  monotonicTime := monotonicTime
  metric :=
    { customerId := 1
      projectId := projectId
      id := 1
      metricType := .EVENT_COUNT
      reports := [{ id := 1, reportType := .EVENT_COMPONENT_OCCURRENCE_COUNT }] }
  event := { type := .eventCountEvent [] "" 0 1 }
  call := call

/-- The event of the first project is dropped for one of the second project. The flush, ten seconds
after the first event, dates the two others 8 and 3 seconds back. -/
theorem undatedQueue_law_dropped :
    ∃ m flushing, QueueLaw countingLogger (fun _ => ⟨0, 0, 0, 0⟩) ⟨1, 2, 3, 4⟩ ⟨⟨1, 3⟩, []⟩ 2
        [savedCount 1 0 0, savedCount 2 1 1500000000, savedCount 2 2 6500000000] 20000000 10000000000
        (fun _ => 0) newStores m flushing ∧
      m.numEventsDropped = [((1, 1), 1)] ∧ m.numEventsCached = [((1, 1), 1), ((1, 2), 2)] ∧
      (handedCalls 20000000 10000000000 m).map (fun call => (call.record.call, call.eventTimestamp)) =
        [(1, 12000000), (2, 17000000)] := by
  obtain ⟨m, flushing, h⟩ := undatedQueue_law countingLogger (fun _ => ⟨0, 0, 0, 0⟩) ⟨1, 2, 3, 4⟩
    ⟨⟨1, 3⟩, []⟩ (by decide : 1 ≤ 2)
    [savedCount 1 0 0, savedCount 2 1 1500000000, savedCount 2 2 6500000000] 20000000 10000000000
    (fun _ => 0) newStores
  have hm : _ = m := congrArg Prod.fst h.queue.1
  refine ⟨m, flushing, h, ?_⟩
  rw [← hm]
  decide +kernel

end Cobalt.Logger
