import Cobalt.Lib.Run
import Mathlib.Data.List.Infix

/-!
# The worker thread of the `EventAggregatorManager`

The worker thread sleeps until the next scheduled backup, or until it is woken up by
`TriggerBackups` or `ShutDown`. It holds the lock of the `WorkerThreadController` all the time,
except before it has taken it for the first time and while it sleeps. It tests for a shutdown at two
places: at the top of its loop, where it backs up the aggregates only, and after it was woken up,
where it has backed up the history as well if that was requested.

## Main definitions

* `WorkerThreadController`, `Worker`, `Manager.step`: the protected fields and the steps of all
  threads.
* `BackedUp`: both stores were backed up after every `TriggerBackups` that preceded a `ShutDown`.

## Main results

* `backedUp_iff`: when the worker has exited, both stores were backed up if and only if no `ShutDown`
  found a pending request and a worker that had not taken the lock yet.
-/

namespace Cobalt.LocalAggregation

/-! ### The protected fields and the worker -/

/-- `WorkerThreadController`, without the condition variable. -/
structure WorkerThreadController where
  shutDown : Bool := true
  immediateRunTrigger : Bool := false
  backUpNow : Bool := false
  deriving DecidableEq, Repr

/-- Where the worker thread is in `Run`. -/
inductive Worker
  /-- Before it has taken the lock. -/
  | starting
  /-- At the first test of `shut_down`. -/
  | loopTop
  /-- In `wait_for`, evaluating the predicate. -/
  | testing
  /-- In `wait_for`, asleep without the lock. -/
  | waiting
  /-- After `wait_for`. -/
  | awake
  /-- At the call of `DoScheduledTasks`. -/
  | scheduled
  | exited
  deriving DecidableEq, Repr

/-- The manager after `Start`. -/
structure Manager where
  controller : WorkerThreadController
  worker : Worker
  deriving DecidableEq, Repr

/-- What happens in a run. A `ShutDown` is unheard when it finds a pending request for backups and a
worker that has not taken the lock. -/
inductive ManagerEvent
  | triggerBackups
  | shutDown (unheard : Bool)
  | backUpLocalAggregateStore
  | backUpObservationHistory
  deriving DecidableEq, Repr

/-- The steps of the threads. -/
inductive ManagerLabel
  | triggerBackups
  | shutDown
  /-- `immediate_run_trigger` is set. -/
  | triggerRun
  /-- The worker takes its next step. -/
  | work
  /-- The worker is notified, or wakes up spuriously. -/
  | wake
  /-- The worker has slept for `aggregate_backup_interval_`. -/
  | timeout
  /-- `DoScheduledTasks`, with whether it generates observations and collects garbage successfully. -/
  | doScheduledTasks (generated collected : Bool)
  deriving DecidableEq, Repr

/-- The predicate of `wait_for`, which resets `immediate_run_trigger`. -/
def WorkerThreadController.wakeUp (c : WorkerThreadController) : Bool × WorkerThreadController :=
  if c.immediateRunTrigger then (true, { c with immediateRunTrigger := false })
  else (c.shutDown || c.backUpNow, c)

namespace Manager

/-- Other threads can take the lock. What they do after the worker has exited is left to the next
`Start`. -/
def lockFree (s : Manager) : Bool :=
  s.worker = .starting ∨ s.worker = .waiting

/-- `Start`. -/
def start (c : WorkerThreadController) : Manager :=
  ⟨{ c with shutDown := false }, .starting⟩

/-- The next step of the worker, for the steps that are not left to others. -/
def work (s : Manager) : Option (List ManagerEvent × Manager) :=
  match s.worker with
  | .starting => some ([], { s with worker := .loopTop })
  | .loopTop =>
    if s.controller.shutDown then some ([.backUpLocalAggregateStore], { s with worker := .exited })
    else some ([], { s with worker := .testing })
  | .testing =>
    let (wake, c) := s.controller.wakeUp
    some ([], ⟨c, if wake then .awake else .waiting⟩)
  | .awake =>
    some (.backUpLocalAggregateStore ::
        if s.controller.backUpNow then [.backUpObservationHistory] else [],
      ⟨{ s.controller with backUpNow := false },
        if s.controller.shutDown then .exited else .scheduled⟩)
  | .waiting | .scheduled | .exited => none

/-- One step of one of the threads. -/
def step (s : Manager) : ManagerLabel → Option (List ManagerEvent × Manager)
  | .triggerBackups =>
    if s.lockFree then
      some ([.triggerBackups], { s with controller := { s.controller with backUpNow := true } })
    else none
  | .shutDown =>
    if s.lockFree then
      some ([.shutDown (s.worker = .starting && s.controller.backUpNow)],
        { s with controller := { s.controller with shutDown := true } })
    else none
  | .triggerRun =>
    if s.lockFree then
      some ([], { s with controller := { s.controller with immediateRunTrigger := true } })
    else none
  | .work => s.work
  | .wake => if s.worker = .waiting then some ([], { s with worker := .testing }) else none
  | .timeout =>
    if s.worker = .waiting then some ([], ⟨s.controller.wakeUp.2, .awake⟩) else none
  | .doScheduledTasks generated collected =>
    if s.worker = .scheduled then
      some ((if generated then [.backUpObservationHistory] else []) ++
        (if collected then [.backUpLocalAggregateStore] else []), { s with worker := .loopTop })
    else none

/-- Some thread takes a step. -/
def Step (s : Manager) (out : List ManagerEvent) (s' : Manager) : Prop :=
  ∃ label, s.step label = some (out, s')

end Manager

/-! ### Backups after requests -/

/-- What happened before `Start`, as far as it is still pending. -/
def pendingEvents (c : WorkerThreadController) : List ManagerEvent :=
  if c.backUpNow then [.triggerBackups] else []

/-- Both stores were backed up after every `TriggerBackups` that preceded a `ShutDown`. -/
def BackedUp (events : List ManagerEvent) : Prop :=
  ∀ after, .triggerBackups :: after <:+ events → (∃ unheard, .shutDown unheard ∈ after) →
    .backUpLocalAggregateStore ∈ after ∧ .backUpObservationHistory ∈ after

/-- Both stores were backed up after every `TriggerBackups`. -/
def AllBackedUp (events : List ManagerEvent) : Prop :=
  ∀ after, .triggerBackups :: after <:+ events →
    .backUpLocalAggregateStore ∈ after ∧ .backUpObservationHistory ∈ after

theorem AllBackedUp.backedUp {events : List ManagerEvent} (h : AllBackedUp events) :
    BackedUp events :=
  fun after hafter _ => h after hafter

/-- What comes after an event, when one event is added. -/
theorem suffix_concat_cases {e new : ManagerEvent} {after events : List ManagerEvent} :
    e :: after <:+ events ++ [new] ↔
      (e = new ∧ after = []) ∨ ∃ before, after = before ++ [new] ∧ e :: before <:+ events := by
  rw [List.suffix_concat_iff]
  constructor
  · rintro (h | ⟨front, heq, hfront⟩)
    · exact absurd h (by simp)
    · cases front with
      | nil => exact Or.inl (by simpa using heq)
      | cons e' before =>
        obtain ⟨rfl, rfl⟩ := List.cons.inj heq
        exact Or.inr ⟨before, rfl, hfront⟩
  · rintro (⟨rfl, rfl⟩ | ⟨before, rfl, hbefore⟩)
    · exact Or.inr ⟨[], rfl, List.nil_suffix⟩
    · exact Or.inr ⟨e :: before, rfl, hbefore⟩

/-- What comes after an event, when events other than it are added. -/
theorem suffix_append_cases {e : ManagerEvent} {after events new : List ManagerEvent}
    (h : e :: after <:+ events ++ new) (hne : e ∉ new) :
    ∃ before, after = before ++ new ∧ e :: before <:+ events := by
  obtain ⟨front, heq⟩ := h
  rcases List.append_eq_append_iff.mp heq with ⟨mid, hevents, hmid⟩ | ⟨mid, hfront, hmid⟩
  · cases mid with
    | nil =>
      rw [List.nil_append] at hmid
      exact absurd (hmid ▸ List.mem_cons_self) hne
    | cons e' mid =>
      obtain ⟨rfl, rfl⟩ := List.cons.inj hmid
      exact ⟨mid, rfl, front, hevents.symm⟩
  · exact absurd (hmid ▸ List.mem_append_right mid List.mem_cons_self) hne

theorem AllBackedUp.append {events new : List ManagerEvent} (h : AllBackedUp events)
    (hnew : .triggerBackups ∉ new) : AllBackedUp (events ++ new) := by
  intro after hafter
  obtain ⟨before, rfl, hbefore⟩ := suffix_append_cases hafter hnew
  exact ⟨List.mem_append_left _ (h before hbefore).1, List.mem_append_left _ (h before hbefore).2⟩

/-- Once both stores are backed up, they are backed up after all that came before. -/
theorem allBackedUp_append {events new : List ManagerEvent} (hnew : .triggerBackups ∉ new)
    (hlocal : .backUpLocalAggregateStore ∈ new) (hhistory : .backUpObservationHistory ∈ new) :
    AllBackedUp (events ++ new) := by
  intro after hafter
  obtain ⟨before, rfl, _⟩ := suffix_append_cases hafter hnew
  exact ⟨List.mem_append_right _ hlocal, List.mem_append_right _ hhistory⟩

/-! ### The invariant -/

/-- The worker has not tested anything yet: nothing was backed up, and a `ShutDown` is unheard
exactly when a request precedes it. -/
structure NotEntered (events : List ManagerEvent) (s : Manager) : Prop where
  worker : s.worker = .starting ∨ s.worker = .loopTop
  calls : ∀ e ∈ events, e = .triggerBackups ∨ ∃ unheard, e = .shutDown unheard
  backUpNow : s.controller.backUpNow = true ↔ .triggerBackups ∈ events
  heard : s.controller.shutDown = false → ∀ unheard, .shutDown unheard ∉ events
  unheard : .shutDown true ∈ events ↔
    ∃ after unheard, .triggerBackups :: after <:+ events ∧ .shutDown unheard ∈ after

/-- The worker has found no shutdown at its first test and goes through its loop. -/
structure InLoop (events : List ManagerEvent) (s : Manager) : Prop where
  heard : .shutDown true ∉ events
  pending : s.controller.backUpNow = false → AllBackedUp events
  running : s.worker = .scheduled ∨ s.worker = .loopTop → s.controller.shutDown = false
  started : s.worker ≠ .starting
  exited : s.worker ≠ .exited

/-- What every step keeps. -/
inductive ManagerInvariant (events : List ManagerEvent) (s : Manager) : Prop
  | notEntered (h : NotEntered events s)
  | inLoop (h : InLoop events s)
  | exited (h : s.worker = .exited) (hiff : BackedUp events ↔ .shutDown true ∉ events)

theorem notEntered_start (c : WorkerThreadController) :
    NotEntered (pendingEvents c) (Manager.start c) := by
  have hpending : ∀ e ∈ pendingEvents c, e = .triggerBackups := by
    intro e he
    rw [pendingEvents] at he
    split_ifs at he
    · exact List.mem_singleton.mp he
    · exact absurd he List.not_mem_nil
  have hnone : ∀ unheard, ManagerEvent.shutDown unheard ∉ pendingEvents c := by
    intro unheard he
    exact absurd (hpending _ he) (by simp)
  refine ⟨Or.inl rfl, fun e he => Or.inl (hpending e he), ?_, fun _ => hnone, ?_⟩
  · cases hnow : c.backUpNow <;> simp [Manager.start, pendingEvents, hnow]
  · refine iff_of_false (hnone true) ?_
    rintro ⟨after, unheard, hafter, he⟩
    exact hnone unheard (hafter.subset (List.mem_cons_of_mem _ he))

section Calls

variable {events : List ManagerEvent} {s : Manager}

/-- A request before the worker has started. -/
theorem NotEntered.triggerBackups (h : NotEntered events s) :
    NotEntered (events ++ [.triggerBackups])
      { s with controller := { s.controller with backUpNow := true } } := by
  refine ⟨h.worker, fun e he => ?_, by simp, fun hrunning unheard he => ?_, ?_⟩
  · rcases List.mem_append.mp he with he | he
    · exact h.calls e he
    · exact Or.inl (List.mem_singleton.mp he)
  · rcases List.mem_append.mp he with he | he
    · exact h.heard hrunning unheard he
    · exact absurd (List.mem_singleton.mp he) (by simp)
  · have hmem : ManagerEvent.shutDown true ∈ events ++ [.triggerBackups] ↔
        ManagerEvent.shutDown true ∈ events := by simp
    rw [hmem, h.unheard]
    constructor
    · rintro ⟨after, unheard, hafter, he⟩
      exact ⟨after ++ [.triggerBackups], unheard, suffix_concat_cases.mpr (Or.inr ⟨after, rfl, hafter⟩),
        List.mem_append_left _ he⟩
    · rintro ⟨after, unheard, hafter, he⟩
      rcases suffix_concat_cases.mp hafter with ⟨_, rfl⟩ | ⟨before, rfl, hbefore⟩
      · exact absurd he List.not_mem_nil
      · exact ⟨before, unheard, hbefore, by simpa using he⟩

/-- A shutdown before the worker has started: it is unheard if a request is pending. -/
theorem NotEntered.shutDown (h : NotEntered events s) :
    NotEntered (events ++ [.shutDown s.controller.backUpNow])
      { s with controller := { s.controller with shutDown := true } } := by
  refine ⟨h.worker, fun e he => ?_, ?_, fun hrunning => by simp at hrunning, ?_⟩
  · rcases List.mem_append.mp he with he | he
    · exact h.calls e he
    · exact Or.inr ⟨_, List.mem_singleton.mp he⟩
  · simpa using h.backUpNow
  · constructor
    · intro he
      rcases List.mem_append.mp he with he | he
      · obtain ⟨after, unheard, hafter, he⟩ := h.unheard.mp he
        exact ⟨after ++ [.shutDown s.controller.backUpNow], unheard,
          suffix_concat_cases.mpr (Or.inr ⟨after, rfl, hafter⟩), List.mem_append_left _ he⟩
      · have hnow := ManagerEvent.shutDown.inj (List.mem_singleton.mp he)
        obtain ⟨front, after, rfl⟩ := List.append_of_mem (h.backUpNow.mp hnow.symm)
        exact ⟨after ++ [.shutDown s.controller.backUpNow], _,
          suffix_concat_cases.mpr (Or.inr ⟨after, rfl, List.suffix_append _ _⟩),
          List.mem_append_right _ List.mem_cons_self⟩
    · rintro ⟨after, unheard, hafter, -⟩
      rcases suffix_concat_cases.mp hafter with ⟨heq, -⟩ | ⟨before, -, hbefore⟩
      · exact absurd heq (by simp)
      · rw [h.backUpNow.mpr (hbefore.subset List.mem_cons_self)]
        exact List.mem_append_right _ List.mem_cons_self

/-- A shutdown that the worker finds at its first test. It backs up the aggregates alone. -/
theorem NotEntered.exit (h : NotEntered events s) :
    BackedUp (events ++ [.backUpLocalAggregateStore]) ↔
      .shutDown true ∉ events ++ [.backUpLocalAggregateStore] := by
  have hmem : ManagerEvent.shutDown true ∈ events ++ [.backUpLocalAggregateStore] ↔
      ManagerEvent.shutDown true ∈ events := by simp
  rw [hmem, h.unheard]
  constructor
  · rintro hbacked ⟨after, unheard, hafter, he⟩
    have hhistory := (hbacked (after ++ [.backUpLocalAggregateStore])
      (suffix_concat_cases.mpr (Or.inr ⟨after, rfl, hafter⟩))
      ⟨unheard, List.mem_append_left _ he⟩).2
    have hevent : ManagerEvent.backUpObservationHistory ∈ after := by simpa using hhistory
    have hcall := h.calls _ (hafter.subset (List.mem_cons_of_mem _ hevent))
    simp at hcall
  · rintro hnone after hafter ⟨unheard, he⟩
    rcases suffix_concat_cases.mp hafter with ⟨heq, -⟩ | ⟨before, rfl, hbefore⟩
    · exact absurd heq (by simp)
    · exact absurd ⟨before, unheard, hbefore, by simpa using he⟩ hnone

end Calls

/-! ### The steps -/

theorem backUpNow_wakeUp (c : WorkerThreadController) : c.wakeUp.2.backUpNow = c.backUpNow := by
  rw [WorkerThreadController.wakeUp]
  split_ifs <;> rfl

section Steps

variable {events new : List ManagerEvent} {s s' : Manager}

private theorem notEntered_work (h : NotEntered events s) (hwork : s.work = some (new, s')) :
    ManagerInvariant (events ++ new) s' := by
  rw [Manager.work] at hwork
  rcases h.worker with hworker | hworker <;> rw [hworker] at hwork <;> dsimp only at hwork
  · obtain ⟨rfl, rfl⟩ := Prod.mk.inj (Option.some.inj hwork)
    rw [List.append_nil]
    exact .notEntered ⟨Or.inr rfl, h.calls, h.backUpNow, h.heard, h.unheard⟩
  · cases hshut : s.controller.shutDown <;> simp only [hshut, Bool.false_eq_true, ↓reduceIte] at hwork
    · obtain ⟨rfl, rfl⟩ := Prod.mk.inj (Option.some.inj hwork)
      rw [List.append_nil]
      refine .inLoop ⟨h.heard hshut true, fun hnow after hafter => ?_, by simp, by simp, by simp⟩
      have hnow : s.controller.backUpNow = false := hnow
      exact absurd (h.backUpNow.mpr (hafter.subset List.mem_cons_self)) (by simp [hnow])
    · obtain ⟨rfl, rfl⟩ := Prod.mk.inj (Option.some.inj hwork)
      exact .exited rfl h.exit

private theorem inLoop_work (h : InLoop events s) (hwork : s.work = some (new, s')) :
    ManagerInvariant (events ++ new) s' := by
  rw [Manager.work] at hwork
  cases hworker : s.worker <;> rw [hworker] at hwork <;> dsimp only at hwork
  case starting => exact absurd hworker h.started
  case waiting => exact absurd hwork (by simp)
  case scheduled => exact absurd hwork (by simp)
  case exited => exact absurd hwork (by simp)
  case loopTop =>
    simp only [h.running (Or.inr hworker), Bool.false_eq_true, ↓reduceIte] at hwork
    obtain ⟨rfl, rfl⟩ := Prod.mk.inj (Option.some.inj hwork)
    rw [List.append_nil]
    exact .inLoop ⟨h.heard, h.pending, by simp, by simp, by simp⟩
  case testing =>
    obtain ⟨rfl, rfl⟩ := Prod.mk.inj (Option.some.inj hwork)
    rw [List.append_nil]
    refine .inLoop ⟨h.heard, fun hpending => h.pending (backUpNow_wakeUp _ ▸ hpending), ?_, ?_, ?_⟩ <;>
      cases s.controller.wakeUp.1 <;> simp
  case awake =>
    obtain ⟨rfl, rfl⟩ := Prod.mk.inj (Option.some.inj hwork)
    have hall : AllBackedUp (events ++ .backUpLocalAggregateStore ::
        if s.controller.backUpNow then [.backUpObservationHistory] else []) := by
      cases hnow : s.controller.backUpNow with
      | true => exact allBackedUp_append (by simp) (by simp) (by simp)
      | false => exact (h.pending hnow).append (by simp)
    have hheard : ManagerEvent.shutDown true ∉ events ++ .backUpLocalAggregateStore ::
        if s.controller.backUpNow then [.backUpObservationHistory] else [] := by
      cases s.controller.backUpNow <;> simp [h.heard]
    cases hshut : s.controller.shutDown with
    | true => exact .exited rfl (iff_of_true hall.backedUp hheard)
    | false => exact .inLoop ⟨hheard, fun _ => hall, fun _ => rfl, by simp, by simp⟩

/-- A step of a thread that is neither the worker's own nor a call of another thread leaves the
events of the loop in order. -/
private theorem InLoop.move (h : InLoop events s) {c : WorkerThreadController} {worker : Worker}
    (hnew : .triggerBackups ∉ new) (hheard : .shutDown true ∉ new)
    (hnow : c.backUpNow = s.controller.backUpNow)
    (hrunning : worker = .scheduled ∨ worker = .loopTop → c.shutDown = false)
    (hstarted : worker ≠ .starting) (hexited : worker ≠ .exited) : InLoop (events ++ new) ⟨c, worker⟩ where
  heard he := (List.mem_append.mp he).elim h.heard hheard
  pending hpending := (h.pending (hnow ▸ hpending)).append hnew
  running := hrunning
  started := hstarted
  exited := hexited

private theorem inLoop_step (h : InLoop events s) {label : ManagerLabel}
    (hstep : s.step label = some (new, s')) : ManagerInvariant (events ++ new) s' := by
  cases label with
  | work => exact inLoop_work h hstep
  | triggerBackups =>
    obtain ⟨_, hstep⟩ := Option.ite_none_right_eq_some.mp hstep
    obtain ⟨rfl, rfl⟩ := Prod.mk.inj (Option.some.inj hstep)
    exact .inLoop ⟨by simp [h.heard], by simp, h.running, h.started, h.exited⟩
  | shutDown =>
    obtain ⟨hfree, hstep⟩ := Option.ite_none_right_eq_some.mp hstep
    obtain ⟨rfl, rfl⟩ := Prod.mk.inj (Option.some.inj hstep)
    have hwaiting : s.worker = .waiting := by
      simpa [Manager.lockFree, h.started] using hfree
    refine .inLoop (h.move (by simp) (by simp [hwaiting]) rfl ?_ h.started h.exited)
    simp [hwaiting]
  | triggerRun =>
    obtain ⟨_, hstep⟩ := Option.ite_none_right_eq_some.mp hstep
    obtain ⟨rfl, rfl⟩ := Prod.mk.inj (Option.some.inj hstep)
    exact .inLoop (h.move (by simp) (by simp) rfl h.running h.started h.exited)
  | wake =>
    obtain ⟨_, hstep⟩ := Option.ite_none_right_eq_some.mp hstep
    obtain ⟨rfl, rfl⟩ := Prod.mk.inj (Option.some.inj hstep)
    exact .inLoop (h.move (by simp) (by simp) rfl (by simp) (by simp) (by simp))
  | timeout =>
    obtain ⟨_, hstep⟩ := Option.ite_none_right_eq_some.mp hstep
    obtain ⟨rfl, rfl⟩ := Prod.mk.inj (Option.some.inj hstep)
    exact .inLoop (h.move (by simp) (by simp) (backUpNow_wakeUp _) (by simp) (by simp) (by simp))
  | doScheduledTasks generated collected =>
    obtain ⟨hworker, hstep⟩ := Option.ite_none_right_eq_some.mp hstep
    obtain ⟨rfl, rfl⟩ := Prod.mk.inj (Option.some.inj hstep)
    refine .inLoop (h.move ?_ ?_ rfl (fun _ => h.running (Or.inl hworker)) (by simp) (by simp))
    · cases generated <;> cases collected <;> simp
    · cases generated <;> cases collected <;> simp

private theorem notEntered_step (h : NotEntered events s) {label : ManagerLabel}
    (hstep : s.step label = some (new, s')) : ManagerInvariant (events ++ new) s' := by
  have hasleep : s.worker ≠ .waiting := by
    rcases h.worker with hworker | hworker <;> simp [hworker]
  have hidle : s.worker ≠ .scheduled := by
    rcases h.worker with hworker | hworker <;> simp [hworker]
  cases label with
  | work => exact notEntered_work h hstep
  | triggerBackups =>
    obtain ⟨_, hstep⟩ := Option.ite_none_right_eq_some.mp hstep
    obtain ⟨rfl, rfl⟩ := Prod.mk.inj (Option.some.inj hstep)
    exact .notEntered h.triggerBackups
  | shutDown =>
    obtain ⟨hfree, hstep⟩ := Option.ite_none_right_eq_some.mp hstep
    obtain ⟨rfl, rfl⟩ := Prod.mk.inj (Option.some.inj hstep)
    have hstarting : s.worker = .starting := by
      simpa [Manager.lockFree, hasleep] using hfree
    have hunheard : (decide (s.worker = .starting) && s.controller.backUpNow) =
        s.controller.backUpNow := by simp [hstarting]
    rw [hunheard]
    exact .notEntered h.shutDown
  | triggerRun =>
    obtain ⟨_, hstep⟩ := Option.ite_none_right_eq_some.mp hstep
    obtain ⟨rfl, rfl⟩ := Prod.mk.inj (Option.some.inj hstep)
    rw [List.append_nil]
    exact .notEntered ⟨h.worker, h.calls, h.backUpNow, h.heard, h.unheard⟩
  | wake => exact absurd (Option.ite_none_right_eq_some.mp hstep).1 hasleep
  | timeout => exact absurd (Option.ite_none_right_eq_some.mp hstep).1 hasleep
  | doScheduledTasks => exact absurd (Option.ite_none_right_eq_some.mp hstep).1 hidle

/-- A worker that has exited takes no step, and the run is over. -/
private theorem step_exited (h : s.worker = .exited) (label : ManagerLabel) : s.step label = none := by
  cases label <;> simp [Manager.step, Manager.work, Manager.lockFree, h]

/-- Every step keeps the invariant. -/
theorem ManagerInvariant.step (h : ManagerInvariant events s) (hstep : Manager.Step s new s') :
    ManagerInvariant (events ++ new) s' := by
  obtain ⟨label, hstep⟩ := hstep
  cases h with
  | notEntered h => exact notEntered_step h hstep
  | inLoop h => exact inLoop_step h hstep
  | exited h _ => exact absurd hstep (by simp [step_exited h label])

end Steps

/-- **Backups survive a shutdown that is heard.** In every run after `Start`, when the worker has
exited, both stores have been backed up after every `TriggerBackups` that preceded a `ShutDown` if
and only if no `ShutDown` came while a request for backups was pending and the worker had not taken
the lock yet. -/
theorem backedUp_iff {c : WorkerThreadController} {out : List ManagerEvent} {s : Manager}
    (hrun : Run Manager.Step (Manager.start c) out s) (hexit : s.worker = .exited) :
    BackedUp (pendingEvents c ++ out) ↔ .shutDown true ∉ out := by
  have hinv : ManagerInvariant (pendingEvents c ++ out) s := by
    refine Run.invariant (I := fun out s => ManagerInvariant (pendingEvents c ++ out) s) ?_ ?_ hrun
    · rw [List.append_nil]
      exact .notEntered (notEntered_start c)
    · intro out s new s' h hstep
      rw [← List.append_assoc]
      exact h.step hstep
  have hpending : ManagerEvent.shutDown true ∉ pendingEvents c := by
    cases hnow : c.backUpNow <;> simp [pendingEvents, hnow]
  cases hinv with
  | notEntered h => rcases h.worker with h | h <;> simp [h] at hexit
  | inLoop h => exact absurd hexit h.exited
  | exited _ hiff => rw [hiff, List.mem_append, or_iff_right hpending]

/-- A request and a shutdown while the worker sleeps. -/
theorem backedUp_iff_asleep : ∃ s, s.worker = .exited ∧
    Run Manager.Step (Manager.start {}) [.triggerBackups, .shutDown false,
      .backUpLocalAggregateStore, .backUpObservationHistory] s ∧
    BackedUp [.triggerBackups, .shutDown false, .backUpLocalAggregateStore,
      .backUpObservationHistory] := by
  have h₁ := (@Run.nil _ _ Manager.Step (Manager.start {})).snoc ⟨.work, rfl⟩
  have h₂ := (h₁.snoc ⟨.work, rfl⟩).snoc ⟨.work, rfl⟩
  have h₃ := (h₂.snoc ⟨.triggerBackups, rfl⟩).snoc ⟨.shutDown, rfl⟩
  have h₄ := ((h₃.snoc ⟨.wake, rfl⟩).snoc ⟨.work, rfl⟩).snoc ⟨.work, rfl⟩
  exact ⟨_, rfl, h₄, (backedUp_iff h₄ rfl).mpr (by decide)⟩

/-- The data is deleted and the manager shut down before the worker has taken the lock. It backs up
the aggregates and exits; the history is not backed up. -/
theorem not_backedUp_starting : ∃ s, s.worker = .exited ∧
    Run Manager.Step (Manager.start {}) [.triggerBackups, .shutDown true,
      .backUpLocalAggregateStore] s ∧
    ¬ BackedUp [.triggerBackups, .shutDown true, .backUpLocalAggregateStore] := by
  have h₁ := (@Run.nil _ _ Manager.Step (Manager.start {})).snoc ⟨.triggerBackups, rfl⟩
  have h₂ := (h₁.snoc ⟨.shutDown, rfl⟩).snoc ⟨.work, rfl⟩
  have h₃ := h₂.snoc ⟨.work, rfl⟩
  refine ⟨_, rfl, h₃, fun hbacked => ?_⟩
  have hhistory := (hbacked _ List.suffix_rfl ⟨true, by simp⟩).2
  simp at hhistory

end Cobalt.LocalAggregation
