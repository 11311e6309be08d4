import Cobalt.Uploader.Steps
import Cobalt.Uploader.UploadScheduler
import Mathlib.Algebra.Order.Field.Rat

/-!
# How often the shipping manager sends

The loop of `Run` starts with a wait of `MinInterval` on a steady clock. It calls `SendAllEnvelopes`
when the system clock has reached `next_scheduled_send_time_`, or when an expedited send is
requested. After each call the next time is the current one and the next interval of the scheduler.

A timed step is a step of the shipping manager that the clocks allow, or one of the clocks. The
steady clock does not go back; the system clock can be set. Times are in seconds.

## Main definitions

* `Timed`, `Timed.step`: the shipping manager with its clocks, and a record of its passes.
* `Timed.new`: a manager that was constructed.

## Main results

* `Timed.exists_run`: a timed run is a run of the shipping manager.
* `uploadRate`: passes are `MinInterval` apart, and a pass that was not requested keeps the back-off
  of the scheduler.
-/

namespace Cobalt.Uploader

/-! ### The clocks -/

/-- What the clocks show. -/
structure Instant where
  steady : ℚ
  system : ℚ
  deriving DecidableEq, Repr

/-- The start of a call of `SendAllEnvelopes`, and whether an expedited send was requested then. -/
structure PassStart extends Instant where
  expedited : Bool
  deriving DecidableEq, Repr

/-- A shipping manager with its clocks.

The last two fields are a record of the run: the starts of the calls of `SendAllEnvelopes`, and the
construction of the manager, followed by the ends of these calls. -/
structure Timed where
  state : State
  scheduler : UploadScheduler
  clock : Instant
  wakeTime : ℚ
  nextScheduledSendTime : ℚ
  starts : List PassStart
  ends : List Instant

/-- A step of the clocks, of a thread other than the worker thread, or of the worker thread. -/
inductive TimedLabel
  | clocks (elapsed system : ℚ)
  | other (label : Label)
  | worker (taken : List ℕ) (result : SendResult) (noEnvelope : Bool := false)

namespace Timed

/-- The constructor, with the first call of `Interval`. -/
def new (scheduler : UploadScheduler) (clock : Instant) : Option Timed :=
  scheduler.interval.map fun (interval, scheduler) =>
    { state := {}
      scheduler := scheduler
      clock := clock
      wakeTime := clock.steady
      nextScheduledSendTime := clock.system + interval
      starts := []
      ends := [clock] }

/-- The wait of the worker thread, if it is in one, can end. -/
def waitIsOver (t : Timed) : Bool :=
  match t.state.pc with
  | .sleeping => t.state.shutDown || t.wakeTime ≤ t.clock.steady
  | .waitingForSchedule =>
    t.state.shutDown || t.state.expeditedSendRequested || t.nextScheduledSendTime ≤ t.clock.system
  | _ => true

/-- The end of a call of `SendAllEnvelopes`, after which the next one is scheduled. -/
def passEnds (t : Timed) (state : State) : Option Timed :=
  t.scheduler.interval.map fun (interval, scheduler) =>
    { t with
      state := state
      scheduler := scheduler
      nextScheduledSendTime := t.clock.system + interval
      ends := t.ends ++ [t.clock] }

/-- A step of the worker thread to a state, with the clocks. -/
def workerStep (t : Timed) (state : State) : Option Timed :=
  match t.state.pc, state.pc with
  | .top, _ => some { t with state := state, wakeTime := t.clock.steady + t.scheduler.minInterval }
  | .awake, .startSending =>
    some { t with
      state := state
      starts := t.starts ++ [⟨t.clock, t.state.expeditedSendRequested⟩] }
  | .startSending, .top | .invokeCallbacks, .top => t.passEnds state
  | _, _ => some { t with state := state }

/-- A timed step. The worker thread sends when the scheduled time is reached. -/
def step (t : Timed) : TimedLabel → Option Timed
  | .clocks elapsed system =>
    if 0 ≤ elapsed then some { t with clock := ⟨t.clock.steady + elapsed, system⟩ } else none
  | .other (.worker _) => none
  | .other label => (t.state.step label).map fun state => { t with state := state }
  | .worker taken result noEnvelope =>
    if t.waitIsOver then
      (t.state.worker ⟨t.nextScheduledSendTime ≤ t.clock.system, taken, result, noEnvelope⟩).bind
        t.workerStep
    else none

/-- Several timed steps. -/
def run (t : Timed) (labels : List TimedLabel) : Option Timed := labels.foldlM step t

/-! ### The places of the worker thread -/

variable {t t' : Timed} {s s' : State} {choice : Choice} {label : TimedLabel}

/-- How the worker thread goes to sleep and wakes up, and how it enters and leaves a pass. -/
theorem pc_cases_of_worker (hstep : s.worker choice = some s') :
    (s.pc = .top ∧ (s'.pc = .exited ∨ s'.pc = .sleeping)) ∨
    (s.pc = .sleeping ∧ (s'.pc = .exited ∨ s'.pc = .awake ∧ s.shutDown = false)) ∨
    (s.pc = .awake ∧ (s'.pc = .goingIdle ∨ s'.pc = .waitingForSchedule ∨
      s'.pc = .startSending ∧ (choice.due = true ∨ s.expeditedSendRequested = true))) ∨
    (¬ s.InPass ∧ (s.pc ≠ .top ∧ s.pc ≠ .sleeping ∧ s.pc ≠ .awake) ∧
      (s'.pc = .top ∨ s'.pc = .waitingForObservations)) ∨
    ((s.pc = .startSending ∨ s.pc = .invokeCallbacks) ∧ s'.pc = .top) ∨
    (s.InPass ∧ s'.InPass ∧ s'.pc ≠ .startSending) := by
  unfold State.worker at hstep
  cases hpc : s.pc <;> simp only [hpc] at hstep
  case notStarted | exited => cases hstep
  case top =>
    obtain rfl := Option.some.inj hstep
    refine Or.inl ⟨rfl, ?_⟩
    dsimp only
    split <;> simp
  case sleeping =>
    obtain rfl := Option.some.inj hstep
    refine Or.inr (Or.inl ⟨rfl, ?_⟩)
    dsimp only
    split <;> simp_all
  case awake =>
    refine Or.inr (Or.inr (Or.inl ⟨rfl, ?_⟩))
    split_ifs at hstep with havailable hdue
    · obtain rfl := Option.some.inj hstep
      exact Or.inl rfl
    · obtain rfl := Option.some.inj hstep
      exact Or.inr (Or.inr ⟨rfl, by simpa using hdue⟩)
    · obtain rfl := Option.some.inj hstep
      exact Or.inr (Or.inl rfl)
  case goingIdle =>
    obtain rfl := Option.some.inj hstep
    exact Or.inr (Or.inr (Or.inr (Or.inl ⟨by simp [State.InPass, hpc], by simp, Or.inr rfl⟩)))
  case waitingForObservations =>
    obtain ⟨-, heq⟩ := Option.ite_none_right_eq_some.mp hstep
    obtain rfl := Option.some.inj heq
    exact Or.inr (Or.inr (Or.inr (Or.inl ⟨by simp [State.InPass, hpc], by simp, Or.inl rfl⟩)))
  case waitingForSchedule =>
    obtain rfl := Option.some.inj hstep
    exact Or.inr (Or.inr (Or.inr (Or.inl ⟨by simp [State.InPass, hpc], by simp, Or.inl rfl⟩)))
  case startSending =>
    split_ifs at hstep
    · obtain rfl := Option.some.inj hstep
      exact Or.inr (Or.inr (Or.inr (Or.inr (Or.inl ⟨Or.inl rfl, rfl⟩))))
    · obtain rfl := Option.some.inj hstep
      simp [State.InPass, hpc]
  case takeNext =>
    split_ifs at hstep
    all_goals
      obtain rfl := Option.some.inj hstep
      simp [State.InPass, hpc]
  case sending =>
    cases hresult : choice.result <;> simp only [hresult] at hstep
    all_goals
      obtain rfl := Option.some.inj hstep
      simp [State.InPass, hpc]
  case returning =>
    obtain rfl := Option.some.inj hstep
    refine Or.inr (Or.inr (Or.inr (Or.inr (Or.inr ⟨by simp [State.InPass, hpc], ?_, ?_⟩))))
    · simp only [State.InPass]
      split <;> simp
    · dsimp only
      split <;> simp
  case invokeCallbacks =>
    obtain rfl := Option.some.inj hstep
    exact Or.inr (Or.inr (Or.inr (Or.inr (Or.inl ⟨Or.inr rfl, rfl⟩))))

/-- What a timed step does with the clocks and the record. -/
inductive Effect (t : Timed) : Timed → Prop
  | quiet {state : State} (inPass : state.InPass ↔ t.state.InPass)
      (sleeping : state.pc = .sleeping → t.state.pc = .sleeping)
      (awake : state.pc = .awake → t.state.pc = .awake) : Effect t { t with state := state }
  | clocks {elapsed system : ℚ} (elapsed_nonneg : 0 ≤ elapsed) :
      Effect t { t with clock := ⟨t.clock.steady + elapsed, system⟩ }
  | sleeps {state : State} (inPass : ¬ t.state.InPass) (inPass' : ¬ state.InPass)
      (awake : state.pc ≠ .awake) :
      Effect t { t with state := state, wakeTime := t.clock.steady + t.scheduler.minInterval }
  | wakes {state : State} (sleeping : t.state.pc = .sleeping) (awake : state.pc = .awake)
      (waited : t.wakeTime ≤ t.clock.steady) : Effect t { t with state := state }
  | starts {state : State} (awake : t.state.pc = .awake) (starts : state.pc = .startSending)
      (due : t.state.expeditedSendRequested = true ∨ t.nextScheduledSendTime ≤ t.clock.system) :
      Effect t { t with
        state := state
        starts := t.starts ++ [⟨t.clock, t.state.expeditedSendRequested⟩] }
  | ends {state : State} {interval : ℤ} {scheduler : UploadScheduler} (inPass : t.state.InPass)
      (top : state.pc = .top) (interval_eq : t.scheduler.interval = some (interval, scheduler)) :
      Effect t { t with
        state := state
        scheduler := scheduler
        nextScheduledSendTime := t.clock.system + interval
        ends := t.ends ++ [t.clock] }

theorem exists_of_step_other {l : Label} (hstep : t.step (.other l) = some t') :
    (∀ choice, l ≠ .worker choice) ∧
      ∃ state, t.state.step l = some state ∧ { t with state := state } = t' := by
  have hl : ∀ choice, l ≠ .worker choice := by
    rintro choice rfl
    cases hstep
  have hmap : (t.state.step l).map (fun state => { t with state := state }) = some t' := by
    cases l with
    | worker choice => exact absurd rfl (hl choice)
    | _ => exact hstep
  exact ⟨hl, Option.map_eq_some_iff.mp hmap⟩

/-- A step of another thread does not move the worker thread, apart from its start. -/
theorem effect_of_other {l : Label} (hl : ∀ choice, l ≠ .worker choice)
    (hstep : t.state.step l = some s') : t.Effect { t with state := s' } := by
  rcases State.step_cases hstep with ⟨choice, rfl, -⟩ | ⟨hpc, rfl⟩ | hbeside
  · exact absurd rfl (hl choice)
  · exact .quiet (by simp [State.InPass, hpc]) (by simp) (by simp)
  · exact .quiet (by rw [State.InPass, State.InPass, hbeside.pc]) (hbeside.pc ▸ id)
      (hbeside.pc ▸ id)

/-- A step that neither starts a wait nor starts or ends a pass. -/
theorem workerStep_eq (htop : t.state.pc ≠ .top)
    (hstart : t.state.pc = .awake → s'.pc ≠ .startSending)
    (hend : t.state.pc = .startSending ∨ t.state.pc = .invokeCallbacks → s'.pc ≠ .top) :
    t.workerStep s' = some { t with state := s' } := by
  unfold workerStep
  split
  · exact absurd ‹_› htop
  · exact absurd ‹_› (hstart ‹_›)
  · exact absurd ‹_› (hend (Or.inl ‹_›))
  · exact absurd ‹_› (hend (Or.inr ‹_›))
  · rfl

/-- A step of the worker thread. -/
theorem effect_of_worker {taken : List ℕ} {result : SendResult} {noEnvelope : Bool}
    (hover : t.waitIsOver = true)
    (hstep : t.state.worker
      ⟨t.nextScheduledSendTime ≤ t.clock.system, taken, result, noEnvelope⟩ = some s')
    (hworker : t.workerStep s' = some t') : t.Effect t' := by
  rcases pc_cases_of_worker hstep with ⟨hpc, hpc'⟩ | ⟨hpc, hpc'⟩ | ⟨hpc, hpc'⟩ |
    ⟨hout, ⟨htop, hsleeping, hawake⟩, hpc'⟩ | ⟨hpc, hpc'⟩ | ⟨hpass, hpass', hstart⟩
  · simp only [workerStep, hpc] at hworker
    obtain rfl := Option.some.inj hworker
    rcases hpc' with hpc' | hpc'
    · exact .sleeps (by simp [State.InPass, hpc]) (by simp [State.InPass, hpc']) (by simp [hpc'])
    · exact .sleeps (by simp [State.InPass, hpc]) (by simp [State.InPass, hpc']) (by simp [hpc'])
  · simp only [workerStep, hpc] at hworker
    obtain rfl := Option.some.inj hworker
    rcases hpc' with hpc' | ⟨hpc', hrunning⟩
    · exact .quiet (by simp [State.InPass, hpc, hpc']) (by simp [hpc']) (by simp [hpc'])
    · refine .wakes hpc hpc' ?_
      simpa [waitIsOver, hpc, hrunning] using hover
  · rcases hpc' with hpc' | hpc' | ⟨hpc', hdue⟩
    · simp only [workerStep, hpc, hpc'] at hworker
      obtain rfl := Option.some.inj hworker
      exact .quiet (by simp [State.InPass, hpc, hpc']) (by simp [hpc']) (by simp [hpc'])
    · simp only [workerStep, hpc, hpc'] at hworker
      obtain rfl := Option.some.inj hworker
      exact .quiet (by simp [State.InPass, hpc, hpc']) (by simp [hpc']) (by simp [hpc'])
    · simp only [workerStep, hpc, hpc'] at hworker
      obtain rfl := Option.some.inj hworker
      exact .starts hpc hpc' (hdue.symm.imp_right of_decide_eq_true)
  · have hrecord : t.workerStep s' = some { t with state := s' } :=
      workerStep_eq htop (fun hpc => absurd hpc hawake) fun hpc =>
        absurd (by rcases hpc with hpc | hpc <;> simp [State.InPass, hpc]) hout
    obtain rfl := Option.some.inj (hrecord.symm.trans hworker)
    rcases hpc' with hpc' | hpc'
    · exact .quiet (by simp [State.InPass, hpc'] at hout ⊢; tauto) (by simp [hpc']) (by simp [hpc'])
    · exact .quiet (by simp [State.InPass, hpc'] at hout ⊢; tauto) (by simp [hpc']) (by simp [hpc'])
  · have hrecord : t.workerStep s' = t.passEnds s' := by
      rcases hpc with hpc | hpc <;> simp only [workerStep, hpc, hpc']
    rw [hrecord, passEnds] at hworker
    obtain ⟨⟨interval, scheduler⟩, hinterval, rfl⟩ := Option.map_eq_some_iff.mp hworker
    exact .ends (by rcases hpc with hpc | hpc <;> simp [State.InPass, hpc]) hpc' hinterval
  · have hout (hpc : t.state.pc = .top ∨ t.state.pc = .awake) : False := by
      rcases hpc with hpc | hpc <;> simp [State.InPass, hpc] at hpass
    have hrecord : t.workerStep s' = some { t with state := s' } :=
      workerStep_eq (fun hpc => hout (Or.inl hpc)) (fun hpc => absurd (Or.inr hpc) hout)
        fun _ hpc => by simp [State.InPass, hpc] at hpass'
    obtain rfl := Option.some.inj (hrecord.symm.trans hworker)
    exact .quiet (iff_of_true hpass' hpass) (fun hpc => by simp [State.InPass, hpc] at hpass')
      fun hpc => by simp [State.InPass, hpc] at hpass'

/-- Every timed step has one of these effects. -/
theorem effect_of_step (hstep : t.step label = some t') : t.Effect t' := by
  cases label with
  | clocks elapsed system =>
    obtain ⟨helapsed, heq⟩ := Option.ite_none_right_eq_some.mp hstep
    obtain rfl := Option.some.inj heq
    exact .clocks helapsed
  | other l =>
    obtain ⟨hl, state, hstate, rfl⟩ := exists_of_step_other hstep
    exact effect_of_other hl hstate
  | worker taken result noEnvelope =>
    obtain ⟨hover, heq⟩ := Option.ite_none_right_eq_some.mp hstep
    obtain ⟨state, hstate, hworker⟩ := Option.bind_eq_some_iff.mp heq
    exact effect_of_worker hover hstate hworker

/-! ### The timed runs -/

theorem state_of_workerStep (hworker : t.workerStep s' = some t') : t'.state = s' := by
  unfold workerStep at hworker
  split at hworker
  case h_3 | h_4 =>
    obtain ⟨interval, -, rfl⟩ := Option.map_eq_some_iff.mp hworker
    rfl
  all_goals
    obtain rfl := Option.some.inj hworker
    rfl

theorem state_of_step (hstep : t.step label = some t') :
    t'.state = t.state ∨ ∃ l, t.state.step l = some t'.state := by
  cases label with
  | clocks elapsed system =>
    obtain ⟨-, heq⟩ := Option.ite_none_right_eq_some.mp hstep
    obtain rfl := Option.some.inj heq
    exact Or.inl rfl
  | other l =>
    obtain ⟨-, state, hstate, rfl⟩ := exists_of_step_other hstep
    exact Or.inr ⟨l, hstate⟩
  | worker taken result noEnvelope =>
    obtain ⟨-, heq⟩ := Option.ite_none_right_eq_some.mp hstep
    obtain ⟨state, hstate, hworker⟩ := Option.bind_eq_some_iff.mp heq
    refine Or.inr
      ⟨.worker ⟨t.nextScheduledSendTime ≤ t.clock.system, taken, result, noEnvelope⟩, ?_⟩
    rw [state_of_workerStep hworker]
    exact hstate

/-- A timed run is a run of the shipping manager. -/
theorem exists_run {labels : List TimedLabel} (hrun : t.run labels = some t') :
    ∃ untimed, t.state.run untimed = some t'.state := by
  induction labels generalizing t with
  | nil =>
    obtain rfl := Option.some.inj hrun
    exact ⟨[], rfl⟩
  | cons label labels ih =>
    obtain ⟨t₁, hstep, hrun⟩ := Option.bind_eq_some_iff.mp hrun
    obtain ⟨untimed, huntimed⟩ := ih hrun
    rcases state_of_step hstep with hstate | ⟨l, hstate⟩
    · exact ⟨untimed, hstate ▸ huntimed⟩
    · exact ⟨l :: untimed, by rw [State.run, List.foldlM_cons, hstate]; exact huntimed⟩

end Timed

namespace UploadScheduler

variable {s next : UploadScheduler} {interval : ℤ}

theorem minInterval_of_interval (h : s.interval = some (interval, next)) :
    next.minInterval = s.minInterval := by
  unfold UploadScheduler.interval at h
  split_ifs at h
  · obtain ⟨-, heq⟩ := Option.ite_none_right_eq_some.mp h
    obtain ⟨-, rfl⟩ := Prod.mk.inj (Option.some.inj heq)
    rfl
  · obtain ⟨-, rfl⟩ := Prod.mk.inj (Option.some.inj h)
    rfl

theorem intervalAt_zero_of_interval (h : s.interval = some (interval, next)) :
    s.intervalAt 0 = some interval := by
  rw [intervalAt, h, Option.map_some]

theorem intervalAt_succ_of_interval (h : s.interval = some (interval, next)) (k : ℕ) :
    s.intervalAt (k + 1) = next.intervalAt k := by
  rw [intervalAt, h, Option.bind_some]

end UploadScheduler

namespace Timed

variable {t t' : Timed} {label : TimedLabel}

/-- The minimum between two passes, and the back-off: what holds of the pass that starts after some
others, where the end of the one before it, or the construction, is given. -/
structure Paced (scheduler : UploadScheduler) (minInterval : ℤ) (k : ℕ) (previous : Instant)
    (start : PassStart) : Prop where
  rest : previous.steady + minInterval ≤ start.steady
  scheduled : start.expedited = true ∨
    ∃ interval, scheduler.intervalAt k = some interval ∧ previous.system + interval ≤ start.system

/-- The invariant of a timed run of a manager with a scheduler. -/
structure Inv (scheduler : UploadScheduler) (t : Timed) : Prop where
  minInterval : t.scheduler.minInterval = scheduler.minInterval
  intervals : ∀ k, t.scheduler.intervalAt k = scheduler.intervalAt (k + t.ends.length)
  inPass : t.state.InPass → t.ends.length = t.starts.length
  notInPass : ¬ t.state.InPass → t.ends.length = t.starts.length + 1
  next : ∃ interval previous, t.ends[t.ends.length - 1]? = some previous ∧
    scheduler.intervalAt (t.ends.length - 1) = some interval ∧
    t.nextScheduledSendTime = previous.system + interval
  past : ∀ previous ∈ t.ends, previous.steady ≤ t.clock.steady
  sleeping : t.state.pc = .sleeping →
    ∀ previous ∈ t.ends, previous.steady + scheduler.minInterval ≤ t.wakeTime
  awake : t.state.pc = .awake →
    ∀ previous ∈ t.ends, previous.steady + scheduler.minInterval ≤ t.clock.steady
  paced : ∀ k start, t.starts[k]? = some start →
    ∃ previous, t.ends[k]? = some previous ∧
      Paced scheduler scheduler.minInterval k previous start

namespace Inv

variable {scheduler : UploadScheduler}

/-- A manager that was constructed. -/
theorem new {clock : Instant} (hnew : Timed.new scheduler clock = some t) : t.Inv scheduler := by
  obtain ⟨⟨interval, next⟩, hinterval, rfl⟩ := Option.map_eq_some_iff.mp hnew
  exact {
    minInterval := UploadScheduler.minInterval_of_interval hinterval
    intervals := fun k => (UploadScheduler.intervalAt_succ_of_interval hinterval k).symm
    inPass := fun h => absurd h (by simp [State.InPass])
    notInPass := fun _ => rfl
    next := ⟨interval, clock, rfl, UploadScheduler.intervalAt_zero_of_interval hinterval, rfl⟩
    past := fun previous h => by rw [List.mem_singleton.mp h]
    sleeping := fun h => absurd h (by simp)
    awake := fun h => absurd h (by simp)
    paced := fun k start h => absurd h (by simp) }

/-- A pass starts. The wait is over, and the pass is requested or scheduled. -/
theorem starts (h : t.Inv scheduler) {state : State} (awake : t.state.pc = .awake)
    (starts : state.pc = .startSending)
    (due : t.state.expeditedSendRequested = true ∨ t.nextScheduledSendTime ≤ t.clock.system) :
    Inv scheduler { t with
      state := state
      starts := t.starts ++ [⟨t.clock, t.state.expeditedSendRequested⟩] } := by
  have hlength := h.notInPass (by simp [State.InPass, awake])
  obtain ⟨interval, previous, hprevious, hinterval, hnext⟩ := h.next
  rw [hlength, Nat.add_sub_cancel] at hprevious hinterval
  exact { h with
    inPass := fun _ => by simp [hlength]
    notInPass := fun hout => absurd (by simp [State.InPass, starts]) hout
    next := h.next
    sleeping := fun hpc => absurd hpc (by simp [starts])
    awake := fun hpc => absurd hpc (by simp [starts])
    paced := fun k start hstart => by
      rcases Nat.lt_trichotomy k t.starts.length with hk | rfl | hk
      · rw [List.getElem?_append_left hk] at hstart
        exact h.paced k start hstart
      · rw [List.getElem?_concat_length] at hstart
        obtain rfl := Option.some.inj hstart
        refine ⟨previous, hprevious, h.awake awake previous (List.mem_of_getElem? hprevious),
          due.imp_right fun hdue => ⟨interval, hinterval, hnext ▸ hdue⟩⟩
      · rw [List.getElem?_eq_none (by simp; omega)] at hstart
        cases hstart }

/-- A pass ends. The next one is scheduled. -/
theorem ends (h : t.Inv scheduler) {state : State} {interval : ℤ} {next : UploadScheduler}
    (inPass : t.state.InPass) (top : state.pc = .top)
    (interval_eq : t.scheduler.interval = some (interval, next)) :
    Inv scheduler { t with
      state := state
      scheduler := next
      nextScheduledSendTime := t.clock.system + interval
      ends := t.ends ++ [t.clock] } := by
  have hout : ¬ state.InPass := by simp [State.InPass, top]
  have hzero := h.intervals 0
  rw [UploadScheduler.intervalAt_zero_of_interval interval_eq, Nat.zero_add] at hzero
  exact {
    minInterval := (UploadScheduler.minInterval_of_interval interval_eq).trans h.minInterval
    intervals := fun k => by
      rw [← UploadScheduler.intervalAt_succ_of_interval interval_eq, h.intervals,
        List.length_append, List.length_singleton, Nat.add_assoc, Nat.add_comm 1]
    inPass := fun hpass => absurd hpass hout
    notInPass := fun _ => by
      rw [List.length_append, List.length_singleton, h.inPass inPass]
    next := ⟨interval, t.clock, by simp, by simpa using hzero.symm, rfl⟩
    past := fun previous hmem => by
      rcases List.mem_append.mp hmem with hold | hnew
      · exact h.past previous hold
      · rw [List.mem_singleton.mp hnew]
    sleeping := fun hpc => absurd hpc (by simp [top])
    awake := fun hpc => absurd hpc (by simp [top])
    paced := fun k start hstart => by
      obtain ⟨previous, hprevious, hpaced⟩ := h.paced k start hstart
      have hk := (List.getElem?_eq_some_iff.mp hprevious).1
      exact ⟨previous, by rwa [List.getElem?_append_left hk], hpaced⟩ }

/-- Every timed step keeps the invariant. -/
theorem step (h : t.Inv scheduler) (hstep : t.step label = some t') : t'.Inv scheduler := by
  cases effect_of_step hstep with
  | quiet inPass sleeping awake =>
    exact { h with
      inPass := fun hpass => h.inPass (inPass.mp hpass)
      notInPass := fun hout => h.notInPass (hout ∘ inPass.mpr)
      sleeping := fun hpc => h.sleeping (sleeping hpc)
      awake := fun hpc => h.awake (awake hpc) }
  | clocks elapsed_nonneg =>
    exact { h with
      past := fun previous hmem => (h.past previous hmem).trans (le_add_of_nonneg_right elapsed_nonneg)
      awake := fun hpc previous hmem =>
        (h.awake hpc previous hmem).trans (le_add_of_nonneg_right elapsed_nonneg) }
  | sleeps inPass inPass' awake =>
    exact { h with
      inPass := fun hpass => absurd hpass inPass'
      notInPass := fun _ => h.notInPass inPass
      sleeping := fun _ previous hmem => by
        rw [h.minInterval]
        exact add_le_add_left (h.past previous hmem) _
      awake := fun hpc => absurd hpc awake }
  | wakes sleeping awake waited =>
    exact { h with
      inPass := fun hpass => absurd hpass (by simp [State.InPass, awake])
      notInPass := fun _ => h.notInPass (by simp [State.InPass, sleeping])
      sleeping := fun hpc => absurd hpc (by simp [awake])
      awake := fun _ previous hmem => (h.sleeping sleeping previous hmem).trans waited }
  | starts awake starts due => exact h.starts awake starts due
  | ends inPass top interval_eq => exact h.ends inPass top interval_eq

theorem run (h : t.Inv scheduler) {labels : List TimedLabel} (hrun : t.run labels = some t') :
    t'.Inv scheduler := by
  induction labels generalizing t with
  | nil =>
    obtain rfl := Option.some.inj hrun
    exact h
  | cons label labels ih =>
    obtain ⟨t₁, hstep, hrun⟩ := Option.bind_eq_some_iff.mp hrun
    exact ih (h.step hstep) hrun

end Inv

end Timed

/-- **How often the shipping manager sends.** In every timed run of a manager that was constructed,
which is a run of the shipping manager, the call of `SendAllEnvelopes` after `k` others starts at
least `MinInterval` after the end of the one before it, or after the construction; and unless an
expedited send is requested, not before the interval that the call of `Interval` after `k` others
returns. Envelopes are sent between the start and the end of such a call. -/
theorem uploadRate {targetInterval minInterval initialInterval : ℤ} {scheduler : UploadScheduler}
    (hscheduler : UploadScheduler.new targetInterval minInterval initialInterval = some scheduler)
    (hinitial : 0 < initialInterval) {clock : Instant} {t t' : Timed}
    (hnew : Timed.new scheduler clock = some t) {labels : List TimedLabel}
    (hrun : t.run labels = some t') :
    (∃ untimed, State.run {} untimed = some t'.state) ∧
      (t'.state.InPass ↔ t'.ends.length = t'.starts.length) ∧
      ∀ (k : ℕ) (start : PassStart), t'.starts[k]? = some start →
        ∃ previous : Instant, t'.ends[k]? = some previous ∧
          previous.steady + (minInterval : ℚ) ≤ start.steady ∧
          (start.expedited = true ∨ previous.system +
            ((min (initialInterval * 2 ^ k) targetInterval : ℤ) : ℚ) ≤ start.system) := by
  have hinv := (Timed.Inv.new hnew).run hrun
  rw [UploadScheduler.new, Option.ite_none_right_eq_some] at hscheduler
  obtain ⟨⟨-, hle, -, hmax⟩, heq⟩ := hscheduler
  obtain rfl := Option.some.inj heq
  refine ⟨?_, ⟨hinv.inPass, fun hlength => ?_⟩, fun k start hstart => ?_⟩
  · obtain ⟨untimed, huntimed⟩ := Timed.exists_run hrun
    obtain ⟨interval, -, rfl⟩ := Option.map_eq_some_iff.mp hnew
    exact ⟨untimed, huntimed⟩
  · by_contra hout
    have hnotInPass := hinv.notInPass hout
    omega
  · obtain ⟨previous, hprevious, hpaced⟩ := hinv.paced k start hstart
    refine ⟨previous, hprevious, hpaced.rest, hpaced.scheduled.imp_right fun hscheduled => ?_⟩
    obtain ⟨interval, hinterval, hle'⟩ := hscheduled
    rw [UploadScheduler.intervalAt_of_pos hinitial hle hmax] at hinterval
    obtain rfl := Option.some.inj hinterval
    exact hle'

/-- An observation is sent in the first scheduled pass, and the next wait begins. -/
def firstPass : List TimedLabel :=
  [.other .addObservation, .other .start, .worker [] .sent, .clocks 10 100, .worker [] .sent,
    .worker [] .sent, .clocks 0 160, .worker [] .sent, .worker [] .sent, .clocks 10 170,
    .worker [] .sent, .worker [] .sent, .worker [] .sent, .worker [0] .sent, .worker [] .sent,
    .worker [] .sent, .worker [] .sent]

/-- The first pass of a manager that is to send every hour, and after a minute at first. -/
theorem uploadRate_firstPass :
    ∃ scheduler t t', UploadScheduler.new 3600 10 60 = some scheduler ∧
      Timed.new scheduler ⟨0, 90⟩ = some t ∧ t.run firstPass = some t' ∧
      t'.starts.length = 1 ∧ ∀ start, t'.starts[0]? = some start →
        ∃ previous : Instant, t'.ends[0]? = some previous ∧
          previous.steady + 10 ≤ start.steady ∧
          (start.expedited = true ∨ previous.system + 60 ≤ start.system) := by
  obtain ⟨t, hnew⟩ : ∃ t, Timed.new ⟨60, 3600, 10⟩ ⟨0, 90⟩ = some t := ⟨_, rfl⟩
  have hstarts : ((Timed.new ⟨60, 3600, 10⟩ ⟨0, 90⟩).bind fun t => t.run firstPass).map
      (fun t' => t'.starts.length) = some 1 := by decide +kernel
  rw [hnew, Option.bind_some] at hstarts
  obtain ⟨t', hrun, hlength⟩ := Option.map_eq_some_iff.mp hstarts
  refine ⟨⟨60, 3600, 10⟩, t, t', rfl, hnew, hrun, hlength, fun start hstart => ?_⟩
  have hrate := (uploadRate (rfl : UploadScheduler.new 3600 10 60 = some _) (by decide) hnew
    hrun).2.2 0 start hstart
  simpa using hrate

end Cobalt.Uploader
