import Cobalt.Uploader.ShippingManager
import Mathlib.Data.List.Perm.Basic

/-!
# The steps of the shipping manager

What a step of the worker thread does with the observations, and what the steps of the other threads
leave as it is. From this it follows where the observations are after every run.

## Main definitions

* `State.InPass`: the worker thread is in `SendAllEnvelopes`.
* `State.Beside`: what the steps of the other threads leave as it is.
* `State.WorkerStep`: what a step of the worker thread does with the observations.
* `State.Sound`: where the observations are.

## Main results

* `State.step_cases`, `State.workerStep_of_worker`: every step is one of these.
* `State.Sound.step`, `State.Sound.run`: where the observations are, in every run.
-/

namespace Cobalt.Uploader

/-- The worker thread is in `SendAllEnvelopes`. -/
def State.InPass (s : State) : Prop :=
  s.pc = .startSending ∨ s.pc = .takeNext ∨ s.pc = .sending ∨ s.pc = .returning ∨
    s.pc = .invokeCallbacks

/-- The observations that are not sent: in the store, and in the envelope that is sent just now. -/
def State.unsent (s : State) : List ℕ := s.store ++ s.holder

/-! ### The steps of the other threads -/

/-- What the steps of the other threads leave as it is, apart from an observation that is added. -/
structure State.Beside (s s' : State) : Prop where
  pc : s'.pc = s.pc
  holder : s'.holder = s.holder
  sent : s'.sent = s.sent
  dropped : s'.dropped = s.dropped
  failuresWithoutSuccess : s'.failuresWithoutSuccess = s.failuresWithoutSuccess
  store : (s'.store = s.store ∧ s'.added = s.added) ∨
    (s'.store = s.store ++ [s.added] ∧ s'.added = s.added + 1)
  idle : s'.idle = true → s.idle = true
  expedited : s.idle = false → s.expeditedSendRequested = true → s'.expeditedSendRequested = true

namespace State

variable {s s' : State}

theorem beside_requestSendSoon (sendCallback : Option SendCallback) :
    s.Beside (s.requestSendSoon sendCallback) := by
  unfold State.requestSendSoon State.requestSendSoonLockHeld
  cases sendCallback with
  | none => constructor <;> simp
  | some callback =>
    dsimp only
    split_ifs with hnow
    · constructor <;> simp_all
    · constructor <;> simp

theorem beside_notifyObservationsAdded (isAlmostFull : Bool) :
    s.Beside (s.notifyObservationsAdded isAlmostFull) := by
  unfold State.notifyObservationsAdded State.requestSendSoonLockHeld
  cases isAlmostFull <;> dsimp only <;> split_ifs <;> constructor <;> simp_all

theorem beside_disable (isDisabled : Bool) : s.Beside (s.disable isDisabled) := by
  unfold State.disable
  cases isDisabled <;> constructor <;> simp

/-- **A step** is one of the worker thread, its start, or one of another thread. -/
theorem step_cases {label : Label} (hstep : s.step label = some s') :
    (∃ choice, label = .worker choice ∧ s.worker choice = some s') ∨
    (s.pc = .notStarted ∧
      s' = { s with idle := false, waitingForSchedule := false, pc := .top }) ∨
    s.Beside s' := by
  cases label with
  | start =>
    obtain ⟨hpc, heq⟩ := Option.ite_none_right_eq_some.mp hstep
    exact Or.inr (Or.inl ⟨hpc, (Option.some.inj heq).symm⟩)
  | addObservation =>
    obtain rfl := Option.some.inj hstep
    exact Or.inr (Or.inr (by constructor <;> simp))
  | recount uncounted otherBytes =>
    obtain rfl := Option.some.inj hstep
    exact Or.inr (Or.inr (by constructor <;> simp))
  | notifyObservationsAdded isAlmostFull =>
    obtain ⟨-, heq⟩ := Option.ite_none_left_eq_some.mp hstep
    obtain rfl := Option.some.inj heq
    exact Or.inr (Or.inr (beside_notifyObservationsAdded isAlmostFull))
  | callRequestSendSoon id =>
    obtain rfl := Option.some.inj hstep
    exact Or.inr (Or.inr (by constructor <;> simp))
  | requestSendSoon caller =>
    obtain ⟨-, heq⟩ := Option.ite_none_left_eq_some.mp hstep
    obtain ⟨sendCallback, -, rfl⟩ := Option.map_eq_some_iff.mp heq
    exact Or.inr (Or.inr { beside_requestSendSoon sendCallback with })
  | disable isDisabled =>
    obtain ⟨-, heq⟩ := Option.ite_none_left_eq_some.mp hstep
    obtain rfl := Option.some.inj heq
    exact Or.inr (Or.inr (beside_disable isDisabled))
  | shutDown =>
    obtain ⟨-, heq⟩ := Option.ite_none_left_eq_some.mp hstep
    obtain rfl := Option.some.inj heq
    exact Or.inr (Or.inr (by constructor <;> simp))
  | worker choice => exact Or.inl ⟨choice, rfl, hstep⟩

end State

/-! ### The steps of the worker thread -/

/-- What a step of the worker thread does with the observations. A quiet step does nothing with
them. -/
inductive State.WorkerStep (s : State) (choice : Choice) : State → Prop
  | quiet {s' : State} (takeNext : s.pc ≠ .takeNext) (sending : s.pc ≠ .sending)
      (returning : s.pc ≠ .returning) (sending' : s'.pc ≠ .sending) (returning' : s'.pc ≠ .returning)
      (store : s'.store = s.store) (holder : s'.holder = s.holder) (sent : s'.sent = s.sent)
      (dropped : s'.dropped = s.dropped) (added : s'.added = s.added)
      (idle : s'.idle = true → s'.pc = .waitingForObservations ∨
        (s.idle = true ∧ s.pc ≠ .notStarted ∧ s.pc ≠ .waitingForObservations))
      (inPass : s.InPass → s'.InPass → s.pc = .startSending ∧ s'.pc = .takeNext ∧
        s'.expeditedSendRequested = s.expeditedSendRequested) : WorkerStep s choice s'
  | stop (takeNext : s.pc = .takeNext) (noEnvelope : choice.noEnvelope = true ∨ s.store = []) :
      WorkerStep s choice { s with pc := .invokeCallbacks }
  | take (takeNext : s.pc = .takeNext) :
      WorkerStep s choice { s with
        store := s.store.filter (· ∉ choice.taken)
        holder := s.store.filter (· ∈ choice.taken)
        pc := .sending }
  | send (sending : s.pc = .sending) (result : choice.result = .sent) :
      WorkerStep s choice { s with
        sent := s.sent ++ s.holder
        holder := []
        failuresWithoutSuccess := 0
        pc := .takeNext }
  | drop (sending : s.pc = .sending) (result : choice.result = .dropped) :
      WorkerStep s choice { s with
        dropped := s.dropped ++ s.holder
        holder := []
        failuresWithoutSuccess := 0
        pc := .takeNext }
  | fail (sending : s.pc = .sending) (result : choice.result = .failed) :
      WorkerStep s choice { s with
        success := false
        failuresWithoutSuccess := s.failuresWithoutSuccess + 1
        pc := .returning }
  | giveBack (returning : s.pc = .returning) :
      WorkerStep s choice { s with
        store := s.store ++ s.holder
        holder := []
        pc := if s.failuresWithoutSuccess ≥ kMaxFailuresWithoutSuccess then .invokeCallbacks
          else .takeNext }

/-- A step from a place where nothing is done with the observations is quiet when it goes to no such
place and leaves the flag `idle` as it is. -/
theorem State.WorkerStep.quiet_of_idle_eq {s s' : State} {choice : Choice}
    (hpc : s.pc ∈ [Pc.top, .sleeping, .awake, .waitingForSchedule, .startSending, .invokeCallbacks])
    (sending' : s'.pc ≠ .sending) (returning' : s'.pc ≠ .returning)
    (store : s'.store = s.store) (holder : s'.holder = s.holder) (sent : s'.sent = s.sent)
    (dropped : s'.dropped = s.dropped) (added : s'.added = s.added) (idle : s'.idle = s.idle)
    (inPass : s.InPass → s'.InPass → s.pc = .startSending ∧ s'.pc = .takeNext ∧
      s'.expeditedSendRequested = s.expeditedSendRequested) : s.WorkerStep choice s' := by
  have hne (pc : Pc) (hout : pc ∉ [Pc.top, .sleeping, .awake, .waitingForSchedule, .startSending,
      .invokeCallbacks]) : s.pc ≠ pc := fun heq => hout (heq ▸ hpc)
  refine .quiet (hne _ (by simp)) (hne _ (by simp)) (hne _ (by simp)) sending' returning' store
    holder sent dropped added (fun hidle => Or.inr ⟨?_, hne _ (by simp), hne _ (by simp)⟩) inPass
  rw [← idle]
  exact hidle

theorem State.workerStep_of_worker {s s' : State} {choice : Choice}
    (hstep : s.worker choice = some s') : s.WorkerStep choice s' := by
  unfold State.worker at hstep
  cases hpc : s.pc <;> simp only [hpc] at hstep
  case notStarted => cases hstep
  case exited => cases hstep
  case top | sleeping =>
    obtain rfl := Option.some.inj hstep
    refine .quiet_of_idle_eq (by simp [hpc]) ?_ ?_ rfl rfl rfl rfl rfl rfl
      (by simp [State.InPass, hpc])
    · dsimp only; split <;> simp
    · dsimp only; split <;> simp
  case awake =>
    split_ifs at hstep
    all_goals
      obtain rfl := Option.some.inj hstep
      exact .quiet_of_idle_eq (by simp [hpc]) (by simp) (by simp) rfl rfl rfl rfl rfl rfl
        (by simp [State.InPass, hpc])
  case goingIdle =>
    obtain rfl := Option.some.inj hstep
    exact .quiet (by simp [hpc]) (by simp [hpc]) (by simp [hpc]) (by simp) (by simp)
      rfl rfl rfl rfl rfl (fun _ => Or.inl rfl) (by simp [State.InPass, hpc])
  case waitingForObservations =>
    obtain ⟨-, heq⟩ := Option.ite_none_right_eq_some.mp hstep
    obtain rfl := Option.some.inj heq
    exact .quiet (by simp [hpc]) (by simp [hpc]) (by simp [hpc]) (by simp) (by simp)
      rfl rfl rfl rfl rfl (by simp) (by simp [State.InPass, hpc])
  case waitingForSchedule =>
    obtain rfl := Option.some.inj hstep
    exact .quiet_of_idle_eq (by simp [hpc]) (by simp) (by simp) rfl rfl rfl rfl rfl rfl
      (by simp [State.InPass, hpc])
  case startSending =>
    split_ifs at hstep
    all_goals
      obtain rfl := Option.some.inj hstep
      exact .quiet_of_idle_eq (by simp [hpc]) (by simp) (by simp) rfl rfl rfl rfl rfl rfl
        (by simp [State.InPass, hpc])
  case takeNext =>
    split_ifs at hstep with hnone
    · obtain rfl := Option.some.inj hstep
      simp only [Bool.or_eq_true, Bool.and_eq_true, List.isEmpty_iff] at hnone
      exact .stop hpc (hnone.imp_right And.left)
    · obtain rfl := Option.some.inj hstep
      exact .take hpc
  case sending =>
    cases hresult : choice.result <;> simp only [hresult] at hstep
    case sent =>
      obtain rfl := Option.some.inj hstep
      exact .send hpc hresult
    case dropped =>
      obtain rfl := Option.some.inj hstep
      exact .drop hpc hresult
    case failed =>
      obtain rfl := Option.some.inj hstep
      exact .fail hpc hresult
  case returning =>
    obtain rfl := Option.some.inj hstep
    exact .giveBack hpc
  case invokeCallbacks =>
    obtain rfl := Option.some.inj hstep
    exact .quiet_of_idle_eq (by simp [hpc]) (by simp) (by simp) rfl rfl rfl rfl rfl rfl
      (by simp [State.InPass])

/-! ### Moving observations -/

section Partition

variable {store holder sent dropped rest l : List ℕ}

theorem partition_add {n : ℕ} (h : (store ++ rest).Perm (List.range n)) :
    (store ++ [n] ++ rest).Perm (List.range (n + 1)) := by
  have hperm : (store ++ [n] ++ rest).Perm (store ++ rest ++ [n]) := by
    rw [List.append_assoc, List.append_assoc]
    exact List.perm_append_comm.append_left _
  rw [List.range_succ]
  exact hperm.trans (h.append_right _)

theorem partition_take (h : (store ++ ([] ++ rest)).Perm l) (taken : List ℕ) :
    (store.filter (· ∉ taken) ++ (store.filter (· ∈ taken) ++ rest)).Perm l := by
  have hfilter := List.filter_append_perm (fun o => decide (o ∉ taken)) store
  simp only [decide_not, Bool.not_not] at hfilter
  rw [← List.append_assoc]
  refine List.Perm.trans (List.Perm.append_right _ ?_) h
  simpa using hfilter

theorem partition_sent (h : (store ++ (holder ++ (sent ++ dropped))).Perm l) :
    (store ++ ([] ++ (sent ++ holder ++ dropped))).Perm l := by
  have hcomm : (sent ++ holder ++ dropped).Perm (holder ++ (sent ++ dropped)) := by
    rw [← List.append_assoc]
    exact List.perm_append_comm.append_right _
  exact (hcomm.append_left _).trans h

theorem partition_dropped (h : (store ++ (holder ++ (sent ++ dropped))).Perm l) :
    (store ++ ([] ++ (sent ++ (dropped ++ holder)))).Perm l := by
  have hcomm : (sent ++ (dropped ++ holder)).Perm (holder ++ (sent ++ dropped)) := by
    rw [← List.append_assoc]
    exact List.perm_append_comm
  exact (hcomm.append_left _).trans h

theorem partition_returned (h : (store ++ (holder ++ rest)).Perm l) :
    (store ++ holder ++ ([] ++ rest)).Perm l := by
  rw [List.nil_append, List.append_assoc]
  exact h

end Partition

/-! ### Where the observations are, in every run -/

/-- Where the observations are, and what the worker thread does while it is idle. -/
structure State.Sound (s : State) : Prop where
  partition : (s.store ++ (s.holder ++ (s.sent ++ s.dropped))).Perm (List.range s.added)
  idle : s.idle = true → s.pc = .notStarted ∨ s.pc = .waitingForObservations
  holder : s.pc ≠ .sending → s.pc ≠ .returning → s.holder = []

namespace State.Sound

variable {s s' : State}

theorem init : State.Sound {} where
  partition := List.Perm.refl _
  idle := fun _ => Or.inl rfl
  holder := fun _ _ => rfl

theorem idle_false (h : s.Sound) (hne : s.pc ≠ .notStarted) (hne' : s.pc ≠ .waitingForObservations) :
    s.idle = false := by
  by_contra htrue
  exact (h.idle (by simpa using htrue)).elim hne hne'

theorem idle_false_of_inPass (h : s.Sound) (hpass : s.InPass) : s.idle = false := by
  refine h.idle_false ?_ ?_
  · rintro heq; simp [State.InPass, heq] at hpass
  · rintro heq; simp [State.InPass, heq] at hpass

/-- What is not sent was not sent before, and is not dropped. -/
theorem not_mem_of_mem_unsent (h : s.Sound) {o : ℕ} (ho : o ∈ s.unsent) :
    o ∉ s.sent ++ s.dropped := by
  have hnodup := h.partition.nodup_iff.mpr List.nodup_range
  rw [← List.append_assoc] at hnodup
  exact fun hmem => (List.nodup_append.mp hnodup).2.2 o ho o hmem rfl

/-- What is dropped is not sent. -/
theorem not_mem_sent_of_mem_dropped (h : s.Sound) {o : ℕ} (ho : o ∈ s.dropped) : o ∉ s.sent := by
  have hnodup := h.partition.nodup_iff.mpr List.nodup_range
  have hout := (List.nodup_append.mp (List.nodup_append.mp hnodup).2.1).2.1
  exact fun hmem => (List.nodup_append.mp hout).2.2 o hmem o ho rfl

theorem worker (h : s.Sound) {choice : Choice} (hstep : s.WorkerStep choice s') : s'.Sound := by
  cases hstep with
  | quiet takeNext sending returning sending' returning' store holder sent dropped added idle _ =>
    have hholder := h.holder sending returning
    constructor
    · rw [store, holder, sent, dropped, added]
      exact h.partition
    · intro hidle
      rcases idle hidle with hpc | ⟨hidle, hne, hne'⟩
      · exact Or.inr hpc
      · exact absurd hidle (by simp [h.idle_false hne hne'])
    · exact fun _ _ => holder.trans hholder
  | stop hpc _ =>
    exact ⟨h.partition, fun hidle => absurd hidle (by simp [h.idle_false, hpc]),
      fun _ _ => h.holder (by simp [hpc]) (by simp [hpc])⟩
  | take hpc =>
    have hholder : s.holder = [] := h.holder (by simp [hpc]) (by simp [hpc])
    exact ⟨partition_take (hholder ▸ h.partition) _,
      fun hidle => absurd hidle (by simp [h.idle_false, hpc]), fun hne => absurd rfl hne⟩
  | send hpc _ =>
    exact ⟨partition_sent h.partition, fun hidle => absurd hidle (by simp [h.idle_false, hpc]),
      fun _ _ => rfl⟩
  | drop hpc _ =>
    exact ⟨partition_dropped h.partition, fun hidle => absurd hidle (by simp [h.idle_false, hpc]),
      fun _ _ => rfl⟩
  | fail hpc _ =>
    exact ⟨h.partition, fun hidle => absurd hidle (by simp [h.idle_false, hpc]),
      fun _ hne => absurd rfl hne⟩
  | giveBack hpc =>
    exact ⟨partition_returned h.partition, fun hidle => absurd hidle (by simp [h.idle_false, hpc]),
      fun _ _ => rfl⟩

/-- A step of another thread. -/
theorem beside (h : s.Sound) (hstep : s.Beside s') : s'.Sound where
  partition := by
    rw [hstep.holder, hstep.sent, hstep.dropped]
    rcases hstep.store with ⟨hstore, hadded⟩ | ⟨hstore, hadded⟩
    · rw [hstore, hadded]
      exact h.partition
    · rw [hstore, hadded]
      exact partition_add h.partition
  idle := fun hidle => hstep.pc ▸ h.idle (hstep.idle hidle)
  holder := by
    rw [hstep.pc, hstep.holder]
    exact h.holder

/-- Every step keeps the places of the observations. -/
theorem step (h : s.Sound) {label : Label} (hstep : s.step label = some s') : s'.Sound := by
  rcases State.step_cases hstep with ⟨choice, -, hworker⟩ | ⟨hpc, rfl⟩ | hbeside
  · exact h.worker (State.workerStep_of_worker hworker)
  · exact ⟨h.partition, by simp, fun _ _ => h.holder (by simp [hpc]) (by simp [hpc])⟩
  · exact h.beside hbeside

theorem run (h : s.Sound) {labels : List Label} (hrun : s.run labels = some s') : s'.Sound := by
  induction labels generalizing s with
  | nil =>
    obtain rfl := Option.some.inj hrun
    exact h
  | cons label labels ih =>
    obtain ⟨s₁, hstep, hrun⟩ := Option.bind_eq_some_iff.mp hrun
    exact ih (h.step hstep) hrun

end State.Sound

end Cobalt.Uploader
