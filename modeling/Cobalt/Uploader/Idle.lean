import Cobalt.Uploader.Steps
import Mathlib.Data.List.Nodup

/-!
# Waiting until the shipping manager is idle

`WaitUntilIdle` waits for the flag `idle`, which the worker thread sets when it finds no observations
to send. `NotifyObservationsAdded` clears the flag, so that a caller that waits after it learns that
the observations were sent. A manager that is disabled becomes idle too, with observations in its
store, but the flag is cleared again when it is enabled. What a store does not count, because its
file could not be renamed, can be left in the store of an idle manager.

## Main definitions

* `State.idleOrShutDown`: what `WaitUntilIdle` waits for.
* `Label.Counts`: a step after which the store still counts an observation.
* `State.Settles`: the manager is not idle before some observations are settled, unless it is
  disabled.

## Main results

* `partition_of_run`: no step of any thread loses or doubles an observation, and none is left in an
  envelope while the worker thread rests.
* `settled_of_idle`: what is notified, and counted by the store, is sent or dropped before an enabled
  manager is idle.
-/

namespace Cobalt.Uploader

/-! ### Where the observations are while the worker thread rests -/

/-- What `WaitUntilIdle` waits for. -/
def State.idleOrShutDown (s : State) : Bool := s.shutDown || s.idle

/-- The worker thread waits for observations, has exited, or was not started. -/
def State.Rests (s : State) : Prop := s.idle = true ∨ s.pc = .exited

/-- A send that fails, after which the manager is shut down. -/
def failedSend : List Label :=
  [.addObservation, .start, .worker {}, .worker {}, .worker {}, .worker {},
    .worker { taken := [0] }, .addObservation, .shutDown, .worker { result := .failed }, .worker {},
    .worker { taken := [1] }, .worker { result := .dropped }, .worker { taken := [0] },
    .worker {}, .worker {}, .worker {}, .worker {}]

/-- After the step the store still counts the observation. -/
def Label.Counts (o : ℕ) : Label → Prop
  | .recount uncounted _ => o ∉ uncounted
  | _ => True

/-- Some observations, which the store counts, settle: the manager is not idle, nor about to become
idle, before none of them is unsent, unless it is disabled. -/
structure State.Settles (observations : List ℕ) (s : State) : Prop where
  added : ∀ o ∈ observations, o < s.added
  counted : ∀ o ∈ observations, o ∉ s.uncounted
  settled : s.idle = true ∨ s.pc = .goingIdle →
    s.isDisabled = true ∨ ∀ o ∈ observations, o ∉ s.unsent

namespace State

variable {s s' : State} {observations : List ℕ} {label : Label} {choice : Choice}

/-- A step of the worker thread makes nothing unsent. -/
theorem mem_unsent_of_workerStep (hstep : s.WorkerStep choice s') {o : ℕ} (ho : o ∈ s'.unsent) :
    o ∈ s.unsent := by
  cases hstep with
  | quiet _ _ _ _ _ store holder _ _ _ _ _ =>
    rw [unsent, store, holder] at ho
    exact ho
  | stop _ _ => exact ho
  | take _ =>
    rcases List.mem_append.mp ho with hstore | hholder
    · exact List.mem_append_left _ (List.mem_of_mem_filter hstore)
    · exact List.mem_append_left _ (List.mem_of_mem_filter hholder)
  | send _ _ => exact List.mem_append_left _ ((List.mem_append.mp ho).resolve_right List.not_mem_nil)
  | drop _ _ => exact List.mem_append_left _ ((List.mem_append.mp ho).resolve_right List.not_mem_nil)
  | fail _ _ => exact ho
  | giveBack _ => exact (List.mem_append.mp ho).resolve_right List.not_mem_nil

/-- How the worker thread becomes idle: it finds no observations, and then sets the flag. It neither
disables the manager nor changes what the store counts. -/
theorem idle_cases_of_worker (hstep : s.worker choice = some s') :
    (s'.isDisabled = s.isDisabled ∧ s'.uncounted = s.uncounted) ∧
      (s'.idle = true → s.idle = true ∨ s.pc = .goingIdle) ∧
      (s'.pc = .goingIdle → s.pc = .awake ∧ s.observationsAvailable = false) := by
  unfold State.worker at hstep
  cases hpc : s.pc <;> simp only [hpc] at hstep
  case notStarted | exited => cases hstep
  case awake =>
    split_ifs at hstep with havailable hdue
    · obtain rfl := Option.some.inj hstep
      refine ⟨⟨rfl, rfl⟩, Or.inl, fun _ => ⟨rfl, ?_⟩⟩
      simpa using havailable
    · obtain rfl := Option.some.inj hstep
      exact ⟨⟨rfl, rfl⟩, Or.inl, fun h => absurd h (by simp)⟩
    · obtain rfl := Option.some.inj hstep
      exact ⟨⟨rfl, rfl⟩, Or.inl, fun h => absurd h (by simp)⟩
  case goingIdle =>
    obtain rfl := Option.some.inj hstep
    exact ⟨⟨rfl, rfl⟩, fun _ => Or.inr rfl, fun h => absurd h (by simp)⟩
  case waitingForObservations =>
    obtain ⟨-, heq⟩ := Option.ite_none_right_eq_some.mp hstep
    obtain rfl := Option.some.inj heq
    exact ⟨⟨rfl, rfl⟩, fun h => absurd h (by simp), fun h => absurd h (by simp)⟩
  case startSending =>
    split_ifs at hstep
    all_goals
      obtain rfl := Option.some.inj hstep
      exact ⟨⟨rfl, rfl⟩, Or.inl, fun h => absurd h (by simp)⟩
  case takeNext =>
    split_ifs at hstep
    all_goals
      obtain rfl := Option.some.inj hstep
      exact ⟨⟨rfl, rfl⟩, Or.inl, fun h => absurd h (by simp)⟩
  case sending =>
    cases hresult : choice.result <;> simp only [hresult] at hstep
    all_goals
      obtain rfl := Option.some.inj hstep
      exact ⟨⟨rfl, rfl⟩, Or.inl, fun h => absurd h (by simp)⟩
  all_goals
    obtain rfl := Option.some.inj hstep
    refine ⟨⟨rfl, rfl⟩, Or.inl, fun h => absurd h ?_⟩
    dsimp only
    try split
    all_goals simp

theorem unchanged_notifyObservationsAdded (isAlmostFull : Bool) :
    (s.notifyObservationsAdded isAlmostFull).isDisabled = s.isDisabled ∧
      (s.notifyObservationsAdded isAlmostFull).uncounted = s.uncounted := by
  unfold State.notifyObservationsAdded State.requestSendSoonLockHeld
  cases isAlmostFull <;> dsimp only <;> split_ifs <;> exact ⟨rfl, rfl⟩

theorem unchanged_requestSendSoon (sendCallback : Option SendCallback) :
    (s.requestSendSoon sendCallback).isDisabled = s.isDisabled ∧
      (s.requestSendSoon sendCallback).uncounted = s.uncounted := by
  unfold State.requestSendSoon State.requestSendSoonLockHeld
  cases sendCallback with
  | none => exact ⟨rfl, rfl⟩
  | some callback => dsimp only; split_ifs <;> exact ⟨rfl, rfl⟩

/-- A notification leaves the flag set only if the store says it is empty. -/
theorem storeEmpty_of_idle_notifyObservationsAdded {isAlmostFull : Bool}
    (hidle : (s.notifyObservationsAdded isAlmostFull).idle = true) : s.storeEmpty = true := by
  by_contra hne
  have hcleared : (s.notifyObservationsAdded isAlmostFull).idle = false := by
    unfold State.notifyObservationsAdded
    cases isAlmostFull with
    | false => exact congrArg State.idle (if_neg hne)
    | true => exact congrArg State.idle (if_neg hne)
  exact absurd (hcleared.symm.trans hidle) (by simp)

/-- A store that says it is empty counts none of its observations. -/
theorem mem_uncounted_of_storeEmpty (hempty : s.storeEmpty = true) {o : ℕ} (ho : o ∈ s.store) :
    o ∈ s.uncounted := by
  rw [storeEmpty, Bool.and_eq_true, List.all_eq_true] at hempty
  simpa using hempty.1 o ho

namespace Settles

theorem worker (h : s.Settles observations) (hsound : s.Sound) (hstep : s.worker choice = some s') :
    s'.Settles observations := by
  have hworker := workerStep_of_worker hstep
  obtain ⟨⟨hdisabled, huncounted⟩, hidle, hgoing⟩ := idle_cases_of_worker hstep
  have hadded : s'.added = s.added := by
    cases hworker with
    | quiet _ _ _ _ _ _ _ _ _ added _ _ => exact added
    | _ => rfl
  have hstill (hout : s.isDisabled = true ∨ ∀ o ∈ observations, o ∉ s.unsent) :
      s'.isDisabled = true ∨ ∀ o ∈ observations, o ∉ s'.unsent := by
    rw [hdisabled]
    exact hout.imp_right fun hout o ho hmem => hout o ho (mem_unsent_of_workerStep hworker hmem)
  refine ⟨fun o ho => hadded ▸ h.added o ho, fun o ho => huncounted ▸ h.counted o ho,
    fun hrest => hstill ?_⟩
  rcases hrest with hrest | hrest
  · exact h.settled (hidle hrest)
  · obtain ⟨hpc, havailable⟩ := hgoing hrest
    have hholder : s.holder = [] := hsound.holder (by simp [hpc]) (by simp [hpc])
    by_cases hdis : s.isDisabled = true
    · exact Or.inl hdis
    · have hempty : s.storeEmpty = true := by simpa [observationsAvailable, hdis] using havailable
      refine Or.inr fun o ho hmem => h.counted o ho ?_
      rw [unsent, hholder, List.append_nil] at hmem
      exact mem_uncounted_of_storeEmpty hempty hmem

/-- A step of another thread that neither disables the manager nor enables it, and after which the
observations are counted. -/
theorem beside (h : s.Settles observations) (hstep : s.Beside s')
    (hdisabled : s'.isDisabled = s.isDisabled) (hcounted : ∀ o ∈ observations, o ∉ s'.uncounted) :
    s'.Settles observations := by
  have hunsent {o : ℕ} (ho : o ∈ observations) (hmem : o ∈ s'.unsent) : o ∈ s.unsent := by
    rw [unsent, hstep.holder] at hmem
    rcases hstep.store with ⟨hstore, -⟩ | ⟨hstore, -⟩
    · rwa [hstore] at hmem
    · rw [hstore, List.append_assoc] at hmem
      rcases List.mem_append.mp hmem with hold | hnew
      · exact List.mem_append_left _ hold
      · rcases List.mem_cons.mp hnew with rfl | hholder
        · exact absurd (h.added _ ho) (lt_irrefl _)
        · exact List.mem_append_right _ hholder
  refine ⟨fun o ho => ?_, hcounted, fun hrest => ?_⟩
  · have hlt := h.added o ho
    rcases hstep.store with ⟨-, hadded⟩ | ⟨-, hadded⟩ <;> omega
  · rw [hdisabled]
    rw [hstep.pc] at hrest
    exact (h.settled (hrest.imp_left hstep.idle)).imp_right fun hout o ho hmem =>
      hout o ho (hunsent ho hmem)

theorem disable (h : s.Settles observations) (hlock : s.workerHasLock ≠ true) (isDisabled : Bool) :
    (s.disable isDisabled).Settles observations := by
  have hpc : s.pc ≠ .goingIdle := fun hpc => hlock (by simp [workerHasLock, hpc])
  cases isDisabled with
  | true => exact ⟨h.added, h.counted, fun _ => Or.inl rfl⟩
  | false => exact ⟨h.added, h.counted, fun hrest => absurd hrest (by simp [State.disable, hpc])⟩

/-- Every step keeps observations settling that are still counted after it. -/
theorem step (h : s.Settles observations) (hsound : s.Sound) (hstep : s.step label = some s')
    (hcounts : ∀ o ∈ observations, label.Counts o) : s'.Settles observations := by
  cases label with
  | start =>
    obtain ⟨-, heq⟩ := Option.ite_none_right_eq_some.mp hstep
    obtain rfl := Option.some.inj heq
    exact ⟨h.added, h.counted, by simp⟩
  | addObservation =>
    obtain rfl := Option.some.inj hstep
    exact h.beside (by constructor <;> simp) rfl h.counted
  | recount uncounted otherBytes =>
    obtain rfl := Option.some.inj hstep
    exact h.beside (by constructor <;> simp) rfl hcounts
  | notifyObservationsAdded isAlmostFull =>
    obtain ⟨-, heq⟩ := Option.ite_none_left_eq_some.mp hstep
    obtain rfl := Option.some.inj heq
    obtain ⟨hdisabled, huncounted⟩ := unchanged_notifyObservationsAdded (s := s) isAlmostFull
    exact h.beside (beside_notifyObservationsAdded isAlmostFull) hdisabled (huncounted ▸ h.counted)
  | callRequestSendSoon id =>
    obtain rfl := Option.some.inj hstep
    exact ⟨h.added, h.counted, h.settled⟩
  | requestSendSoon caller =>
    obtain ⟨-, heq⟩ := Option.ite_none_left_eq_some.mp hstep
    obtain ⟨sendCallback, -, rfl⟩ := Option.map_eq_some_iff.mp heq
    obtain ⟨hdisabled, huncounted⟩ :=
      unchanged_requestSendSoon (s := { s with callers := s.callers.eraseIdx caller }) sendCallback
    refine h.beside { beside_requestSendSoon sendCallback with } hdisabled ?_
    rw [huncounted]
    exact h.counted
  | disable isDisabled =>
    obtain ⟨hlock, heq⟩ := Option.ite_none_left_eq_some.mp hstep
    obtain rfl := Option.some.inj heq
    exact h.disable hlock isDisabled
  | shutDown =>
    obtain ⟨-, heq⟩ := Option.ite_none_left_eq_some.mp hstep
    obtain rfl := Option.some.inj heq
    exact ⟨h.added, h.counted, h.settled⟩
  | worker choice => exact h.worker hsound hstep

theorem run {labels : List Label} (h : s.Settles observations) (hsound : s.Sound)
    (hrun : s.run labels = some s') (hcounts : ∀ o ∈ observations, ∀ label ∈ labels, label.Counts o) :
    s'.Settles observations := by
  induction labels generalizing s with
  | nil =>
    obtain rfl := Option.some.inj hrun
    exact h
  | cons label labels ih =>
    obtain ⟨s₁, hstep, hrun⟩ := Option.bind_eq_some_iff.mp hrun
    exact ih (h.step hsound hstep fun o ho => hcounts o ho label List.mem_cons_self)
      (hsound.step hstep) hrun fun o ho l hl => hcounts o ho l (List.mem_cons_of_mem _ hl)

/-- After a notification everything settles that is not sent and that the store counts. -/
theorem of_notifyObservationsAdded (hsound : s.Sound) {isAlmostFull : Bool}
    (hstep : s.step (.notifyObservationsAdded isAlmostFull) = some s')
    (hunsent : ∀ o ∈ observations, o ∈ s.unsent) (hcounted : ∀ o ∈ observations, o ∉ s.uncounted) :
    s'.Settles observations := by
  obtain ⟨hlock, heq⟩ := Option.ite_none_left_eq_some.mp hstep
  obtain rfl := Option.some.inj heq
  have hbeside := beside_notifyObservationsAdded (s := s) isAlmostFull
  have hgoing : s.pc ≠ .goingIdle := fun hpc => hlock (by simp [workerHasLock, hpc])
  refine ⟨fun o ho => ?_, ?_, fun hrest => Or.inr fun o ho _ => hcounted o ho ?_⟩
  · have hmem : o ∈ List.range s.added := by
      refine hsound.partition.mem_iff.mp ?_
      rw [← List.append_assoc]
      exact List.mem_append_left _ (hunsent o ho)
    have hlt := List.mem_range.mp hmem
    rcases hbeside.store with ⟨-, hadded⟩ | ⟨-, hadded⟩ <;> omega
  · rw [(unchanged_notifyObservationsAdded isAlmostFull).2]
    exact hcounted
  · -- The flag is still set only if the store says it is empty, and no envelope is held.
    have hidle : (s.notifyObservationsAdded isAlmostFull).idle = true := by
      rw [hbeside.pc] at hrest
      exact hrest.resolve_right hgoing
    have hholder : s.holder = [] := by
      rcases hsound.idle (hbeside.idle hidle) with hpc | hpc
      · exact hsound.holder (by simp [hpc]) (by simp [hpc])
      · exact hsound.holder (by simp [hpc]) (by simp [hpc])
    have hstore := hunsent o ho
    rw [unsent, hholder, List.append_nil] at hstore
    exact mem_uncounted_of_storeEmpty (storeEmpty_of_idle_notifyObservationsAdded hidle) hstore

end Settles

end State

/-- **What `WaitUntilIdle` tells.** If the manager is idle after a notification, and is enabled and
not shut down, then everything that was in the store or in an envelope at the notification, and that
the store counted then and ever since, was sent, or dropped with its envelope, exactly once. -/
theorem settled_of_idle {before after : List Label} {s n e : State} {isAlmostFull : Bool}
    (hbefore : State.run {} before = some s)
    (hnotify : s.step (.notifyObservationsAdded isAlmostFull) = some n)
    (hafter : n.run after = some e) (hidle : e.idleOrShutDown = true) (hrunning : e.shutDown = false)
    (henabled : e.isDisabled = false) :
    ∀ o ∈ s.unsent, o ∉ s.uncounted → (∀ label ∈ after, label.Counts o) →
      (e.sent ++ e.dropped).count o = 1 ∧ o ∉ e.unsent := by
  intro o ho hcounted hcounts
  have hsound := State.Sound.init.run hbefore
  have hsound' := hsound.step hnotify
  have hstart : n.Settles [o] := .of_notifyObservationsAdded hsound hnotify
    (List.forall_mem_singleton.mpr ho) (List.forall_mem_singleton.mpr hcounted)
  have hsettles := hstart.run hsound' hafter (List.forall_mem_singleton.mpr hcounts)
  have hpartition := (hsound'.run hafter).partition
  have hflag : e.idle = true := by
    rw [State.idleOrShutDown, hrunning, Bool.false_or] at hidle
    exact hidle
  have hmem : o ∈ [o] := List.mem_singleton_self o
  have hout : o ∉ e.unsent :=
    (hsettles.settled (Or.inl hflag)).resolve_left (by simp [henabled]) o hmem
  refine ⟨?_, hout⟩
  have hcount := hpartition.count_eq o
  rw [← List.append_assoc, List.count_append, ← State.unsent, List.count_eq_zero_of_not_mem hout,
    List.count_eq_one_of_mem List.nodup_range (List.mem_range.mpr (hsettles.added o hmem))] at hcount
  omega

/-- The worker thread sends one observation and becomes idle. -/
def sendAndRest : List Label :=
  [.worker {}, .worker {}, .worker {}, .worker {}, .worker { taken := [0] }, .worker {}, .worker {},
    .worker {}, .worker {}, .worker {}, .worker {}, .worker {}]

/-- An observation is added, and the manager is notified of it before it sends. -/
theorem settled_of_idle_sent :
    ∃ s n e, State.run {} [.addObservation, .start] = some s ∧
      s.step (.notifyObservationsAdded false) = some n ∧ n.run sendAndRest = some e ∧
      e.idle = true ∧ s.unsent = [0] ∧ (e.sent ++ e.dropped).count 0 = 1 ∧ 0 ∉ e.unsent :=
  ⟨_, _, _, rfl, rfl, rfl, rfl, rfl,
    settled_of_idle (rfl : State.run {} [.addObservation, .start] = some _)
      (rfl : State.step _ (.notifyObservationsAdded false) = some _)
      (rfl : State.run _ sendAndRest = some _) rfl rfl rfl 0 (by decide) (by decide)
      (by simp [sendAndRest, Label.Counts])⟩

end Cobalt.Uploader
