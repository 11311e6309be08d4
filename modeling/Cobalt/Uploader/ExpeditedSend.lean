import Cobalt.Uploader.SendCallbacks

/-!
# Expedited requests during a pass

`SendAllEnvelopes` makes a pass over the store while other threads can ask for a send soon. `Run`
clears the flag `expedited_send_requested` before the pass, so a flag that is set during the pass is
from a request that came during the pass. When the pass ends, `InvokeSendCallbacksLockHeld` clears
the flag again. A request of which not all observations were sent by the pass is lost with it: they
wait for the next scheduled send.

The flag survives the pass only if the pass returns at once because the manager is disabled. So a
request loses nothing if and only if all its observations are sent: it does not come when the pass
takes no more envelopes, the pass neither gives up nor is refused an envelope before they are sent,
and none of them is dropped.

## Main definitions

* `State.PassOver`: the pass takes no more envelopes.
* `RequestInPass`: a request that comes during a pass, and the rest of the pass.
* `Remembered`: the request is still there after the pass if not all its observations were sent.
* `Label.Spares`: a step that neither drops the observations nor ends the pass before they are sent.

## Main results

* `tracked_of_spares`: a pass that spares the observations of a request sends them.
* `remembered_iff`: when a request is remembered, and no callback is invoked more often than it was
  given to `RequestSendSoon`.
* `not_remembered_late`: a request that is lost.
-/

namespace Cobalt.Uploader

/-- The pass takes no more envelopes from the store. -/
def State.PassOver (s : State) : Prop :=
  s.pc = .invokeCallbacks ∨
    s.pc = .returning ∧ s.failuresWithoutSuccess ≥ kMaxFailuresWithoutSuccess

/-- The worker thread is in `SendAllEnvelopes` after each of the steps. -/
def StaysInPass (s : State) : List Label → Prop
  | [] => True
  | label :: labels => ∀ s' ∈ s.step label, s'.InPass ∧ StaysInPass s' labels

/-- A request during a pass. The caller gets the lock while `SendAllEnvelopes` runs, in the
state `s`. The further steps of the pass lead to `e`, and the last one to `e'`. -/
structure RequestInPass (s : State) (caller : ℕ) (labels : List Label) (e : State) (choice : Choice)
    (e' : State) : Prop where
  inPass : s.InPass
  run : s.run (.requestSendSoon caller :: labels) = some e
  stays : StaysInPass s (.requestSendSoon caller :: labels)
  last : e.step (.worker choice) = some e'
  ends : ¬ e'.InPass

/-- The request is not forgotten: if one of the observations that were not sent when it came was
not sent by the pass, then an expedited send is requested after the pass. -/
def Remembered (s e' : State) : Prop :=
  (∃ o ∈ s.unsent, o ∉ e'.sent) → e'.expeditedSendRequested = true

/-- A step that spares the observations: they are not in an envelope that is dropped, and while
some of them are not sent, it is not the failure at which the pass gives up, and the store does not
refuse an envelope. -/
def Label.Spares (observations : List ℕ) (s : State) : Label → Prop
  | .worker choice =>
      (s.pc = .takeNext → choice.noEnvelope = true → ∀ o ∈ observations, o ∉ s.unsent) ∧
      (s.pc = .sending →
        (choice.result = .dropped → ∀ o ∈ observations, o ∉ s.holder) ∧
        (choice.result = .failed → s.failuresWithoutSuccess + 1 ≥ kMaxFailuresWithoutSuccess →
          ∀ o ∈ observations, o ∉ s.unsent))
  | _ => True

/-- All steps spare the observations. -/
def SparesRun (observations : List ℕ) (s : State) : List Label → Prop
  | [] => True
  | label :: labels =>
      label.Spares observations s ∧ ∀ s' ∈ s.step label, SparesRun observations s' labels

/-! ### A pass -/

section Pass

variable {s s' e e' : State} {label : Label} {labels : List Label} {choice : Choice}
  {observations : List ℕ}

theorem State.PassOver.inPass (h : s.PassOver) : s.InPass := by
  rcases h with hpc | ⟨hpc, -⟩ <;> simp [State.InPass, hpc]

/-- An expedited send that is requested during a pass stays so as long as the pass lasts. -/
theorem expedited_of_step (h : s.Sound) (hpass : s.InPass) (hpass' : s'.InPass)
    (hstep : s.step label = some s') (hflag : s.expeditedSendRequested = true) :
    s'.expeditedSendRequested = true := by
  rcases State.step_cases hstep with ⟨choice, -, hworker⟩ | ⟨hpc, rfl⟩ | hbeside
  · cases State.workerStep_of_worker hworker with
    | quiet _ _ _ _ _ _ _ _ _ _ _ inPass => exact (inPass hpass hpass').2.2.trans hflag
    | _ => exact hflag
  · exact hflag
  · exact hbeside.expedited (h.idle_false_of_inPass hpass) hflag

/-- A pass that takes no more envelopes sends nothing more. -/
theorem sent_of_passOver (hover : s.PassOver) (hpass' : s'.InPass)
    (hstep : s.step label = some s') : s'.PassOver ∧ s'.sent = s.sent := by
  rcases State.step_cases hstep with ⟨choice, -, hworker⟩ | ⟨hpc, rfl⟩ | hbeside
  · cases State.workerStep_of_worker hworker with
    | quiet _ _ _ _ _ _ _ _ _ _ _ inPass =>
      have hpc := (inPass hover.inPass hpass').1
      simp [State.PassOver, hpc] at hover
    | stop hpc _ => simp [State.PassOver, hpc] at hover
    | take hpc => simp [State.PassOver, hpc] at hover
    | send hpc _ => simp [State.PassOver, hpc] at hover
    | drop hpc _ => simp [State.PassOver, hpc] at hover
    | fail hpc _ => simp [State.PassOver, hpc] at hover
    | giveBack hpc =>
      have hmax : s.failuresWithoutSuccess ≥ kMaxFailuresWithoutSuccess := by
        simpa [State.PassOver, hpc] using hover
      exact ⟨Or.inl (if_pos hmax), rfl⟩
  · simp [State.InPass] at hpass'
  · refine ⟨?_, hbeside.sent⟩
    rw [State.PassOver, hbeside.pc, hbeside.failuresWithoutSuccess]
    exact hover

/-- What is dropped stays so. -/
theorem dropped_subset_of_step (hstep : s.step label = some s') : s.dropped ⊆ s'.dropped := by
  rcases State.step_cases hstep with ⟨choice, -, hworker⟩ | ⟨hpc, rfl⟩ | hbeside
  · cases State.workerStep_of_worker hworker with
    | quiet _ _ _ _ _ _ _ _ dropped _ _ _ => rw [dropped]; exact List.Subset.refl _
    | drop _ _ => exact List.subset_append_left _ _
    | _ => exact List.Subset.refl _
  · exact List.Subset.refl _
  · rw [hbeside.dropped]
    exact List.Subset.refl _

/-- The observations are on their way: each of them is sent, or can still be sent by this
pass. -/
def Tracked (observations : List ℕ) (s : State) : Prop :=
  ∀ o ∈ observations, (o ∈ s.unsent ∨ o ∈ s.sent) ∧ (s.PassOver → o ∈ s.sent)

/-- A step that spares the observations keeps them on their way. -/
theorem Label.Spares.tracked (hspares : label.Spares observations s) (h : s.Sound)
    (hpass : s.InPass) (hpass' : s'.InPass) (hstep : s.step label = some s')
    (htracked : Tracked observations s) : Tracked observations s' := by
  intro o ho
  obtain ⟨hplace, hover⟩ := htracked o ho
  rw [State.unsent, List.mem_append] at hplace
  rw [State.unsent, List.mem_append]
  rcases State.step_cases hstep with ⟨choice, rfl, hworker⟩ | ⟨hpc, rfl⟩ | hbeside
  · cases State.workerStep_of_worker hworker with
    | quiet _ _ _ _ _ store holder sent _ _ _ inPass =>
      rw [store, holder, sent]
      obtain ⟨-, hpc, -⟩ := inPass hpass hpass'
      exact ⟨hplace, by simp [State.PassOver, hpc]⟩
    | stop hpc hnone =>
      have hholder : s.holder = [] := h.holder (by simp [hpc]) (by simp [hpc])
      have hsent : o ∈ s.sent := by
        refine hplace.resolve_left fun hmem => ?_
        rcases hnone with hrefused | hstore
        · exact hspares.1 hpc hrefused o ho (List.mem_append.mpr hmem)
        · simp [hstore, hholder] at hmem
      exact ⟨Or.inr hsent, fun _ => hsent⟩
    | take hpc =>
      have hholder : s.holder = [] := h.holder (by simp [hpc]) (by simp [hpc])
      refine ⟨?_, by simp [State.PassOver]⟩
      rcases hplace with (hmem | hmem) | hmem
      · by_cases htaken : o ∈ choice.taken
        · exact Or.inl (Or.inr (List.mem_filter.mpr ⟨hmem, by simpa using htaken⟩))
        · exact Or.inl (Or.inl (List.mem_filter.mpr ⟨hmem, by simpa using htaken⟩))
      · rw [hholder] at hmem
        cases hmem
      · exact Or.inr hmem
    | send hpc _ =>
      refine ⟨?_, by simp [State.PassOver]⟩
      rcases hplace with (hmem | hmem) | hmem
      · exact Or.inl (Or.inl hmem)
      · exact Or.inr (List.mem_append_right _ hmem)
      · exact Or.inr (List.mem_append_left _ hmem)
    | drop hpc hresult =>
      refine ⟨?_, by simp [State.PassOver]⟩
      rcases hplace with (hmem | hmem) | hmem
      · exact Or.inl (Or.inl hmem)
      · exact absurd hmem ((hspares.2 hpc).1 hresult o ho)
      · exact Or.inr hmem
    | fail hpc hresult =>
      refine ⟨hplace, ?_⟩
      rintro (hpc' | ⟨-, hmax⟩)
      · simp at hpc'
      · refine hplace.resolve_left fun hmem => ?_
        exact (hspares.2 hpc).2 hresult hmax o ho (List.mem_append.mpr hmem)
    | giveBack hpc =>
      constructor
      · rcases hplace with (hmem | hmem) | hmem
        · exact Or.inl (Or.inl (List.mem_append_left _ hmem))
        · exact Or.inl (Or.inl (List.mem_append_right _ hmem))
        · exact Or.inr hmem
      · rintro (hpc' | ⟨hpc', -⟩)
        · refine hover (Or.inr ⟨hpc, ?_⟩)
          by_contra hmax
          simp [hmax] at hpc'
        · split at hpc' <;> simp at hpc'
  · simp [State.InPass] at hpass'
  · rw [hbeside.holder, hbeside.sent, State.PassOver, hbeside.pc, hbeside.failuresWithoutSuccess]
    refine ⟨?_, hover⟩
    rcases hplace with (hmem | hmem) | hmem
    · refine Or.inl (Or.inl ?_)
      rcases hbeside.store with ⟨hstore, -⟩ | ⟨hstore, -⟩
      · rw [hstore]
        exact hmem
      · rw [hstore]
        exact List.mem_append_left _ hmem
    · exact Or.inl (Or.inr hmem)
    · exact Or.inr hmem

/-- What every step of a pass keeps holds at its end. -/
theorem StaysInPass.keep {I : State → Prop}
    (hkeep : ∀ s s' label, s.Sound → s.InPass → s'.InPass → s.step label = some s' → I s → I s')
    (hstays : StaysInPass s labels) (hrun : s.run labels = some e) (h : s.Sound) (hpass : s.InPass)
    (hI : I s) : e.InPass ∧ I e := by
  induction labels generalizing s with
  | nil =>
    obtain rfl := Option.some.inj hrun
    exact ⟨hpass, hI⟩
  | cons label labels ih =>
    obtain ⟨s₁, hstep, hrun⟩ := Option.bind_eq_some_iff.mp hrun
    obtain ⟨hpass₁, hstays₁⟩ := hstays s₁ hstep
    exact ih hstays₁ hrun (h.step hstep) hpass₁ (hkeep s s₁ label h hpass hpass₁ hstep hI)

/-- A pass that spares the observations keeps them on their way. -/
theorem tracked_of_spares (hspares : SparesRun observations s labels)
    (hstays : StaysInPass s labels) (hrun : s.run labels = some e) (h : s.Sound) (hpass : s.InPass)
    (htracked : Tracked observations s) : Tracked observations e := by
  induction labels generalizing s with
  | nil =>
    obtain rfl := Option.some.inj hrun
    exact htracked
  | cons label labels ih =>
    obtain ⟨s₁, hstep, hrun⟩ := Option.bind_eq_some_iff.mp hrun
    obtain ⟨hpass₁, hstays₁⟩ := hstays s₁ hstep
    exact ih (hspares.2 s₁ hstep) hstays₁ hrun (h.step hstep) hpass₁
      (hspares.1.tracked h hpass hpass₁ hstep htracked)

/-- A pass that takes no more envelopes sends nothing more until its end. -/
theorem sent_of_passOver_run (hover : s.PassOver) (hstays : StaysInPass s labels)
    (hrun : s.run labels = some e) (h : s.Sound) : e.sent = s.sent := by
  refine (hstays.keep (I := fun s' => s'.PassOver ∧ s'.sent = s.sent) ?_ hrun h hover.inPass
    ⟨hover, rfl⟩).2.2
  intro s₁ s₂ label _ _ hpass₂ hstep ⟨hover₁, hsent₁⟩
  obtain ⟨hover₂, hsent₂⟩ := sent_of_passOver hover₁ hpass₂ hstep
  exact ⟨hover₂, hsent₂.trans hsent₁⟩

/-- What a pass sends is sent already when a step ends the taking of envelopes. -/
theorem not_mem_unsent_of_passOver (hover : s'.PassOver) (hsame : s'.sent = s.sent)
    (hstays : StaysInPass s' labels) (hrun : s'.run labels = some e) (h : s.Sound) (h' : s'.Sound)
    (hsent : ∀ o ∈ observations, o ∈ e.sent) : ∀ o ∈ observations, o ∉ s.unsent := by
  intro o ho hmem
  have hend : e.sent = s.sent := (sent_of_passOver_run hover hstays hrun h').trans hsame
  exact h.not_mem_of_mem_unsent hmem (List.mem_append_left _ (hend ▸ hsent o ho))

/-- What a pass sends it spares in its first step. -/
theorem spares_of_sent (hstep : s.step label = some s') (hstays : StaysInPass s' labels)
    (hrun : s'.run labels = some e) (h : s.Sound) (hpass' : s'.InPass)
    (hsent : ∀ o ∈ observations, o ∈ e.sent) : label.Spares observations s := by
  have h' := h.step hstep
  cases label with
  | worker choice =>
    have hworker : s.worker choice = some s' := hstep
    refine ⟨fun hpc hrefused => ?_, fun hpc => ⟨fun hresult o ho hmem => ?_, fun hresult hmax => ?_⟩⟩
    · simp only [State.worker, hpc, hrefused, Bool.true_or, if_true, Option.some.injEq] at hworker
      refine not_mem_unsent_of_passOver ?_ ?_ hstays hrun h h' hsent
      · rw [← hworker]
        exact Or.inl rfl
      · rw [← hworker]
    · have hdropped : o ∈ s'.dropped := by
        simp only [State.worker, hpc, hresult, Option.some.injEq] at hworker
        rw [← hworker]
        exact List.mem_append_right _ hmem
      have hend := hstays.keep (I := fun s₁ => o ∈ s₁.dropped)
        (fun _ _ _ _ _ _ hstep₁ hmem₁ => dropped_subset_of_step hstep₁ hmem₁) hrun h' hpass'
        hdropped
      exact (h'.run hrun).not_mem_sent_of_mem_dropped hend.2 (hsent o ho)
    · simp only [State.worker, hpc, hresult, Option.some.injEq] at hworker
      refine not_mem_unsent_of_passOver ?_ ?_ hstays hrun h h' hsent
      · rw [← hworker]
        exact Or.inr ⟨rfl, hmax⟩
      · rw [← hworker]
  | _ => trivial

/-- What a pass sends it spares. -/
theorem sparesRun_of_sent (hstays : StaysInPass s labels) (hrun : s.run labels = some e)
    (h : s.Sound) (hsent : ∀ o ∈ observations, o ∈ e.sent) : SparesRun observations s labels := by
  induction labels generalizing s with
  | nil => trivial
  | cons label labels ih =>
    obtain ⟨s₁, hstep, hrun⟩ := Option.bind_eq_some_iff.mp hrun
    obtain ⟨hpass₁, hstays₁⟩ := hstays s₁ hstep
    refine ⟨spares_of_sent hstep hstays₁ hrun h hpass₁ hsent, fun s₂ hstep₂ => ?_⟩
    obtain rfl : s₁ = s₂ := Option.some.inj (hstep.symm.trans hstep₂)
    exact ih hstays₁ hrun (h.step hstep)

/-- The end of a pass. It is left at once because the manager is disabled, or after the
callbacks were invoked. -/
theorem last_step (hpass : e.InPass) (hlast : e.step (.worker choice) = some e')
    (hends : ¬ e'.InPass) :
    (e.pc = .startSending ∧ e'.expeditedSendRequested = e.expeditedSendRequested) ∨
    (e.pc = .invokeCallbacks ∧ e'.expeditedSendRequested = false ∧ e'.sent = e.sent) := by
  have hworker : e.worker choice = some e' := hlast
  rcases hpass with hpc | hpc | hpc | hpc | hpc
  · simp only [State.worker, hpc] at hworker
    split_ifs at hworker
    · obtain rfl := Option.some.inj hworker
      exact Or.inl ⟨hpc, rfl⟩
    · obtain rfl := Option.some.inj hworker
      simp [State.InPass] at hends
  · simp only [State.worker, hpc] at hworker
    split_ifs at hworker
    · obtain rfl := Option.some.inj hworker
      simp [State.InPass] at hends
    · obtain rfl := Option.some.inj hworker
      simp [State.InPass] at hends
  · simp only [State.worker, hpc] at hworker
    cases hresult : choice.result <;> simp only [hresult] at hworker
    all_goals
      obtain rfl := Option.some.inj hworker
      simp [State.InPass] at hends
  · simp only [State.worker, hpc] at hworker
    obtain rfl := Option.some.inj hworker
    refine absurd ?_ hends
    dsimp only [State.InPass]
    split <;> simp
  · simp only [State.worker, hpc] at hworker
    obtain rfl := Option.some.inj hworker
    exact Or.inr ⟨hpc, rfl, rfl⟩

end Pass

/-! ### The callbacks -/

/-- The callback that is given to `RequestSendSoon`. -/
def Label.callback : Label → Option ℕ
  | .callRequestSendSoon id => id
  | _ => none

/-- The callbacks that were invoked, and those that wait. -/
def State.callbacks (s : State) : List ℕ :=
  s.invoked.map (·.1.id) ++ s.waiting.map (·.id)

section Callbacks

variable {s s' : State} {label : Label} {labels : List Label}

theorem callbacks_invokeSendCallbacks (success : Bool) :
    (s.invokeSendCallbacksLockHeld success).callbacks = s.callbacks := by
  simp [State.callbacks, State.waiting, State.invokeSendCallbacksLockHeld, Function.comp_def]

/-- A request invokes its callback or puts it in the queue. -/
theorem count_callbacks_requestSendSoon (sendCallback : Option SendCallback) (id : ℕ) :
    (s.requestSendSoon sendCallback).callbacks.count id =
      s.callbacks.count id + (sendCallback.toList.map (·.id)).count id := by
  unfold State.requestSendSoon State.requestSendSoonLockHeld
  cases sendCallback with
  | none => simp [State.callbacks, State.waiting]
  | some callback =>
    dsimp only
    split_ifs
    all_goals
      simp only [State.callbacks, State.waiting, List.map_append, List.count_append, List.map_cons,
        List.map_nil, Option.toList_some]
      omega

/-- The callers that wait are one less when one of them gets the lock. -/
theorem count_callbacks_eraseIdx {caller : ℕ} {sendCallback : Option SendCallback}
    (hcaller : s.callers[caller]? = some sendCallback) (id : ℕ) :
    ({ s with callers := s.callers.eraseIdx caller } : State).callbacks.count id +
      (sendCallback.toList.map (·.id)).count id = s.callbacks.count id := by
  obtain ⟨hlt, rfl⟩ := List.getElem?_eq_some_iff.mp hcaller
  have hreduce : (s.callers[caller].toList ++ (s.callers.eraseIdx caller).reduceOption).Perm
      s.callers.reduceOption := by
    rw [← List.reduceOption_singleton, ← List.reduceOption_append]
    exact (List.getElem_cons_eraseIdx_perm hlt).filterMap _
  have hcount := (hreduce.map (·.id)).count_eq id
  rw [List.map_append, List.count_append] at hcount
  simp only [State.callbacks, State.waiting, List.map_append, List.count_append]
  omega

/-- A step of the worker thread invokes callbacks that wait. -/
theorem callbacks_worker {choice : Choice} (hstep : s.worker choice = some s') :
    s'.callbacks = s.callbacks := by
  unfold State.worker at hstep
  cases hpc : s.pc <;> simp only [hpc] at hstep
  case goingIdle =>
    obtain rfl := Option.some.inj hstep
    exact callbacks_invokeSendCallbacks true
  case invokeCallbacks =>
    obtain rfl := Option.some.inj hstep
    exact callbacks_invokeSendCallbacks s.success
  case sending =>
    cases hresult : choice.result <;> simp only [hresult] at hstep
    all_goals
      obtain rfl := Option.some.inj hstep
      rfl
  all_goals
    try split_ifs at hstep
    all_goals
      first
      | obtain rfl := Option.some.inj hstep
        rfl
      | cases hstep

theorem callbacks_notifyObservationsAdded (isAlmostFull : Bool) :
    (s.notifyObservationsAdded isAlmostFull).callbacks = s.callbacks := by
  unfold State.notifyObservationsAdded State.requestSendSoonLockHeld
  cases isAlmostFull <;> dsimp only <;> split_ifs <;> rfl

theorem callbacks_disable (isDisabled : Bool) : (s.disable isDisabled).callbacks = s.callbacks := by
  unfold State.disable
  cases isDisabled <;> rfl

/-- A step adds the callback that it gives to `RequestSendSoon`, and no other. -/
theorem count_callbacks_step (hstep : s.step label = some s') (id : ℕ) :
    s'.callbacks.count id = s.callbacks.count id + label.callback.toList.count id := by
  cases label with
  | start =>
    obtain ⟨-, heq⟩ := Option.ite_none_right_eq_some.mp hstep
    obtain rfl := Option.some.inj heq
    rfl
  | addObservation | recount _ _ =>
    obtain rfl := Option.some.inj hstep
    rfl
  | notifyObservationsAdded isAlmostFull =>
    obtain ⟨-, heq⟩ := Option.ite_none_left_eq_some.mp hstep
    obtain rfl := Option.some.inj heq
    rw [callbacks_notifyObservationsAdded]
    rfl
  | callRequestSendSoon given =>
    obtain rfl := Option.some.inj hstep
    simp only [State.callbacks, State.waiting, List.reduceOption_append,
      List.reduceOption_singleton, List.map_append, List.count_append, Label.callback]
    cases given with
    | none => simp
    | some given => simp [Nat.add_assoc]
  | requestSendSoon caller =>
    obtain ⟨-, heq⟩ := Option.ite_none_left_eq_some.mp hstep
    obtain ⟨sendCallback, hcaller, rfl⟩ := Option.map_eq_some_iff.mp heq
    rw [count_callbacks_requestSendSoon]
    exact count_callbacks_eraseIdx hcaller id
  | disable isDisabled =>
    obtain ⟨-, heq⟩ := Option.ite_none_left_eq_some.mp hstep
    obtain rfl := Option.some.inj heq
    rw [callbacks_disable]
    rfl
  | shutDown =>
    obtain ⟨-, heq⟩ := Option.ite_none_left_eq_some.mp hstep
    obtain rfl := Option.some.inj heq
    rfl
  | worker choice =>
    rw [callbacks_worker hstep]
    rfl

/-- A run invokes the callbacks that were given to `RequestSendSoon`, or lets them wait, each
exactly once. -/
theorem count_callbacks_run (hrun : s.run labels = some s') (id : ℕ) :
    s'.callbacks.count id = s.callbacks.count id + (labels.filterMap Label.callback).count id := by
  induction labels generalizing s with
  | nil =>
    obtain rfl := Option.some.inj hrun
    rfl
  | cons label labels ih =>
    obtain ⟨s₁, hstep, hrun⟩ := Option.bind_eq_some_iff.mp hrun
    have hfilter : (label :: labels).filterMap Label.callback =
        label.callback.toList ++ labels.filterMap Label.callback := by
      rw [List.filterMap_cons]
      cases label.callback <;> rfl
    rw [ih hrun, count_callbacks_step hstep, hfilter, List.count_append, Nat.add_assoc]

end Callbacks

/-! ### Requests that are remembered -/

section Remembered

variable {s e e' : State} {caller : ℕ} {labels : List Label} {choice : Choice}

/-- A request during a pass asks for an expedited send. -/
theorem expedited_request {r : State} (h : s.Sound) (hpass : s.InPass)
    (hstep : s.step (.requestSendSoon caller) = some r) : r.expeditedSendRequested = true := by
  obtain ⟨-, heq⟩ := Option.ite_none_left_eq_some.mp hstep
  obtain ⟨sendCallback, -, rfl⟩ := Option.map_eq_some_iff.mp heq
  have hidle := h.idle_false_of_inPass hpass
  cases sendCallback with
  | none => rfl
  | some callback => simp [State.requestSendSoon, State.requestSendSoonLockHeld, hidle]

namespace RequestInPass

/-- The state right after the request. -/
theorem exists_request (h : RequestInPass s caller labels e choice e') :
    ∃ r, s.step (.requestSendSoon caller) = some r ∧ r.run labels = some e ∧ r.InPass ∧
      StaysInPass r labels := by
  obtain ⟨r, hstep, hrun⟩ := Option.bind_eq_some_iff.mp h.run
  exact ⟨r, hstep, hrun, h.stays r hstep⟩

/-- The pass goes on until its last step, with the request. -/
theorem expedited (h : RequestInPass s caller labels e choice e') (hsound : s.Sound) :
    e.InPass ∧ e.expeditedSendRequested = true := by
  obtain ⟨r, hstep, hrun, hpass, hstays⟩ := h.exists_request
  exact hstays.keep (I := fun s₁ => s₁.expeditedSendRequested = true)
    (fun _ _ _ h₁ hpass₁ hpass₂ => expedited_of_step h₁ hpass₁ hpass₂) hrun (hsound.step hstep) hpass
    (expedited_request hsound h.inPass hstep)

/-- When a request is remembered. -/
theorem remembered_iff_spares (h : RequestInPass s caller labels e choice e') (hsound : s.Sound) :
    Remembered s e' ↔ e.pc = .startSending ∨
      ((s.PassOver → s.unsent = []) ∧
        SparesRun s.unsent s (.requestSendSoon caller :: labels)) := by
  obtain ⟨hpass, hflag⟩ := h.expedited hsound
  constructor
  · intro hremembered
    rcases last_step hpass h.last h.ends with ⟨hpc, -⟩ | ⟨-, hcleared, hsame⟩
    · exact Or.inl hpc
    · have hsent : ∀ o ∈ s.unsent, o ∈ e.sent := by
        intro o ho
        by_contra hnot
        have htrue := hremembered ⟨o, ho, hsame ▸ hnot⟩
        exact absurd (hcleared.symm.trans htrue) (by simp)
      refine Or.inr ⟨fun hover => ?_, sparesRun_of_sent h.stays h.run hsound hsent⟩
      rw [List.eq_nil_iff_forall_not_mem]
      intro o ho
      have hbefore : o ∈ s.sent := sent_of_passOver_run hover h.stays h.run hsound ▸ hsent o ho
      exact hsound.not_mem_of_mem_unsent ho (List.mem_append_left _ hbefore)
  · rintro hcondition ⟨o, ho, hnot⟩
    rcases last_step hpass h.last h.ends with ⟨-, hkept⟩ | ⟨hpc, -, hsame⟩
    · exact hkept.trans hflag
    · obtain ⟨hearly, hspares⟩ := hcondition.resolve_left (by simp [hpc])
      have htracked : Tracked s.unsent s := fun o ho =>
        ⟨Or.inl ho, fun hover => absurd ho (by simp [hearly hover])⟩
      have hend := tracked_of_spares hspares h.stays h.run hsound h.inPass htracked
      exact absurd (hsame ▸ (hend o ho).2 (Or.inl hpc)) hnot

end RequestInPass

end Remembered

/-- **Expedited requests and callbacks.** In every run, a request that comes during a pass is
remembered if and only if the pass returns at once because the manager is disabled, or the request
does not come when the pass takes no more envelopes and something is not sent, and the further steps
of the pass spare what is not sent. No callback is invoked more often than it was given to
`RequestSendSoon`. -/
theorem remembered_iff {history : List Label} {s : State} (hrun : State.run {} history = some s) :
    (∀ caller labels e choice e', RequestInPass s caller labels e choice e' →
      (Remembered s e' ↔ e.pc = .startSending ∨
        ((s.PassOver → s.unsent = []) ∧
          SparesRun s.unsent s (.requestSendSoon caller :: labels)))) ∧
    ∀ id, (s.invoked.map (·.1.id)).count id ≤ (history.filterMap Label.callback).count id := by
  constructor
  · intro caller labels e choice e' h
    exact h.remembered_iff_spares (State.Sound.init.run hrun)
  · intro id
    have hcount := count_callbacks_run hrun id
    have hinit : (State.callbacks {}).count id = 0 := rfl
    rw [State.callbacks, List.count_append] at hcount
    omega

/-! ### Examples of runs -/

instance (s : State) : Decidable s.InPass :=
  inferInstanceAs (Decidable (s.pc = .startSending ∨ s.pc = .takeNext ∨ s.pc = .sending ∨
    s.pc = .returning ∨ s.pc = .invokeCallbacks))

instance (s : State) : Decidable s.PassOver :=
  inferInstanceAs (Decidable (s.pc = .invokeCallbacks ∨
    s.pc = .returning ∧ s.failuresWithoutSuccess ≥ kMaxFailuresWithoutSuccess))

instance decidableStaysInPass (s : State) : (labels : List Label) → Decidable (StaysInPass s labels)
  | [] => isTrue trivial
  | label :: labels =>
    have (s' : State) : Decidable (StaysInPass s' labels) := decidableStaysInPass s' labels
    inferInstanceAs (Decidable (∀ s' ∈ s.step label, s'.InPass ∧ StaysInPass s' labels))

instance (s e' : State) : Decidable (Remembered s e') :=
  inferInstanceAs (Decidable ((∃ o ∈ s.unsent, o ∉ e'.sent) → e'.expeditedSendRequested = true))

instance (observations : List ℕ) (s : State) : (label : Label) →
    Decidable (label.Spares observations s)
  | .worker choice =>
    inferInstanceAs (Decidable (
      (s.pc = .takeNext → choice.noEnvelope = true → ∀ o ∈ observations, o ∉ s.unsent) ∧
      (s.pc = .sending →
        (choice.result = .dropped → ∀ o ∈ observations, o ∉ s.holder) ∧
        (choice.result = .failed → s.failuresWithoutSuccess + 1 ≥ kMaxFailuresWithoutSuccess →
          ∀ o ∈ observations, o ∉ s.unsent))))
  | .start | .addObservation | .recount _ _ | .notifyObservationsAdded _ | .callRequestSendSoon _
  | .requestSendSoon _ | .disable _ | .shutDown => isTrue trivial

instance decidableSparesRun (observations : List ℕ) (s : State) : (labels : List Label) →
    Decidable (SparesRun observations s labels)
  | [] => isTrue trivial
  | label :: labels =>
    have (s' : State) : Decidable (SparesRun observations s' labels) :=
      decidableSparesRun observations s' labels
    inferInstanceAs (Decidable (label.Spares observations s ∧
      ∀ s' ∈ s.step label, SparesRun observations s' labels))

/-- The worker thread is about to take its first envelope when `RequestSendSoon` is called. -/
def requestAtStart : List Label := sendingStarts ++ [.callRequestSendSoon (some 7)]

/-- The pass sends its only envelope. -/
def sendAll : List Label := sendNext [0] .sent ++ [.worker {}]

/-- `RequestSendSoon` is called after the pass has found the store empty, for an observation that
was added since. -/
def requestAtEnd : List Label :=
  sendingStarts ++ sendAll ++ [.addObservation, .callRequestSendSoon (some 7)]

theorem remembered_iff_sendAll :
    ∃ s e e', State.run {} requestAtStart = some s ∧ RequestInPass s 0 sendAll e {} e' ∧
      s.unsent = [0] ∧ Remembered s e' := by
  have hruns : ∃ s ∈ State.run {} requestAtStart, ∃ e ∈ s.run (.requestSendSoon 0 :: sendAll),
      ∃ e' ∈ e.step (.worker {}), s.InPass ∧ StaysInPass s (.requestSendSoon 0 :: sendAll) ∧
        ¬ e'.InPass ∧ s.unsent = [0] ∧ ¬ s.PassOver ∧
        SparesRun s.unsent s (.requestSendSoon 0 :: sendAll) := by
    decide +kernel
  obtain ⟨s, hs, e, he, e', he', hpass, hstays, hends, hunsent, hover, hspares⟩ := hruns
  have hrequest : RequestInPass s 0 sendAll e {} e' := ⟨hpass, he, hstays, he', hends⟩
  refine ⟨s, e, e', hs, hrequest, hunsent, ?_⟩
  exact ((remembered_iff hs).1 0 sendAll e {} e' hrequest).mpr
    (Or.inr ⟨fun h => absurd h hover, hspares⟩)

/-- A request that is forgotten. It comes after the pass has found the store empty and before
the callbacks are invoked. No attempt is made to send its observation, and no expedited send is
requested any more. -/
theorem not_remembered_late :
    ∃ s e e', State.run {} requestAtEnd = some s ∧ RequestInPass s 0 [] e {} e' ∧
      s.unsent = [1] ∧ e'.store = [1] ∧ ¬ Remembered s e' := by
  have hruns : ∃ s ∈ State.run {} requestAtEnd, ∃ e ∈ s.run [.requestSendSoon 0],
      ∃ e' ∈ e.step (.worker {}), s.InPass ∧ StaysInPass s [.requestSendSoon 0] ∧
        ¬ e'.InPass ∧ s.unsent = [1] ∧ e'.store = [1] ∧ ¬ Remembered s e' := by
    decide +kernel
  obtain ⟨s, hs, e, he, e', he', hpass, hstays, hends, hunsent, hstore, hforgotten⟩ := hruns
  exact ⟨s, e, e', hs, ⟨hpass, he, hstays, he', hends⟩, hunsent, hstore, hforgotten⟩

end Cobalt.Uploader
