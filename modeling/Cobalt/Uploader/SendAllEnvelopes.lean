import Cobalt.Lib.BreakLoop
import Cobalt.Uploader.ShippingManager
import Mathlib.Data.List.Perm.Basic

/-!
# A pass over the store

`SendAllEnvelopes` takes holders from the observation store until there is none left, or until three
sends in a row have failed. A holder whose send has failed is returned to the store, which may hand
out its observations again in the same pass, in another holder. The number of failures in a row is
reset by every send that succeeds. So a turn of the loop either removes observations from the store
for good or uses up one of the three failures, and the loop ends.

The store is a parameter, with the laws that a pass needs. `SendEnvelopeToBackend` is virtual; for
`SendAllEnvelopes` a send has succeeded if the holder is not returned. What it does, and which
callbacks other threads give to `RequestSendSoon`, comes from outside in each turn.

## Main definitions

* `StoreInterface`: the operations of an `ObservationStore`, with holders that have numbers.
* `Manager.sendAllEnvelopes`: the pass.
* `StoreInterface.Accounts`: what taking a holder and returning or destroying it does to the store.
* `PassEnds`: the pass ends, every observation is delivered once or still stored, and every callback
  is invoked once.

## Main results

* `StoreInterface.Accounts.passEnds`: a pass over a store with these laws.
-/

namespace Cobalt.Uploader

/-! ### The manager -/

/-- An `ObservationStore`, in a state that includes the outstanding holders, which are numbered.
Taking a holder may generate a file name, for which `N` is the type of the parameters. The last two
fields tell which observations are in a holder and in the store. -/
structure StoreInterface (σ N O : Type) where
  /-- `TakeNextEnvelopeHolder`, `none` where it returns `nullptr`. -/
  takeNextEnvelopeHolder : N → σ → Option ℕ × σ
  /-- `GetEnvelope`, which may keep the envelope in the holder. -/
  getEnvelope : ℕ → σ → σ
  returnEnvelopeHolder : ℕ → σ → σ
  /-- The destructor of a holder. -/
  destroy : ℕ → σ → σ
  empty : σ → Bool
  held : ℕ → σ → List O
  stored : σ → List O

/-- What comes from outside in one turn of the loop of `SendAllEnvelopes`: the parameters of a file
name, whether `SendEnvelopeToBackend` returns the holder, and the callbacks that other threads give
to `RequestSendSoon`. -/
structure Turn (N C : Type) where
  naming : N
  sendFails : Bool := false
  requested : List C := []

/-- The fields of a manager and the local variables of `SendAllEnvelopes`.

The last three fields are a record of the run, which no operation reads: the observations that were
in holders that were sent, the results of the sends of the last pass, and with what the callbacks
were invoked. -/
structure Manager (σ O C : Type) where
  observationStore : σ
  isDisabled : Bool := false
  expeditedSendRequested : Bool := false
  sendCallbackQueue : List C := []
  success : Bool := true
  failuresWithoutSuccess : ℕ := 0
  delivered : List O := []
  results : List Bool := []
  invoked : List (C × Bool) := []

namespace Manager

variable {σ N O C : Type} (store : StoreInterface σ N O)

/-- Calls of `RequestSendSoon` while the manager is not idle. -/
def requestSendSoon (s : Manager σ O C) (callbacks : List C) : Manager σ O C :=
  { s with
    expeditedSendRequested := s.expeditedSendRequested || !callbacks.isEmpty
    sendCallbackQueue := s.sendCallbackQueue ++ callbacks }

/-- `InvokeSendCallbacksLockHeld`. -/
def invokeSendCallbacksLockHeld (s : Manager σ O C) (success : Bool) : Manager σ O C :=
  { s with
    expeditedSendRequested := false
    sendCallbackQueue := []
    invoked := s.invoked ++ s.sendCallbackQueue.map fun callback => (callback, success) }

/-- A send that succeeds: the holder has been destroyed. -/
def sendSucceeded (s : Manager σ O C) (holder : ℕ) : Manager σ O C :=
  { s with
    observationStore := store.destroy holder s.observationStore
    failuresWithoutSuccess := 0
    delivered := s.delivered ++ store.held holder s.observationStore
    results := s.results ++ [true] }

/-- A send that fails: the holder is returned to the store. -/
def sendFailed (s : Manager σ O C) (holder : ℕ) : Manager σ O C :=
  { s with
    observationStore := store.returnEnvelopeHolder holder s.observationStore
    success := false
    failuresWithoutSuccess := s.failuresWithoutSuccess + 1
    results := s.results ++ [false] }

/-- The body of the loop of `SendAllEnvelopes`, and whether it breaks. -/
def sendNextEnvelope (turn : Turn N C) (s : Manager σ O C) : Bool × Manager σ O C :=
  let s := s.requestSendSoon turn.requested
  match store.takeNextEnvelopeHolder turn.naming s.observationStore with
  | (none, observationStore) => (true, { s with observationStore := observationStore })
  | (some holder, observationStore) =>
    let s := { s with observationStore := store.getEnvelope holder observationStore }
    let s := if turn.sendFails then s.sendFailed store holder else s.sendSucceeded store holder
    (decide (s.failuresWithoutSuccess ≥ kMaxFailuresWithoutSuccess), s)

/-- The start of a pass, with the initial values of the local variables. -/
def startPass (s : Manager σ O C) : Manager σ O C :=
  { s with success := true, failuresWithoutSuccess := 0, results := [] }

/-- `SendAllEnvelopes`, `none` if the loop does not break in `fuel` turns. -/
def sendAllEnvelopes (turns : ℕ → Turn N C) (fuel : ℕ) (s : Manager σ O C) :
    Option (Manager σ O C) :=
  if s.isDisabled then some s
  else
    (BreakLoop.run (fun turn => sendNextEnvelope store (turns turn)) fuel 0 s.startPass).map
      fun s => s.invokeSendCallbacksLockHeld s.success

end Manager

/-! ### The result of a pass -/

section Pass

variable {σ N O C : Type} (store : StoreInterface σ N O)

/-- The callbacks that are given to `RequestSendSoon` in the first turns. -/
def requestedIn (turns : ℕ → Turn N C) (count : ℕ) : List C :=
  (List.range count).flatMap fun turn => (turns turn).requested

theorem requestedIn_succ (turns : ℕ → Turn N C) (count : ℕ) :
    requestedIn turns (count + 1) = requestedIn turns count ++ (turns count).requested := by
  rw [requestedIn, List.range_succ, List.flatMap_append, List.flatMap_singleton, requestedIn]

/-- A pass ends, in a state that does not depend on the fuel if there is enough of it. The
observations that were in the store have been delivered, each once, or are in the store. All
callbacks, those that were in the queue and those that came in the turns of the pass, have been
invoked once, with `true` if and only if no send has failed, and then the store is empty. -/
def PassEnds (turns : ℕ → Turn N C) (s : Manager σ O C) : Prop :=
  ∃ enough count s', (∀ fuel, enough < fuel → s.sendAllEnvelopes store turns fuel = some s') ∧
    (∃ sent, s'.delivered = s.delivered ++ sent ∧
      (sent ++ store.stored s'.observationStore).Perm (store.stored s.observationStore)) ∧
    s'.sendCallbackQueue = [] ∧
    s'.invoked = s.invoked ++ (s.sendCallbackQueue ++ requestedIn turns count).map
      (fun callback => (callback, decide (false ∉ s'.results))) ∧
    (false ∉ s'.results →
      store.stored s'.observationStore = [] ∧ store.empty s'.observationStore = true)

/-- The laws of a store, in the states that satisfy `I`, which have no outstanding holder, and
for parameters of file names that are `allowed`. If there is no next holder, the store is empty. If
there is one, returning it keeps the observations in the store, and destroying it removes exactly
those of the holder. The weight bounds the number of holders that can still be destroyed. -/
structure StoreInterface.Accounts (allowed : N → Prop) (I : σ → Prop) (weight : σ → ℕ) : Prop where
  exhausted : ∀ {naming s s'}, allowed naming → I s →
    store.takeNextEnvelopeHolder naming s = (none, s') →
      store.stored s = [] ∧ store.stored s' = [] ∧ store.empty s' = true
  returned : ∀ {naming s holder s'}, allowed naming → I s →
    store.takeNextEnvelopeHolder naming s = (some holder, s') →
      I (store.returnEnvelopeHolder holder (store.getEnvelope holder s')) ∧
      (store.stored (store.returnEnvelopeHolder holder (store.getEnvelope holder s'))).Perm
        (store.stored s) ∧
      weight (store.returnEnvelopeHolder holder (store.getEnvelope holder s')) ≤ weight s
  destroyed : ∀ {naming s holder s'}, allowed naming → I s →
    store.takeNextEnvelopeHolder naming s = (some holder, s') →
      I (store.destroy holder (store.getEnvelope holder s')) ∧
      (store.held holder (store.getEnvelope holder s') ++
        store.stored (store.destroy holder (store.getEnvelope holder s'))).Perm (store.stored s) ∧
      weight (store.destroy holder (store.getEnvelope holder s')) < weight s

variable {store}

/-- What the loop keeps, in a pass that has started in the state `s`. -/
structure PassInv (store : StoreInterface σ N O) (I : σ → Prop) (turns : ℕ → Turn N C)
    (s : Manager σ O C) (count : ℕ) (m : Manager σ O C) : Prop where
  inv : I m.observationStore
  accounted : ∃ sent, m.delivered = s.delivered ++ sent ∧
    (sent ++ store.stored m.observationStore).Perm (store.stored s.observationStore)
  queue : m.sendCallbackQueue = s.sendCallbackQueue ++ requestedIn turns count
  invoked : m.invoked = s.invoked
  success : m.success = decide (false ∉ m.results)

/-- The callbacks that come in a turn are put into the queue. -/
theorem PassInv.queue_requestSendSoon {I : σ → Prop} {turns : ℕ → Turn N C} {s m : Manager σ O C}
    {count : ℕ} (hm : PassInv store I turns s count m) :
    (m.requestSendSoon (turns count).requested).sendCallbackQueue =
      s.sendCallbackQueue ++ requestedIn turns (count + 1) := by
  rw [requestedIn_succ, ← List.append_assoc, ← hm.queue]
  rfl

/-- The turns that a pass can still have: before each holder that can still be destroyed, and after
the last one, there can be so many failures. -/
def passMeasure (weight : σ → ℕ) (m : Manager σ O C) : ℕ :=
  (kMaxFailuresWithoutSuccess + 1) * weight m.observationStore +
    (kMaxFailuresWithoutSuccess - m.failuresWithoutSuccess)

variable (store) in
/-- The three ways of a turn: there is no next holder, the send fails, or it succeeds. -/
theorem Manager.sendNextEnvelope_cases (turn : Turn N C) (m : Manager σ O C) :
    (∃ s', store.takeNextEnvelopeHolder turn.naming m.observationStore = (none, s') ∧
      m.sendNextEnvelope store turn =
        (true, { m.requestSendSoon turn.requested with observationStore := s' })) ∨
    ∃ holder s', store.takeNextEnvelopeHolder turn.naming m.observationStore = (some holder, s') ∧
      ((turn.sendFails = true ∧ m.sendNextEnvelope store turn =
          (decide (m.failuresWithoutSuccess + 1 ≥ kMaxFailuresWithoutSuccess),
            { m.requestSendSoon turn.requested with
              observationStore := store.getEnvelope holder s' }.sendFailed store holder)) ∨
        (turn.sendFails = false ∧ m.sendNextEnvelope store turn =
          (false,
            { m.requestSendSoon turn.requested with
              observationStore := store.getEnvelope holder s' }.sendSucceeded store holder))) := by
  rw [Manager.sendNextEnvelope]
  dsimp only [Manager.requestSendSoon]
  obtain ⟨taken, s'⟩ := store.takeNextEnvelopeHolder turn.naming m.observationStore
  cases taken with
  | none => exact Or.inl ⟨s', rfl, rfl⟩
  | some holder =>
    refine Or.inr ⟨holder, s', rfl, ?_⟩
    cases hfails : turn.sendFails with
    | true => exact Or.inl ⟨rfl, rfl⟩
    | false => exact Or.inr ⟨rfl, rfl⟩

namespace StoreInterface.Accounts

variable {allowed : N → Prop} {I : σ → Prop} {weight : σ → ℕ} {turns : ℕ → Turn N C}
  {s m : Manager σ O C} {count : ℕ}

/-- A send that fails keeps the invariant and uses up one of the failures. -/
theorem sendFailed (h : store.Accounts allowed I weight) {naming : N} (hnaming : allowed naming)
    (hm : PassInv store I turns s count m) {holder : ℕ} {s' : σ}
    (htake : store.takeNextEnvelopeHolder naming m.observationStore = (some holder, s')) :
    PassInv store I turns s (count + 1)
      ({ m.requestSendSoon (turns count).requested with
        observationStore := store.getEnvelope holder s' }.sendFailed store holder) := by
  obtain ⟨hinv, hstored, -⟩ := h.returned hnaming hm.inv htake
  obtain ⟨sent, hdelivered, hsent⟩ := hm.accounted
  refine ⟨hinv, ⟨sent, hdelivered, (hstored.append_left sent).trans hsent⟩,
    hm.queue_requestSendSoon, hm.invoked, ?_⟩
  simp [Manager.sendFailed]

/-- A send that succeeds delivers the observations of the holder. -/
theorem sendSucceeded (h : store.Accounts allowed I weight) {naming : N} (hnaming : allowed naming)
    (hm : PassInv store I turns s count m) {holder : ℕ} {s' : σ}
    (htake : store.takeNextEnvelopeHolder naming m.observationStore = (some holder, s')) :
    PassInv store I turns s (count + 1)
      ({ m.requestSendSoon (turns count).requested with
        observationStore := store.getEnvelope holder s' }.sendSucceeded store holder) := by
  obtain ⟨hinv, hstored, -⟩ := h.destroyed hnaming hm.inv htake
  obtain ⟨sent, hdelivered, hsent⟩ := hm.accounted
  refine ⟨hinv, ⟨sent ++ store.held holder (store.getEnvelope holder s'), ?_, ?_⟩,
    hm.queue_requestSendSoon, hm.invoked, ?_⟩
  · rw [← List.append_assoc, ← hdelivered]
    rfl
  · rw [List.append_assoc]
    exact (hstored.append_left sent).trans hsent
  · simpa [Manager.sendSucceeded, Manager.requestSendSoon] using hm.success

/-- A turn after which the loop goes on keeps the invariant and makes the measure smaller. -/
theorem sendNextEnvelope_goesOn (h : store.Accounts allowed I weight)
    (hturns : ∀ turn, allowed (turns turn).naming) (hm : PassInv store I turns s count m)
    (hgoesOn : (m.sendNextEnvelope store (turns count)).1 = false) :
    PassInv store I turns s (count + 1) (m.sendNextEnvelope store (turns count)).2 ∧
      passMeasure weight (m.sendNextEnvelope store (turns count)).2 < passMeasure weight m := by
  rcases Manager.sendNextEnvelope_cases store (turns count) m with
    ⟨s', htake, heq⟩ | ⟨holder, s', htake, ⟨-, heq⟩ | ⟨-, heq⟩⟩
  · rw [heq] at hgoesOn
    exact absurd hgoesOn (by simp)
  · rw [heq] at hgoesOn ⊢
    obtain ⟨-, -, hweight⟩ := h.returned (hturns count) hm.inv htake
    have hfew : m.failuresWithoutSuccess + 1 < kMaxFailuresWithoutSuccess := by
      simpa using hgoesOn
    refine ⟨h.sendFailed (hturns count) hm htake, ?_⟩
    have hmul := Nat.mul_le_mul_left (kMaxFailuresWithoutSuccess + 1) hweight
    simp only [passMeasure, Manager.sendFailed, Manager.requestSendSoon]
    omega
  · rw [heq]
    obtain ⟨-, -, hweight⟩ := h.destroyed (hturns count) hm.inv htake
    refine ⟨h.sendSucceeded (hturns count) hm htake, ?_⟩
    have hmul := Nat.mul_le_mul_left (kMaxFailuresWithoutSuccess + 1) (Nat.succ_le_of_lt hweight)
    rw [Nat.mul_succ] at hmul
    simp only [passMeasure, Manager.sendSucceeded, Manager.requestSendSoon]
    omega

/-- A turn after which the loop ends keeps the invariant. If no send has failed, the store is
empty. -/
theorem sendNextEnvelope_breaks (h : store.Accounts allowed I weight)
    (hturns : ∀ turn, allowed (turns turn).naming) (hm : PassInv store I turns s count m)
    (hbreaks : (m.sendNextEnvelope store (turns count)).1 = true) :
    PassInv store (fun _ => True) turns s (count + 1) (m.sendNextEnvelope store (turns count)).2 ∧
      (false ∉ (m.sendNextEnvelope store (turns count)).2.results →
        store.stored (m.sendNextEnvelope store (turns count)).2.observationStore = [] ∧
        store.empty (m.sendNextEnvelope store (turns count)).2.observationStore = true) := by
  rcases Manager.sendNextEnvelope_cases store (turns count) m with
    ⟨s', htake, heq⟩ | ⟨holder, s', htake, ⟨-, heq⟩ | ⟨-, heq⟩⟩
  · rw [heq]
    obtain ⟨hstored, hstored', hempty⟩ := h.exhausted (hturns count) hm.inv htake
    obtain ⟨sent, hdelivered, hsent⟩ := hm.accounted
    refine ⟨⟨trivial, ⟨sent, hdelivered, ?_⟩, hm.queue_requestSendSoon, hm.invoked, hm.success⟩,
      fun _ => ⟨hstored', hempty⟩⟩
    rw [hstored] at hsent
    exact hstored' ▸ hsent
  · rw [heq]
    have hnext := h.sendFailed (hturns count) hm htake
    refine ⟨{ hnext with inv := trivial }, fun hnone => absurd ?_ hnone⟩
    exact List.mem_append_right _ (List.mem_singleton.mpr rfl)
  · rw [heq] at hbreaks
    exact absurd hbreaks (by simp)

/-- **A pass over a store with these laws** ends, accounts for every observation and invokes every
callback. -/
theorem passEnds (h : store.Accounts allowed I weight)
    (hturns : ∀ turn, allowed (turns turn).naming) (hinv : I s.observationStore)
    (henabled : s.isDisabled = false) : PassEnds store turns s := by
  have hstart : PassInv store I turns s 0 s.startPass :=
    ⟨hinv, ⟨[], (List.append_nil _).symm, List.Perm.refl _⟩, (List.append_nil _).symm, rfl, rfl⟩
  obtain ⟨count, m, ⟨hm, hempty⟩, hrun⟩ := BreakLoop.run_of_measure (μ := passMeasure weight)
    (Q := fun count m => PassInv store (fun _ => True) turns s count m ∧ (false ∉ m.results →
      store.stored m.observationStore = [] ∧ store.empty m.observationStore = true))
    (fun _ _ hm => h.sendNextEnvelope_goesOn hturns hm)
    (fun _ _ hm => h.sendNextEnvelope_breaks hturns hm) hstart
  refine ⟨passMeasure weight s.startPass, count, m.invokeSendCallbacksLockHeld m.success,
    fun fuel hfuel => ?_, hm.accounted, rfl, ?_, hempty⟩
  · rw [Manager.sendAllEnvelopes, henabled, if_neg Bool.false_ne_true, hrun fuel hfuel]
    rfl
  · simp only [Manager.invokeSendCallbacksLockHeld, hm.invoked, hm.queue, hm.success]

end StoreInterface.Accounts

end Pass

end Cobalt.Uploader
