import Mathlib.Algebra.Order.Ring.Int
import Mathlib.Data.List.Basic

/-!
# The shipping manager

A `ShippingManager` has a worker thread that takes envelopes from the observation store and sends
them. Other threads add observations to the store, notify the manager of them, ask for a send soon,
and disable the manager. The fields of the manager are protected by a lock; the store has one of its
own, so that observations can be added at any time.

A step is one section of code that runs under the lock, or one action without it. What the other
threads do, what the clock shows, which envelope the store hands out and whether a send succeeds are
parameters of a step. Observations are numbered in the order in which they are added.

The store need not be empty when it says so, nor when it hands out no envelope. A file store counts
bytes, and finalizes its active file when it has no other. When the file system refuses to rename
the file, `TakeNextEnvelopeHolder` returns no envelope; the file is closed all the same, and its
bytes are not counted before it is written to again. Bytes can also be left that belong to no
observation, when only the metadata of one could be written. So a step of the store can change which
observations it counts, and whether it counts anything else.

`SendEnvelopeToBackend` is virtual. Of what its two overrides do it matters whether they return the
envelope, and whether the envelope was sent: both overrides also return no envelope when it could
not be encrypted, or not be written to the file.

## Main definitions

* `SendResult`: what `SendEnvelopeToBackend` does.
* `State`: the fields of the manager, the store, and the local variables of the worker.
* `State.worker`: a step of the worker thread, in `Run` and `SendAllEnvelopes`.
* `Label`, `State.step`: a step of any thread.
* `State.run`: several steps, one after another.
-/

namespace Cobalt.Uploader

/-- The number of failures after which `SendAllEnvelopes` gives up. -/
def kMaxFailuresWithoutSuccess : ℕ := 3

/-- A callback. No step reads its second field, the observations that were in the store when
`RequestSendSoon` was called. -/
structure SendCallback where
  id : ℕ
  stored : List ℕ
  deriving DecidableEq, Repr

/-- Where the worker thread is. -/
inductive Pc
  /-- It was not started. -/
  | notStarted
  /-- At the start of the loop of `Run`. -/
  | top
  /-- In the wait for `MinInterval`. -/
  | sleeping
  /-- After this wait, with the lock. -/
  | awake
  /-- About to become idle, with the lock. -/
  | goingIdle
  /-- In the wait for observations. -/
  | waitingForObservations
  /-- In the wait for the next scheduled send. -/
  | waitingForSchedule
  /-- At the start of `SendAllEnvelopes`. -/
  | startSending
  /-- About to take the next envelope. -/
  | takeNext
  /-- In `SendEnvelopeToBackend`. -/
  | sending
  /-- About to return an envelope to the store. -/
  | returning
  /-- About to invoke the callbacks at the end of `SendAllEnvelopes`. -/
  | invokeCallbacks
  /-- `Run` has returned. -/
  | exited
  deriving DecidableEq, Repr

/-- The fields of a manager, the observations in the store, those of them that it does not count,
whether it counts bytes of no observation, the local variables of the worker thread, and the callers
that wait for the lock in `RequestSendSoon`, each with its callback if it has one.

The last four fields are a record of the run: how many observations were added, which were sent,
which were dropped, and with what the callbacks were invoked. -/
structure State where
  expeditedSendRequested : Bool := false
  sendCallbackQueue : List SendCallback := []
  shutDown : Bool := false
  idle : Bool := true
  waitingForSchedule : Bool := true
  isDisabled : Bool := false
  store : List ℕ := []
  uncounted : List ℕ := []
  otherBytes : Bool := false
  pc : Pc := .notStarted
  holder : List ℕ := []
  success : Bool := true
  failuresWithoutSuccess : ℕ := 0
  callers : List (Option SendCallback) := []
  added : ℕ := 0
  sent : List ℕ := []
  dropped : List ℕ := []
  invoked : List (SendCallback × Bool) := []
  deriving DecidableEq, Repr

/-- What `SendEnvelopeToBackend` does with an envelope. -/
inductive SendResult
  /-- It is sent, and not returned. -/
  | sent
  /-- It is neither sent nor returned: `Encrypt` has failed, or the file could not be written. -/
  | dropped
  /-- It is not sent, and returned. -/
  | failed
  deriving DecidableEq, Repr

/-- What decides a step of the worker: whether it is time to send, whether the store hands out no
envelope although it has one, which observations are in the next envelope, and what becomes of the
envelope. -/
structure Choice where
  due : Bool := true
  taken : List ℕ := []
  result : SendResult := .sent
  noEnvelope : Bool := false
  deriving DecidableEq, Repr

namespace State

/-- `Empty`, of the store. -/
def storeEmpty (s : State) : Bool := s.store.all (· ∈ s.uncounted) && !s.otherBytes

/-- `ObservationsAvailable`. -/
def observationsAvailable (s : State) : Bool := !s.storeEmpty && !s.isDisabled

/-- The worker thread has the lock between two steps. -/
def workerHasLock (s : State) : Bool := s.pc = .awake || s.pc = .goingIdle

/-- `RequestSendSoonLockHeld`. -/
def requestSendSoonLockHeld (s : State) : State :=
  { s with expeditedSendRequested := true, waitingForSchedule := false }

/-- `InvokeSendCallbacksLockHeld`. -/
def invokeSendCallbacksLockHeld (s : State) (success : Bool) : State :=
  { s with
    expeditedSendRequested := false
    sendCallbackQueue := []
    invoked := s.invoked ++ s.sendCallbackQueue.map fun callback => (callback, success) }

/-- `NotifyObservationsAdded`, with the value of `IsAlmostFull`. -/
def notifyObservationsAdded (s : State) (isAlmostFull : Bool) : State :=
  let s := if isAlmostFull then s.requestSendSoonLockHeld else s
  if s.storeEmpty then s else { s with idle := false }

/-- `RequestSendSoon`, with the lock. -/
def requestSendSoon (s : State) (sendCallback : Option SendCallback) : State :=
  let s := s.requestSendSoonLockHeld
  match sendCallback with
  | none => s
  | some callback =>
    if s.storeEmpty && s.idle then
      { s with
        expeditedSendRequested := false
        invoked := s.invoked ++ [(callback, true)] }
    else { s with sendCallbackQueue := s.sendCallbackQueue ++ [callback] }

/-- `Disable`. -/
def disable (s : State) (isDisabled : Bool) : State :=
  let s := { s with isDisabled := isDisabled }
  if isDisabled then s else { s with idle := false }

/-- A step of the worker thread. -/
def worker (s : State) (choice : Choice) : Option State :=
  match s.pc with
  | .notStarted | .exited => none
  | .top => some { s with pc := if s.shutDown then .exited else .sleeping }
  | .sleeping => some { s with pc := if s.shutDown then .exited else .awake }
  | .awake =>
    if !s.observationsAvailable then some { s with pc := .goingIdle }
    else if choice.due || s.expeditedSendRequested then
      some { s with expeditedSendRequested := false, pc := .startSending }
    else some { s with waitingForSchedule := true, pc := .waitingForSchedule }
  | .goingIdle =>
    some { s.invokeSendCallbacksLockHeld true with idle := true, pc := .waitingForObservations }
  | .waitingForObservations =>
    if s.shutDown || s.observationsAvailable || !s.idle then
      some { s with idle := false, pc := .top }
    else none
  | .waitingForSchedule => some { s with waitingForSchedule := false, pc := .top }
  | .startSending =>
    if s.isDisabled then some { s with pc := .top }
    else some { s with success := true, failuresWithoutSuccess := 0, pc := .takeNext }
  | .takeNext =>
    if choice.noEnvelope || s.store.isEmpty && !s.otherBytes then
      some { s with pc := .invokeCallbacks }
    else
      some { s with
        store := s.store.filter (· ∉ choice.taken)
        holder := s.store.filter (· ∈ choice.taken)
        pc := .sending }
  | .sending =>
    match choice.result with
    | .sent =>
      some { s with
        sent := s.sent ++ s.holder
        holder := []
        failuresWithoutSuccess := 0
        pc := .takeNext }
    | .dropped =>
      some { s with
        dropped := s.dropped ++ s.holder
        holder := []
        failuresWithoutSuccess := 0
        pc := .takeNext }
    | .failed =>
      some { s with
        success := false
        failuresWithoutSuccess := s.failuresWithoutSuccess + 1
        pc := .returning }
  | .returning =>
    some { s with
      store := s.store ++ s.holder
      holder := []
      pc := if s.failuresWithoutSuccess ≥ kMaxFailuresWithoutSuccess then .invokeCallbacks
        else .takeNext }
  | .invokeCallbacks => some { s.invokeSendCallbacksLockHeld s.success with pc := .top }

end State

/-- A step of some thread, or of the store, which counts its bytes anew. A call of `RequestSendSoon`
has two steps: the call, and its section under the lock. -/
inductive Label
  | start
  | addObservation
  | recount (uncounted : List ℕ) (otherBytes : Bool)
  | notifyObservationsAdded (isAlmostFull : Bool)
  | callRequestSendSoon (id : Option ℕ)
  | requestSendSoon (caller : ℕ)
  | disable (isDisabled : Bool)
  | shutDown
  | worker (choice : Choice)
  deriving DecidableEq, Repr

/-- The state after a step; `none` when it cannot be taken, as for a section under the lock while
the worker thread has it. -/
def State.step (s : State) (label : Label) : Option State :=
  match label with
  | .start =>
    if s.pc = .notStarted then some { s with idle := false, waitingForSchedule := false, pc := .top }
    else none
  | .addObservation => some { s with store := s.store ++ [s.added], added := s.added + 1 }
  | .recount uncounted otherBytes => some { s with uncounted, otherBytes }
  | .notifyObservationsAdded isAlmostFull =>
    if s.workerHasLock then none else some (s.notifyObservationsAdded isAlmostFull)
  | .callRequestSendSoon id =>
    some { s with callers := s.callers ++ [id.map fun id => ⟨id, s.store⟩] }
  | .requestSendSoon caller =>
    if s.workerHasLock then none
    else
      s.callers[caller]?.map fun sendCallback =>
        { s with callers := s.callers.eraseIdx caller }.requestSendSoon sendCallback
  | .disable isDisabled => if s.workerHasLock then none else some (s.disable isDisabled)
  | .shutDown => if s.workerHasLock then none else some { s with shutDown := true }
  | .worker choice => s.worker choice

/-- The state after several steps. -/
def State.run (s : State) (labels : List Label) : Option State := labels.foldlM State.step s

end Cobalt.Uploader
