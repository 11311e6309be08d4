import Mathlib.Algebra.Order.Ring.Int

/-!
# The Clearcut uploader

A `ClearcutUploader` posts a request to the Clearcut server, and again after a failure that is not
permanent, until the request is accepted, the attempts are used up, or the deadline has passed. The
server can ask for a pause, during which nothing is posted.

What the clock shows, whether the request can be serialized, and what the HTTP client returns are
parameters of an attempt. `UploadEvents` is given a list of attempts, of which it uses as many as it
makes. Times are in milliseconds.

## Main definitions

* `Status`, `StatusOr`: a status, and a value or a status that is not `OK`.
* `ClearcutUploader.tryUploadEvents`, `ClearcutUploader.uploadEvents`.

## Main results

* `ClearcutUploader.accepted_uploadEvents`: the server has accepted the request if and only if
  `UploadEvents` returns `OK`.
* `ClearcutUploader.isSome_uploadEvents`: `UploadEvents` returns after as many attempts as it is given.
-/

namespace Cobalt.Uploader

/-! ### Statuses -/

/-- `util::StatusCode`. -/
inductive StatusCode
  | OK
  | CANCELLED
  | UNKNOWN
  | INVALID_ARGUMENT
  | DEADLINE_EXCEEDED
  | NOT_FOUND
  | ALREADY_EXISTS
  | PERMISSION_DENIED
  | RESOURCE_EXHAUSTED
  | FAILED_PRECONDITION
  | ABORTED
  | OUT_OF_RANGE
  | UNIMPLEMENTED
  | INTERNAL
  | UNAVAILABLE
  | DATA_LOSS
  | UNAUTHENTICATED
  | DO_NOT_USE
  deriving DecidableEq, Repr

/-- `util::Status`. -/
structure Status where
  code : StatusCode := .OK
  errorMessage : String := ""
  deriving DecidableEq, Repr

/-- `Status::ok`. -/
def Status.ok (status : Status) : Bool := status.code = .OK

/-- `StatusOr`: its constructor replaces a status that is `OK` by another one. -/
inductive StatusOr (α : Type)
  | value (a : α)
  | error (status : Status) (h : status.ok = false)

/-! ### Requests and responses -/

/-- `kFuchsiaClientType`. -/
def kFuchsiaClientType : ℤ := 17

/-- A `LogRequest`, with the encrypted envelope of each of its events. -/
structure LogRequest (C : Type) where
  logSource : ℤ
  clientType : ℤ := 0
  logEvent : List C := []
  deriving DecidableEq, Repr

/-- An `HTTPResponse`, with its body if it can be parsed: the field `next_request_wait_millis`. -/
structure HTTPResponse where
  httpCode : ℤ
  nextRequestWaitMillis : Option ℤ := none
  deriving DecidableEq, Repr

/-- What decides an attempt: the clock at its start, whether the request can be serialized, what
`PostSync` returns, the clock when the response is read, and when the deadline is checked. -/
structure Attempt where
  now : ℤ
  serialized : Bool := true
  response : StatusOr HTTPResponse
  read : ℤ
  checked : ℤ

/-- The fields of an uploader. The last one is a record of the run: the requests to which the server
has responded with `200`. -/
structure ClearcutUploader (C : Type) where
  uploadTimeout : ℤ
  pauseUploadsUntil : ℤ
  accepted : List (LogRequest C) := []

namespace ClearcutUploader

variable {C : Type}

/-- The status for a response that is not `200`. -/
def statusOfHttpCode (httpCode : ℤ) : Status :=
  match httpCode with
  | 400 => ⟨.INVALID_ARGUMENT, toString httpCode ++ ": Bad Request"⟩
  | 401 | 403 => ⟨.PERMISSION_DENIED, toString httpCode ++ ": Permission Denied"⟩
  | 404 => ⟨.NOT_FOUND, toString httpCode ++ ": Not Found"⟩
  | 503 => ⟨.RESOURCE_EXHAUSTED, toString httpCode ++ ": Service Unavailable"⟩
  | _ => ⟨.UNKNOWN, toString httpCode ++ ": Unknown Error Code"⟩

/-- The time until which the server asks to pause. -/
def pauseAfter (pauseUploadsUntil read : ℤ) : Option ℤ → ℤ
  | none => pauseUploadsUntil
  | some wait => if wait ≥ 0 then read + wait else pauseUploadsUntil

/-- `TryUploadEvents`. -/
def tryUploadEvents (u : ClearcutUploader C) (request : LogRequest C) (attempt : Attempt) :
    Status × ClearcutUploader C :=
  if attempt.now < u.pauseUploadsUntil then
    (⟨.RESOURCE_EXHAUSTED,
      "Uploads are currently paused at the request of the clearcut server"⟩, u)
  else if !attempt.serialized then
    (⟨.INVALID_ARGUMENT,
      "ClearcutUploader: Unable to serialize log_request to binary proto."⟩, u)
  else match attempt.response with
  | .error status _ => (status, u)
  | .value response =>
    if response.httpCode ≠ 200 then (statusOfHttpCode response.httpCode, u)
    else
      ({}, { u with
        pauseUploadsUntil :=
          pauseAfter u.pauseUploadsUntil attempt.read response.nextRequestWaitMillis
        accepted := u.accepted ++ [{ request with clientType := kFuchsiaClientType }] })

/-- The errors after which `UploadEvents` makes no further attempt. -/
def isPermanent : StatusCode → Bool
  | .INVALID_ARGUMENT | .NOT_FOUND | .PERMISSION_DENIED => true
  | _ => false

/-- The loop of `UploadEvents`, after `i` attempts; `none` when the attempts that are given to it
are not enough. -/
def uploadLoop (request : LogRequest C) (maxRetries : ℤ) (deadline : Option ℤ) :
    ℤ → List Attempt → ClearcutUploader C → Option (Status × ClearcutUploader C)
  | _, [], _ => none
  | i, attempt :: attempts, u =>
    let (response, u) := u.tryUploadEvents request attempt
    if response.ok || i + 1 = maxRetries then some (response, u)
    else if isPermanent response.code then some (response, u)
    else if deadline.any (· < attempt.checked) then
      some (⟨.DEADLINE_EXCEEDED, "Deadline exceeded."⟩, u)
    else uploadLoop request maxRetries deadline (i + 1) attempts u

/-- `UploadEvents`, with the clock at its start. -/
def uploadEvents (u : ClearcutUploader C) (request : LogRequest C) (maxRetries start : ℤ)
    (attempts : List Attempt) : Option (Status × ClearcutUploader C) :=
  let deadline := if u.uploadTimeout > 0 then some (start + u.uploadTimeout) else none
  uploadLoop request maxRetries deadline 0 attempts u

/-! ### What the server has accepted -/

theorem ok_statusOfHttpCode (httpCode : ℤ) : (statusOfHttpCode httpCode).ok = false := by
  unfold statusOfHttpCode
  split <;> rfl

/-- An attempt. The server has accepted the request if and only if the status is `OK`. -/
theorem accepted_tryUploadEvents (u : ClearcutUploader C) (request : LogRequest C)
    (attempt : Attempt) :
    (u.tryUploadEvents request attempt).2.accepted =
      if (u.tryUploadEvents request attempt).1.ok then
        u.accepted ++ [{ request with clientType := kFuchsiaClientType }]
      else u.accepted := by
  unfold tryUploadEvents
  by_cases hpaused : attempt.now < u.pauseUploadsUntil
  · rw [if_pos hpaused]
    rfl
  · rw [if_neg hpaused]
    cases attempt.serialized with
    | false => rfl
    | true =>
      cases attempt.response with
      | error status h => simp [h]
      | value response =>
        by_cases hcode : response.httpCode = 200
        · simp [hcode, Status.ok]
        · simp [hcode, ok_statusOfHttpCode]

theorem accepted_uploadLoop {request : LogRequest C} {maxRetries : ℤ} {deadline : Option ℤ} {i : ℤ}
    {attempts : List Attempt} {u u' : ClearcutUploader C} {status : Status}
    (h : uploadLoop request maxRetries deadline i attempts u = some (status, u')) :
    u'.accepted =
      if status.ok then u.accepted ++ [{ request with clientType := kFuchsiaClientType }]
      else u.accepted := by
  induction attempts generalizing i u with
  | nil => cases h
  | cons attempt attempts ih =>
    have htry := accepted_tryUploadEvents u request attempt
    have hsame (hfailed : (u.tryUploadEvents request attempt).1.ok = false) :
        (u.tryUploadEvents request attempt).2.accepted = u.accepted := by
      rw [htry, hfailed]
      rfl
    simp only [uploadLoop] at h
    split_ifs at h with hlast hpermanent hdeadline
    · obtain ⟨rfl, rfl⟩ := Prod.mk.inj (Option.some.inj h)
      exact htry
    · obtain ⟨rfl, rfl⟩ := Prod.mk.inj (Option.some.inj h)
      exact htry
    · obtain ⟨rfl, rfl⟩ := Prod.mk.inj (Option.some.inj h)
      exact hsame (Bool.or_eq_false_iff.mp (Bool.eq_false_iff.mpr hlast)).1
    · rw [ih h, hsame (Bool.or_eq_false_iff.mp (Bool.eq_false_iff.mpr hlast)).1]

/-- **Uploading a request.** The server has accepted the request, and that once, if and only if
`UploadEvents` returns `OK`. -/
theorem accepted_uploadEvents {u u' : ClearcutUploader C} {request : LogRequest C}
    {maxRetries start : ℤ} {attempts : List Attempt} {status : Status}
    (h : u.uploadEvents request maxRetries start attempts = some (status, u')) :
    u'.accepted =
      if status.ok then u.accepted ++ [{ request with clientType := kFuchsiaClientType }]
      else u.accepted :=
  accepted_uploadLoop h

theorem isSome_uploadLoop {request : LogRequest C} {maxRetries : ℤ} {deadline : Option ℤ} {i : ℤ}
    {attempts : List Attempt} {u : ClearcutUploader C} (hi : i < maxRetries)
    (hattempts : maxRetries - i ≤ attempts.length) :
    (uploadLoop request maxRetries deadline i attempts u).isSome := by
  induction attempts generalizing i u with
  | nil =>
    simp only [List.length_nil, Int.natCast_zero] at hattempts
    omega
  | cons attempt attempts ih =>
    simp only [uploadLoop]
    split_ifs with hlast
    · rfl
    · rfl
    · rfl
    · have hne : i + 1 ≠ maxRetries := by
        intro heq
        simp [heq] at hlast
      rw [List.length_cons, Int.natCast_succ] at hattempts
      exact ih (by omega) (by omega)

/-- `UploadEvents` returns after at most as many attempts as it may make. -/
theorem isSome_uploadEvents {u : ClearcutUploader C} {request : LogRequest C}
    {maxRetries start : ℤ} {attempts : List Attempt} (hpos : 0 < maxRetries)
    (hattempts : maxRetries ≤ attempts.length) :
    (u.uploadEvents request maxRetries start attempts).isSome :=
  isSome_uploadLoop hpos (by omega)

end ClearcutUploader

end Cobalt.Uploader
