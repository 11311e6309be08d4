import Cobalt.Uploader.ClearcutUploader
import Mathlib.Data.Int.ConditionallyCompleteOrder
import Mathlib.Data.List.Basic
import Mathlib.Order.Monotone.Basic
import Mathlib.Tactic.Linarith

/-!
# The attempts of an upload

Calls of `UploadEvents` one after another, in surroundings that are given for all moments of the
run: a steady clock that does not go back, whether the request can be serialized, and what the HTTP
client returns. An attempt goes through four moments: the clock is compared with the end of the
pause, the request is posted, the response is read, and the deadline is checked.

A run records what the attempts of each call were, and when requests were posted and responses read.

## Main definitions

* `Surroundings`: the clock, and the results of the attempts.
* `UploadEvent`, `lastPause`, `PausesRespected`: what happens between the uploader and the server,
  the pause that was asked for last, and that nothing is posted before its end.
* `ClearcutUploader.uploadTrials`: the loop of `UploadEvents` with its attempts.
* `UploadRun.run`: a run of calls.

## Main results

* `ClearcutUploader.uploadTrials_eq_uploadLoop`: the loop is the one of `UploadEvents`.
* `ClearcutUploader.trial_events_eq_nil_iff`: an attempt is recorded without events if it does not
  post the request.
* `UploadRun.run_spec`: what holds of every run.
-/

namespace Cobalt.Uploader

/-! ### Surroundings -/

/-- What a run depends on, by moment. -/
structure Surroundings where
  clock : ℕ → ℤ
  clock_mono : Monotone clock
  serialized : ℕ → Bool
  response : ℕ → StatusOr HTTPResponse

/-- The attempt that begins at a moment. -/
def Surroundings.attempt (w : Surroundings) (t : ℕ) : Attempt where
  now := w.clock t
  serialized := w.serialized t
  response := w.response t
  read := w.clock (t + 2)
  checked := w.clock (t + 3)

/-! ### Pauses -/

/-- A request is posted, or what the HTTP client returns for it is read. -/
inductive UploadEvent
  | posted (time : ℤ)
  | responded (time : ℤ) (response : StatusOr HTTPResponse)

namespace UploadEvent

/-- A response with the code `200`. -/
def Accepts : UploadEvent → Prop
  | .responded _ (.value response) => response.httpCode = 200
  | _ => False

/-- The time until which a response asks to pause: a response with the code `200` that can be parsed
and whose wait is not negative. -/
def pause : UploadEvent → Option ℤ
  | .responded time (.value response) =>
    if response.httpCode = 200 then
      response.nextRequestWaitMillis.bind fun wait => if wait ≥ 0 then some (time + wait) else none
    else none
  | _ => none

end UploadEvent

/-- The end of the pause that was asked for last, or else the time of the construction. -/
def lastPause (constructed : ℤ) (events : List UploadEvent) : ℤ :=
  (events.filterMap UploadEvent.pause).getLast?.getD constructed

/-- Nothing is posted during a pause. -/
def PausesRespected (constructed : ℤ) (events : List UploadEvent) : Prop :=
  ∀ before time after, events = before ++ .posted time :: after →
    lastPause constructed before ≤ time

@[simp] theorem lastPause_nil (c : ℤ) : lastPause c [] = c := rfl

theorem lastPause_cons (c : ℤ) (e : UploadEvent) (es : List UploadEvent) :
    lastPause c (e :: es) = lastPause (e.pause.getD c) es := by
  cases he : e.pause with
  | none => rw [lastPause, List.filterMap_cons_none he, Option.getD_none, lastPause]
  | some p =>
    rw [lastPause, List.filterMap_cons_some he, List.getLast?_cons, Option.getD_some,
      Option.getD_some, lastPause]

theorem lastPause_append (c : ℤ) (es fs : List UploadEvent) :
    lastPause c (es ++ fs) = lastPause (lastPause c es) fs := by
  induction es generalizing c with
  | nil => rfl
  | cons e es ih => rw [List.cons_append, lastPause_cons, ih, lastPause_cons]

theorem pausesRespected_nil (c : ℤ) : PausesRespected c [] := by
  intro before time after h
  simp at h

theorem pausesRespected_cons {c : ℤ} {e : UploadEvent} {es : List UploadEvent} :
    PausesRespected c (e :: es) ↔
      (∀ time, e = .posted time → c ≤ time) ∧ PausesRespected (e.pause.getD c) es := by
  refine ⟨fun h => ⟨fun time he => ?_, fun before time after hes => ?_⟩, ?_⟩
  · exact h [] time es (by rw [he, List.nil_append])
  · have hle := h (e :: before) time after (by rw [hes, List.cons_append])
    rwa [lastPause_cons] at hle
  · rintro ⟨hfirst, hrest⟩ before time after hes
    cases before with
    | nil => exact hfirst time (List.cons.inj hes).1
    | cons e' before =>
      obtain ⟨rfl, hes'⟩ := List.cons.inj hes
      rw [lastPause_cons]
      exact hrest before time after hes'

theorem pausesRespected_append {c : ℤ} {es fs : List UploadEvent} :
    PausesRespected c (es ++ fs) ↔
      PausesRespected c es ∧ PausesRespected (lastPause c es) fs := by
  induction es generalizing c with
  | nil => simp [pausesRespected_nil]
  | cons e es ih =>
    rw [List.cons_append, pausesRespected_cons, ih, pausesRespected_cons, lastPause_cons, and_assoc]

/-! ### The attempts of a call -/

/-- What an attempt returns, and what happened in it. -/
structure Trial where
  status : Status
  events : List UploadEvent

/-- The server has responded with `200`. -/
def Trial.Accepted (trial : Trial) : Prop := ∃ e ∈ trial.events, e.Accepts

namespace ClearcutUploader

variable {C : Type} (w : Surroundings)

/-- The record of an attempt of `TryUploadEvents`. -/
def trial (u : ClearcutUploader C) (request : LogRequest C) (t : ℕ) : Trial where
  status := (u.tryUploadEvents request (w.attempt t)).1
  events :=
    if w.clock t < u.pauseUploadsUntil ∨ w.serialized t = false then []
    else [.posted (w.clock (t + 1)), .responded (w.clock (t + 2)) (w.response t)]

/-- The loop of `UploadEvents` after `i` attempts, of which the next one begins at the moment `t`,
with the record of the attempts; `none` when more than `n` are needed. -/
def uploadTrials (request : LogRequest C) (maxRetries : ℤ) (deadline : Option ℤ) :
    ℕ → ℤ → ℕ → ClearcutUploader C → Option (Status × ClearcutUploader C × List Trial)
  | 0, _, _, _ => none
  | n + 1, i, t, u =>
    let trial := u.trial w request t
    let (response, u) := u.tryUploadEvents request (w.attempt t)
    if response.ok || i + 1 = maxRetries then some (response, u, [trial])
    else if isPermanent response.code then some (response, u, [trial])
    else if deadline.any (· < (w.attempt t).checked) then
      some (⟨.DEADLINE_EXCEEDED, "Deadline exceeded."⟩, u, [trial])
    else
      (uploadTrials request maxRetries deadline n (i + 1) (t + 4) u).map fun result =>
        (result.1, result.2.1, trial :: result.2.2)

variable {w} {request : LogRequest C} {maxRetries : ℤ} {deadline : Option ℤ}

/-- The record does not change the loop. -/
theorem uploadTrials_eq_uploadLoop (n : ℕ) (i : ℤ) (t : ℕ) (u : ClearcutUploader C) :
    (uploadTrials w request maxRetries deadline n i t u).map (fun result =>
        (result.1, result.2.1)) =
      uploadLoop request maxRetries deadline i
        ((List.range n).map fun k => w.attempt (t + 4 * k)) u := by
  induction n generalizing i t u with
  | zero => rfl
  | succ n ih =>
    have htail : (List.range (n + 1)).map (fun k => w.attempt (t + 4 * k)) =
        w.attempt t :: (List.range n).map fun k => w.attempt (t + 4 + 4 * k) := by
      rw [List.range_succ_eq_map, List.map_cons, List.map_map]
      refine congrArg _ (List.map_congr_left fun k _ => ?_)
      exact congrArg w.attempt (by dsimp only [Nat.succ_eq_add_one]; omega)
    rw [htail, uploadTrials, uploadLoop]
    dsimp only
    split_ifs
    · rfl
    · rfl
    · rfl
    · rw [← ih, Option.map_map]
      rfl

/-! ### One attempt -/

variable {u u' : ClearcutUploader C} {t : ℕ}

/-- An attempt is recorded without events if and only if `TryUploadEvents` returns before it
posts the request: its result is the same whatever `PostSync` would return. -/
theorem trial_events_eq_nil_iff : (u.trial w request t).events = [] ↔ ∀ response,
    u.tryUploadEvents request { w.attempt t with response := response } =
      u.tryUploadEvents request (w.attempt t) := by
  constructor
  · intro hevents response
    by_cases hpaused : w.clock t < u.pauseUploadsUntil
    · simp [tryUploadEvents, Surroundings.attempt, hpaused]
    · have hserialized : w.serialized t = false := by
        simpa [trial, hpaused] using hevents
      simp [tryUploadEvents, Surroundings.attempt, hpaused, hserialized]
  · intro hsame
    by_contra hevents
    obtain ⟨hpaused, hserialized⟩ : ¬ w.clock t < u.pauseUploadsUntil ∧ w.serialized t ≠ false := by
      simpa [trial] using hevents
    -- A refusal and an acceptance by the server would have the same result.
    have heq := (hsame (.error ⟨.UNKNOWN, ""⟩ rfl)).trans (hsame (.value ⟨200, none⟩)).symm
    have hcode := congrArg (fun result => result.1.code) heq
    simp [tryUploadEvents, Surroundings.attempt, hpaused, hserialized] at hcode

/-- An attempt: it does not post anything and changes nothing, or it posts the request after the
end of the pause and takes over the pause of the response. -/
theorem trial_cases (w : Surroundings) (request : LogRequest C) (u : ClearcutUploader C) (t : ℕ) :
    ((u.trial w request t).events = [] ∧ (u.trial w request t).status.ok = false ∧
      (u.tryUploadEvents request (w.attempt t)).2.pauseUploadsUntil = u.pauseUploadsUntil) ∨
    ((u.trial w request t).events =
        [.posted (w.clock (t + 1)), .responded (w.clock (t + 2)) (w.response t)] ∧
      u.pauseUploadsUntil ≤ w.clock t ∧
      ((u.trial w request t).status.ok = true ↔
        UploadEvent.Accepts (.responded (w.clock (t + 2)) (w.response t))) ∧
      (u.tryUploadEvents request (w.attempt t)).2.pauseUploadsUntil =
        (UploadEvent.pause (.responded (w.clock (t + 2)) (w.response t))).getD
          u.pauseUploadsUntil) := by
  unfold trial tryUploadEvents Surroundings.attempt
  dsimp only
  by_cases hpaused : w.clock t < u.pauseUploadsUntil
  · left
    simp [hpaused, Status.ok]
  cases hserialized : w.serialized t with
  | false =>
    left
    simp [hpaused, Status.ok]
  | true =>
    right
    cases w.response t with
    | error status h => simp [hpaused, h, UploadEvent.Accepts, UploadEvent.pause, not_lt.mp hpaused]
    | value response =>
      by_cases hcode : response.httpCode = 200
      · cases hwait : response.nextRequestWaitMillis with
        | none =>
          simp [hpaused, hcode, hwait, Status.ok, UploadEvent.Accepts, UploadEvent.pause,
            pauseAfter, not_lt.mp hpaused]
        | some wait =>
          by_cases hle : 0 ≤ wait <;>
            simp [hpaused, hcode, hwait, hle, Status.ok, UploadEvent.Accepts, UploadEvent.pause,
              pauseAfter, not_lt.mp hpaused]
      · simp [hpaused, hcode, ok_statusOfHttpCode, UploadEvent.Accepts, UploadEvent.pause,
          not_lt.mp hpaused]

theorem accepted_trial_iff :
    (u.trial w request t).Accepted ↔ (u.trial w request t).status.ok = true := by
  rcases trial_cases w request u t with ⟨hevents, hfailed, -⟩ | ⟨hevents, -, hok, -⟩
  · simp [Trial.Accepted, hevents, hfailed]
  · rw [hok, Trial.Accepted, hevents]
    simp [UploadEvent.Accepts]

theorem lastPause_trial :
    (u.tryUploadEvents request (w.attempt t)).2.pauseUploadsUntil =
      lastPause u.pauseUploadsUntil (u.trial w request t).events := by
  rcases trial_cases w request u t with ⟨hevents, -, hpause⟩ | ⟨hevents, -, -, hpause⟩
  · rw [hevents, hpause, lastPause_nil]
  · rw [hevents, hpause, lastPause_cons, lastPause_cons, lastPause_nil]
    rfl

theorem pausesRespected_trial :
    PausesRespected u.pauseUploadsUntil (u.trial w request t).events := by
  rcases trial_cases w request u t with ⟨hevents, -, -⟩ | ⟨hevents, hle, -, -⟩
  · rw [hevents]
    exact pausesRespected_nil _
  · rw [hevents, pausesRespected_cons, pausesRespected_cons]
    refine ⟨fun time htime => ?_, fun time htime => ?_, pausesRespected_nil _⟩
    · cases htime
      exact hle.trans (w.clock_mono (Nat.le_succ t))
    · cases htime

/-! ### One call -/

/-- What holds of the attempts of a call of `UploadEvents`. -/
structure UploadsWell (maxRetries : ℤ) (status : Status) (trials : List Trial) : Prop where
  attempted : trials ≠ []
  attempts_le : (trials.length : ℤ) ≤ maxRetries
  ok_iff : status.ok = true ↔ ∃ trial ∈ trials, trial.Accepted
  stops : ∀ trial ∈ trials.dropLast, ¬ trial.Accepted ∧ isPermanent trial.status.code = false

variable {n : ℕ} {i : ℤ} {status : Status} {trials : List Trial}

/-- An iteration of the loop is the last one, or it has failed with an error that is not
permanent and the loop goes on. -/
theorem uploadTrials_cases
    (h : uploadTrials w request maxRetries deadline (n + 1) i t u = some (status, u', trials)) :
    (trials = [u.trial w request t] ∧ u' = (u.tryUploadEvents request (w.attempt t)).2 ∧
      (status.ok = true ↔ (u.trial w request t).status.ok = true)) ∨
    ∃ rest, trials = u.trial w request t :: rest ∧ (u.trial w request t).status.ok = false ∧
      isPermanent (u.trial w request t).status.code = false ∧ i + 1 ≠ maxRetries ∧
      uploadTrials w request maxRetries deadline n (i + 1) (t + 4)
        (u.tryUploadEvents request (w.attempt t)).2 = some (status, u', rest) := by
  rw [uploadTrials] at h
  dsimp only at h
  split_ifs at h with hlast hpermanent hdeadline
  · obtain ⟨rfl, rfl, rfl⟩ := h
    exact .inl ⟨rfl, rfl, Iff.rfl⟩
  · obtain ⟨rfl, rfl, rfl⟩ := h
    exact .inl ⟨rfl, rfl, Iff.rfl⟩
  · obtain ⟨rfl, rfl, rfl⟩ := h
    have hfailed := (Bool.or_eq_false_iff.mp (Bool.eq_false_iff.mpr hlast)).1
    exact .inl ⟨rfl, rfl, iff_of_false (by decide) (by rw [trial, hfailed]; decide)⟩
  · obtain ⟨hfailed, hne⟩ := Bool.or_eq_false_iff.mp (Bool.eq_false_iff.mpr hlast)
    obtain ⟨⟨_, _, rest⟩, hrest, heq⟩ := Option.map_eq_some_iff.mp h
    obtain ⟨rfl, rfl, rfl⟩ := heq
    exact .inr ⟨rest, rfl, hfailed, Bool.eq_false_iff.mpr hpermanent, of_decide_eq_false hne,
      hrest⟩

/-- The attempts of a call. -/
theorem uploadsWell_uploadTrials (hi : i < maxRetries)
    (h : uploadTrials w request maxRetries deadline n i t u = some (status, u', trials)) :
    UploadsWell (maxRetries - i) status trials := by
  induction n generalizing i t u trials with
  | zero => cases h
  | succ n ih =>
    obtain ⟨rfl, -, hok⟩ | ⟨rest, rfl, hfailed, hpermanent, hne, hrest⟩ := uploadTrials_cases h
    · refine ⟨List.cons_ne_nil _ _, ?_, ?_, by simp⟩
      · rw [List.length_singleton]
        omega
      · rw [hok, ← accepted_trial_iff]
        simp
    · have hrest' := ih (by omega) hrest
      have hnot : ¬ (u.trial w request t).Accepted := by
        rw [accepted_trial_iff, hfailed]
        decide
      refine ⟨List.cons_ne_nil _ _, ?_, ?_, ?_⟩
      · have hlength := hrest'.attempts_le
        rw [List.length_cons]
        omega
      · rw [hrest'.ok_iff]
        simp [hnot]
      · rw [List.dropLast_cons_of_ne_nil hrest'.attempted]
        intro trial htrial
        rcases List.mem_cons.mp htrial with rfl | hmem
        · exact ⟨hnot, hpermanent⟩
        · exact hrest'.stops trial hmem

/-- The pause that the uploader keeps is the last one that was asked for, and it is
respected. -/
theorem pausesRespected_uploadTrials
    (h : uploadTrials w request maxRetries deadline n i t u = some (status, u', trials)) :
    u'.pauseUploadsUntil = lastPause u.pauseUploadsUntil (trials.flatMap Trial.events) ∧
      PausesRespected u.pauseUploadsUntil (trials.flatMap Trial.events) := by
  induction n generalizing i t u trials with
  | zero => cases h
  | succ n ih =>
    obtain ⟨rfl, rfl, -⟩ | ⟨rest, rfl, -, -, -, hrest⟩ := uploadTrials_cases h
    · rw [List.flatMap_singleton]
      exact ⟨lastPause_trial, pausesRespected_trial⟩
    · obtain ⟨hpause, hrespected⟩ := ih hrest
      rw [lastPause_trial] at hpause hrespected
      rw [List.flatMap_cons, lastPause_append, pausesRespected_append]
      exact ⟨hpause, pausesRespected_trial, hrespected⟩

end ClearcutUploader

/-! ### Runs of calls -/

/-- A call of `UploadEvents`, and for how many moments nothing is called before it. -/
structure UploadCall (C : Type) where
  request : LogRequest C
  maxRetries : ℤ
  delay : ℕ := 0

/-- A call with what it returned and its attempts. -/
structure UploadOutcome (C : Type) where
  call : UploadCall C
  status : Status
  trials : List Trial

/-- A state of a run: the uploader, the moment, and the calls that were made. -/
structure UploadRun (C : Type) where
  uploader : ClearcutUploader C
  moment : ℕ
  outcomes : List (UploadOutcome C) := []

namespace UploadRun

variable {C : Type} (w : Surroundings)

/-- The constructor of the uploader, which allows uploads from its own time on. -/
def new (uploadTimeout : ℤ) : UploadRun C where
  uploader := { uploadTimeout := uploadTimeout, pauseUploadsUntil := w.clock 0 }
  moment := 0

/-- What was posted and read in the run. -/
def events (s : UploadRun C) : List UploadEvent :=
  s.outcomes.flatMap fun outcome => outcome.trials.flatMap Trial.events

/-- One call, which is given as many attempts as it may make. -/
def call (s : UploadRun C) (c : UploadCall C) : Option (UploadRun C) :=
  let start := s.moment + c.delay
  let deadline := if s.uploader.uploadTimeout > 0 then
    some (w.clock start + s.uploader.uploadTimeout) else none
  (ClearcutUploader.uploadTrials w c.request c.maxRetries deadline c.maxRetries.toNat 0 (start + 1)
    s.uploader).map fun result =>
      { uploader := result.2.1
        moment := start + 1 + 4 * result.2.2.length
        outcomes := s.outcomes ++ [⟨c, result.1, result.2.2⟩] }

/-- Calls one after another. -/
def run : List (UploadCall C) → UploadRun C → Option (UploadRun C)
  | [], s => some s
  | c :: calls, s => (s.call w c).bind (run calls)

variable {w} {s : UploadRun C} {c : UploadCall C}

/-- A call is one of `UploadEvents`, with the attempts at the moments that follow. -/
theorem call_eq_uploadEvents :
    (s.call w c).map (fun s' => (s'.outcomes.getLast?.map UploadOutcome.status, s'.uploader)) =
      (s.uploader.uploadEvents c.request c.maxRetries (w.clock (s.moment + c.delay))
        ((List.range c.maxRetries.toNat).map fun k =>
          w.attempt (s.moment + c.delay + 1 + 4 * k))).map fun result =>
        (some result.1, result.2) := by
  rw [ClearcutUploader.uploadEvents, ← ClearcutUploader.uploadTrials_eq_uploadLoop, call,
    Option.map_map, Option.map_map]
  refine congrArg (Option.map · _) (funext fun result => ?_)
  simp

/-- What holds of every state of a run. -/
structure Inv (w : Surroundings) (s : UploadRun C) : Prop where
  uploadsWell : ∀ o ∈ s.outcomes,
    ClearcutUploader.UploadsWell o.call.maxRetries o.status o.trials
  pause : s.uploader.pauseUploadsUntil = lastPause (w.clock 0) s.events
  respected : PausesRespected (w.clock 0) s.events

theorem inv_new (w : Surroundings) (uploadTimeout : ℤ) :
    Inv w (new w uploadTimeout : UploadRun C) where
  uploadsWell o ho := by cases ho
  pause := rfl
  respected := pausesRespected_nil _

/-- A call returns, and keeps the invariant. -/
theorem Inv.call (h : Inv w s) (hretries : 1 ≤ c.maxRetries) :
    ∃ s', s.call w c = some s' ∧ Inv w s' ∧
      s'.outcomes.map UploadOutcome.call = s.outcomes.map UploadOutcome.call ++ [c] := by
  have hsome : ((ClearcutUploader.uploadTrials w c.request c.maxRetries
      (if s.uploader.uploadTimeout > 0 then
        some (w.clock (s.moment + c.delay) + s.uploader.uploadTimeout) else none)
      c.maxRetries.toNat 0 (s.moment + c.delay + 1) s.uploader).map fun result =>
        (result.1, result.2.1)).isSome := by
    rw [ClearcutUploader.uploadTrials_eq_uploadLoop]
    refine ClearcutUploader.isSome_uploadLoop (by omega) ?_
    rw [List.length_map, List.length_range]
    omega
  rw [Option.isSome_map, Option.isSome_iff_exists] at hsome
  obtain ⟨⟨status, u', trials⟩, hresult⟩ := hsome
  refine ⟨_, by rw [UploadRun.call, hresult, Option.map_some], ⟨fun o ho => ?_, ?_, ?_⟩, ?_⟩
  · rcases List.mem_append.mp ho with hold | hnew
    · exact h.uploadsWell o hold
    · rw [List.mem_singleton.mp hnew]
      have hwell := ClearcutUploader.uploadsWell_uploadTrials (by omega) hresult
      rwa [Int.sub_zero] at hwell
  · obtain ⟨hpause, -⟩ := ClearcutUploader.pausesRespected_uploadTrials hresult
    rw [h.pause] at hpause
    simpa [events, lastPause_append] using hpause
  · obtain ⟨-, hrespected⟩ := ClearcutUploader.pausesRespected_uploadTrials hresult
    rw [h.pause] at hrespected
    simpa [events, pausesRespected_append] using ⟨h.respected, hrespected⟩
  · simp

theorem Inv.run {calls : List (UploadCall C)} (h : Inv w s)
    (hretries : ∀ c ∈ calls, 1 ≤ c.maxRetries) :
    ∃ s', UploadRun.run w calls s = some s' ∧ Inv w s' ∧
      s'.outcomes.map UploadOutcome.call = s.outcomes.map UploadOutcome.call ++ calls := by
  induction calls generalizing s with
  | nil => exact ⟨s, rfl, h, (List.append_nil _).symm⟩
  | cons c calls ih =>
    obtain ⟨s₁, hcall, h₁, hcalls₁⟩ := h.call (hretries c List.mem_cons_self)
    obtain ⟨s₂, hrun, h₂, hcalls₂⟩ := ih h₁ fun c hc => hretries c (List.mem_cons_of_mem _ hc)
    refine ⟨s₂, by rw [UploadRun.run, hcall, Option.bind_some, hrun], h₂, ?_⟩
    rw [hcalls₂, hcalls₁, List.append_assoc, List.singleton_append]

/-- **Uploads.** In every run each call returns, after no more attempts than it may make; it returns
`OK` if and only if the server has responded with `200`; no attempt follows such a response or a
permanent error; and nothing is posted before the end of the pause that the server asked for
last. -/
theorem run_spec (w : Surroundings) (uploadTimeout : ℤ) (calls : List (UploadCall C))
    (hretries : ∀ c ∈ calls, 1 ≤ c.maxRetries) :
    ∃ s, run w calls (new w uploadTimeout) = some s ∧
      s.outcomes.map UploadOutcome.call = calls ∧
      (∀ o ∈ s.outcomes, ClearcutUploader.UploadsWell o.call.maxRetries o.status o.trials) ∧
      s.uploader.pauseUploadsUntil = lastPause (w.clock 0) s.events ∧
      PausesRespected (w.clock 0) s.events := by
  obtain ⟨s, hrun, hinv, hcalls⟩ := (inv_new w uploadTimeout).run hretries
  exact ⟨s, hrun, hcalls, hinv.uploadsWell, hinv.pause, hinv.respected⟩

/-- A server that is not available at first, and then asks for a pause. -/
def pausingServer : Surroundings where
  clock t := t
  clock_mono _ _ h := Int.ofNat_le.mpr h
  serialized _ := true
  response t :=
    if t = 1 then .value { httpCode := 503 }
    else .value { httpCode := 200, nextRequestWaitMillis := some 100 }

/-- A call that is accepted at the second attempt, and one that the pause refuses. -/
theorem run_spec_pausingServer :
    ∃ s : UploadRun ℕ,
      run pausingServer [⟨{ logSource := 1 }, 3, 0⟩, ⟨{ logSource := 1 }, 1, 0⟩]
        (new pausingServer 0) = some s ∧
      s.outcomes.map UploadOutcome.call =
        [⟨{ logSource := 1 }, 3, 0⟩, ⟨{ logSource := 1 }, 1, 0⟩] ∧
      s.uploader.pauseUploadsUntil = lastPause 0 s.events ∧ PausesRespected 0 s.events := by
  obtain ⟨s, hrun, hcalls, -, hpause, hrespected⟩ := run_spec pausingServer 0
    [⟨{ logSource := 1 }, 3, 0⟩, ⟨{ logSource := 1 }, 1, 0⟩] (by simp)
  exact ⟨s, hrun, hcalls, hpause, hrespected⟩

end UploadRun

end Cobalt.Uploader
