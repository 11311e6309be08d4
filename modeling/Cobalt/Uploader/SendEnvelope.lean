import Cobalt.Lib.Disk
import Cobalt.Uploader.ClearcutUploader
import Cobalt.Uploader.ExpeditedSend
import Mathlib.Data.List.TakeDrop

/-!
# Sending an envelope to the backend

`SendEnvelopeToBackend` returns the holder of an envelope that it could not send, and `nullptr`
otherwise, whereupon the holder is destroyed and with it the stored observations. There are two
implementations. The `ClearcutV1ShippingManager` encrypts the envelope and uploads it; an envelope
that cannot be encrypted is dropped. The `LocalShippingManager` appends the envelope to a file. It
sets its status to `OK` and never to anything else, so it returns `nullptr` also when the file could
not be opened or the envelope could not be written, and the branch that returns the holder is never
taken.

The holder, the batches and the encryption are parameters, as is what the file system does: whether
the file can be opened, what `SerializeDelimitedToZeroCopyStream` returns, and how many bytes are in
the file when the stream has been closed. The stream is buffered, so that a write can fail after
`SerializeDelimitedToZeroCopyStream` has returned.

## Main definitions

* `ClearcutV1ShippingManager.sendEnvelopeToBackend`, `LocalShippingManager.sendEnvelopeToBackend`.
* `SendCall`: a call of one of the two, with everything that can fail in it.
* `UploadedOrKept`: the holder is returned unless the envelope was delivered or could not be
  encrypted.

## Main results

* `returnsToStore`: the observations of a holder that is returned are in the store again.
* `uploadedOrKept_iff`: the holder is as it is to be in every call of the one manager, and in those of
  the other manager that write the whole envelope.
* `not_uploadedOrKept_unopened`: a file that cannot be opened.
-/

namespace Cobalt.Uploader

/-! ### Envelopes -/

/-- An `Envelope`, with batches of any type. -/
structure Envelope (B : Type) where
  batch : List B
  apiKey : String := ""
  deriving DecidableEq, Repr

/-- A number as a varint of the protocol buffer format: seven bits in a byte, the lowest ones first,
with the highest bit set in every byte but the last. -/
def varint (n : ℕ) : Bytes :=
  if n < 128 then [UInt8.ofNat n] else UInt8.ofNat (n % 128 + 128) :: varint (n / 128)

/-- What `SerializeDelimitedToZeroCopyStream` writes for a message with this serialization. -/
def serializeDelimited (bytes : Bytes) : Bytes := varint bytes.length ++ bytes

theorem serializeDelimited_ne_nil (bytes : Bytes) : serializeDelimited bytes ≠ [] := by
  rw [serializeDelimited, varint]
  split <;> simp

/-- The fields of a manager that `SendEnvelopeToBackend` keeps its statistics in. -/
structure SendStats where
  numSendAttempts : ℕ := 0
  numFailedAttempts : ℕ := 0
  lastSendStatus : Status := {}

/-- An attempt with the status is counted. -/
def SendStats.count (stats : SendStats) (status : Status) : SendStats where
  numSendAttempts := stats.numSendAttempts + 1
  numFailedAttempts :=
    if !status.ok then stats.numFailedAttempts + 1 else stats.numFailedAttempts
  lastSendStatus := status

/-! ### The two managers -/

/-- The fields of a `ClearcutV1ShippingManager`. `Encrypt` fails for the envelopes without a value
of `encryptToShuffler`. -/
structure ClearcutV1ShippingManager (B C : Type) where
  encryptToShuffler : Envelope B → Option C
  maxAttemptsPerUpload : ℕ
  logSourceId : ℤ
  apiKey : String
  clearcut : ClearcutUploader C
  stats : SendStats := {}

/-- The fields of a `LocalShippingManager`, and the files. -/
structure LocalShippingManager where
  disk : Disk
  outputFilePath : String
  stats : SendStats := {}

/-- How the file is written: whether it can be opened, what `SerializeDelimitedToZeroCopyStream`
returns, and how many bytes have been written when the stream is closed. -/
structure LocalWrite where
  opened : Bool
  serialized : Bool
  written : ℕ
  deriving DecidableEq, Repr

section Managers

variable {H B C : Type} (getEnvelope : H → Envelope B)

namespace ClearcutV1ShippingManager

/-- The parameter `max_retries` of `UploadEvents`, of the type `int32_t`. -/
def maxRetries (m : ClearcutV1ShippingManager B C) : ℤ := (m.maxAttemptsPerUpload : ℤ).bmod (2 ^ 32)

/-- `SendEnvelopeToClearcutDestination`. -/
def sendEnvelopeToClearcutDestination (m : ClearcutV1ShippingManager B C) (envelope : Envelope B)
    (start : ℤ) (attempts : List Attempt) : Option (Status × ClearcutV1ShippingManager B C) :=
  match m.encryptToShuffler envelope with
  -- the envelope is dropped
  | none => some ({}, m)
  | some cobaltEncryptedEnvelope =>
    let request : LogRequest C :=
      { logSource := m.logSourceId, logEvent := [cobaltEncryptedEnvelope] }
    (m.clearcut.uploadEvents request m.maxRetries start attempts).map fun (status, clearcut) =>
      (status, { m with clearcut, stats := m.stats.count status })

/-- The envelope that is sent. -/
def envelopeToSend (m : ClearcutV1ShippingManager B C) (holder : H) : Envelope B :=
  { getEnvelope holder with apiKey := m.apiKey }

/-- `ClearcutV1ShippingManager::SendEnvelopeToBackend`. -/
def sendEnvelopeToBackend (m : ClearcutV1ShippingManager B C) (holder : H) (start : ℤ)
    (attempts : List Attempt) : Option (Option H × ClearcutV1ShippingManager B C) :=
  (m.sendEnvelopeToClearcutDestination (m.envelopeToSend getEnvelope holder) start attempts).map
    fun (status, m) => if !status.ok then (some holder, m) else (none, m)

end ClearcutV1ShippingManager

variable (serialize : Envelope B → Bytes)

namespace LocalShippingManager

/-- The contents of the output file. -/
def outputFile (m : LocalShippingManager) : Bytes := (m.disk.lookup m.outputFilePath).getD []

/-- The envelope is appended to the output file, as far as it can be written. -/
def appendEnvelope (m : LocalShippingManager) (envelope : Envelope B) (write : LocalWrite) : Disk :=
  if write.opened then
    m.disk.insert m.outputFilePath
      (m.outputFile ++ (serializeDelimited (serialize envelope)).take write.written)
  else m.disk

/-- `LocalShippingManager::SendEnvelopeToBackend`. What `SerializeDelimitedToZeroCopyStream` returns
is logged only. -/
def sendEnvelopeToBackend (m : LocalShippingManager) (holder : H) (write : LocalWrite) :
    Option H × LocalShippingManager :=
  let status : Status := {}
  let m := { m with
    disk := m.appendEnvelope serialize (getEnvelope holder) write
    stats := m.stats.count status }
  if status.ok then (none, m) else (some holder, m)

end LocalShippingManager

/-! ### Uploaded or kept -/

/-- A call of `SendEnvelopeToBackend`, with everything that can fail in it. -/
inductive SendCall (B C : Type)
  | clearcut (m : ClearcutV1ShippingManager B C) (start : ℤ) (attempts : List Attempt)
  | localFile (m : LocalShippingManager) (write : LocalWrite)

namespace SendCall

/-- What the call returns; `none` when the upload goes on. -/
def returned (holder : H) : SendCall B C → Option (Option H)
  | .clearcut m start attempts =>
    (m.sendEnvelopeToBackend getEnvelope holder start attempts).map (·.1)
  | .localFile m write => some (m.sendEnvelopeToBackend getEnvelope serialize holder write).1

/-- The whole envelope was delivered: the server has accepted a request with it, or it was
completely appended to the file. -/
def Delivered (holder : H) : SendCall B C → Prop
  | .clearcut m start attempts =>
    ∃ encrypted result m',
      m.encryptToShuffler (m.envelopeToSend getEnvelope holder) = some encrypted ∧
      m.sendEnvelopeToBackend getEnvelope holder start attempts = some (result, m') ∧
      m'.clearcut.accepted =
        m.clearcut.accepted ++ [⟨m.logSourceId, kFuchsiaClientType, [encrypted]⟩]
  | .localFile m write =>
    (m.sendEnvelopeToBackend getEnvelope serialize holder write).2.disk.lookup m.outputFilePath =
      some (m.outputFile ++ serializeDelimited (serialize (getEnvelope holder)))

/-- The envelope could not be encrypted to the shuffler. -/
def EncryptionFailed (holder : H) : SendCall B C → Prop
  | .clearcut m _ _ => m.encryptToShuffler (m.envelopeToSend getEnvelope holder) = none
  | .localFile _ _ => False

/-- An upload may make at least one attempt, and is given as many as it may make. -/
def EnoughAttempts : SendCall B C → Prop
  | .clearcut m _ attempts => 0 < m.maxRetries ∧ m.maxRetries ≤ attempts.length
  | .localFile _ _ => True

/-- The file can be opened, and the whole envelope is in it when it has been closed. -/
def Writes (holder : H) : SendCall B C → Prop
  | .clearcut _ _ _ => True
  | .localFile _ write => write.opened = true ∧
      (serializeDelimited (serialize (getEnvelope holder))).length ≤ write.written

end SendCall

/-- `SendAllEnvelopes` returns the observations to the store: when it goes on with what
`SendEnvelopeToBackend` has returned, whatever the other threads do before its next step. -/
def ReturnsToStore (returned : Option H) : Prop :=
  ∀ (s s₁ s₂ s₃ : State) (choice choice' : Choice) (labels : List Label),
    s.pc = .sending → (choice.result = .failed ↔ returned.isSome) → s.worker choice = some s₁ →
    (∀ label ∈ labels, ∀ c, label ≠ .worker c) → s₁.run labels = some s₂ →
    s₂.worker choice' = some s₃ → ∀ o ∈ s.holder, o ∈ s₃.store

/-- Uploaded or kept. `nullptr` is returned only if the whole envelope was delivered or could
not be encrypted. Otherwise the same holder is returned, and its observations are returned to the
store. -/
structure UploadedOrKept (holder : H) (call : SendCall B C) (returned : Option H) : Prop where
  uploaded : returned = none →
    call.Delivered getEnvelope serialize holder ∨ call.EncryptionFailed getEnvelope holder
  kept : ¬ call.Delivered getEnvelope serialize holder →
    ¬ call.EncryptionFailed getEnvelope holder → returned = some holder ∧ ReturnsToStore returned

end Managers

/-! ### The loop of `SendAllEnvelopes` -/

/-- The other threads leave the worker thread and its holder alone. -/
theorem holder_of_run_others {s s' : State} {labels : List Label} (hpc : s.pc = .returning)
    (hothers : ∀ label ∈ labels, ∀ c, label ≠ .worker c) (hrun : s.run labels = some s') :
    s'.pc = .returning ∧ s'.holder = s.holder := by
  induction labels generalizing s with
  | nil =>
    obtain rfl := Option.some.inj hrun
    exact ⟨hpc, rfl⟩
  | cons label labels ih =>
    obtain ⟨s₁, hstep, hrun⟩ := Option.bind_eq_some_iff.mp hrun
    have hrest : ∀ label ∈ labels, ∀ c, label ≠ .worker c :=
      fun label hmem => hothers label (List.mem_cons_of_mem _ hmem)
    rcases State.step_cases hstep with ⟨choice, heq, -⟩ | ⟨hpc', -⟩ | hbeside
    · exact absurd heq (hothers label List.mem_cons_self choice)
    · rw [hpc] at hpc'
      cases hpc'
    · obtain ⟨hpc', hholder⟩ := ih (hbeside.pc.trans hpc) hrest hrun
      exact ⟨hpc', hholder.trans hbeside.holder⟩

/-- A holder that is returned: its observations are in the store again after the next step of
the worker thread. -/
theorem returnsToStore {H : Type} (holder : H) : ReturnsToStore (some holder) := by
  intro s s₁ s₂ s₃ choice choice' labels hpc hresult hsend hothers hrun hreturn o ho
  have hfailed : choice.result = .failed := hresult.mpr rfl
  simp only [State.worker, hpc, hfailed, Option.some.injEq] at hsend
  obtain ⟨hpc₂, hholder₂⟩ := holder_of_run_others (by rw [← hsend]) hothers hrun
  simp only [State.worker, hpc₂, Option.some.injEq] at hreturn
  rw [← hreturn]
  refine List.mem_append_right _ ?_
  rw [hholder₂, ← hsend]
  exact ho

/-! ### The two managers meet their purpose -/

section Results

variable {H B C : Type} (getEnvelope : H → Envelope B) (serialize : Envelope B → Bytes)

/-- The Clearcut manager returns `nullptr` if and only if the envelope was delivered or could
not be encrypted, and the holder otherwise. -/
theorem ClearcutV1ShippingManager.uploadedOrKept (m : ClearcutV1ShippingManager B C) (holder : H)
    (start : ℤ) (attempts : List Attempt) {returned : Option H}
    (h : (SendCall.clearcut m start attempts).returned getEnvelope serialize holder =
      some returned) :
    UploadedOrKept getEnvelope serialize holder (.clearcut m start attempts) returned := by
  obtain ⟨⟨returned', m'⟩, hsend, rfl⟩ := Option.map_eq_some_iff.mp h
  have hsend' := hsend
  simp only [sendEnvelopeToBackend, sendEnvelopeToClearcutDestination] at hsend
  cases hencrypt : m.encryptToShuffler (m.envelopeToSend getEnvelope holder) with
  | none =>
    exact ⟨fun _ => Or.inr hencrypt, fun _ hnot => absurd hencrypt hnot⟩
  | some encrypted =>
    simp only [hencrypt, Option.map_map] at hsend
    obtain ⟨⟨status, clearcut⟩, hupload, heq⟩ := Option.map_eq_some_iff.mp hsend
    have haccepted := ClearcutUploader.accepted_uploadEvents hupload
    cases hok : status.ok with
    | true =>
      simp only [Function.comp_apply, hok, Bool.not_true, Bool.false_eq_true, if_false] at heq
      obtain ⟨rfl, rfl⟩ := Prod.mk.inj heq
      rw [hok, if_pos rfl] at haccepted
      have hdelivered : (SendCall.clearcut m start attempts).Delivered getEnvelope serialize holder :=
        ⟨encrypted, none, _, hencrypt, hsend', haccepted⟩
      exact ⟨fun _ => Or.inl hdelivered, fun hnot => absurd hdelivered hnot⟩
    | false =>
      simp only [Function.comp_apply, hok, Bool.not_false, if_true] at heq
      obtain ⟨rfl, rfl⟩ := Prod.mk.inj heq
      exact ⟨fun hnone => by simp at hnone, fun _ _ => ⟨rfl, returnsToStore holder⟩⟩

/-- The local manager has delivered the envelope if and only if the file could be opened and the
whole envelope was written. -/
theorem LocalShippingManager.delivered_iff (m : LocalShippingManager) (holder : H)
    (write : LocalWrite) :
    (SendCall.localFile (C := C) m write).Delivered getEnvelope serialize holder ↔
      (SendCall.localFile (C := C) m write).Writes getEnvelope serialize holder := by
  have hne := serializeDelimited_ne_nil (serialize (getEnvelope holder))
  have hdisk : (m.sendEnvelopeToBackend getEnvelope serialize holder write).2.disk =
      m.appendEnvelope serialize (getEnvelope holder) write := rfl
  dsimp only [SendCall.Delivered, SendCall.Writes]
  rw [hdisk, appendEnvelope]
  cases write.opened with
  | false =>
    simp only [Bool.false_eq_true, if_false, false_and, iff_false]
    intro heq
    have hlength := congrArg List.length (congrArg (Option.getD · []) heq)
    simp only [Option.getD_some, List.length_append] at hlength
    have hpos := List.length_pos_iff.mpr hne
    rw [outputFile] at hlength
    omega
  | true =>
    simp only [if_true, AList.lookup_insert, Option.some.injEq, List.append_cancel_left_eq, true_and]
    exact List.take_eq_self_iff _

/-- **Uploaded or kept.** What `SendEnvelopeToBackend` returns is as it is to be in every call of
the Clearcut manager, and in a call of the local manager if and only if the file can be opened and
the whole envelope is written. A call returns when its upload is given enough attempts. -/
theorem uploadedOrKept_iff (call : SendCall B C) (holder : H) :
    (∀ returned, call.returned getEnvelope serialize holder = some returned →
      (UploadedOrKept getEnvelope serialize holder call returned ↔
        call.Writes getEnvelope serialize holder)) ∧
    (call.EnoughAttempts → (call.returned getEnvelope serialize holder).isSome) := by
  cases call with
  | clearcut m start attempts =>
    constructor
    · intro returned h
      exact iff_of_true (m.uploadedOrKept getEnvelope serialize holder start attempts h) trivial
    · rintro ⟨hpos, hattempts⟩
      rw [SendCall.returned, Option.isSome_map, ClearcutV1ShippingManager.sendEnvelopeToBackend,
        Option.isSome_map, ClearcutV1ShippingManager.sendEnvelopeToClearcutDestination]
      split
      · rfl
      · rw [Option.isSome_map]
        exact ClearcutUploader.isSome_uploadEvents hpos hattempts
  | localFile m write =>
    constructor
    · intro returned h
      obtain rfl : none = returned := Option.some.inj h
      rw [← m.delivered_iff getEnvelope serialize holder write]
      constructor
      · intro hkept
        exact (hkept.uploaded rfl).resolve_right id
      · intro hdelivered
        exact ⟨fun _ => Or.inl hdelivered, fun hnot => absurd hdelivered hnot⟩
    · exact fun _ => rfl

end Results

/-! ### Calls with failures -/

/-- A manager that makes at most two attempts for an upload, and encrypts every envelope. -/
def twoAttempts : ClearcutV1ShippingManager ℕ (Envelope ℕ) where
  encryptToShuffler := some
  maxAttemptsPerUpload := 2
  logSourceId := 844
  apiKey := "cobalt-default-api-key"
  clearcut := { uploadTimeout := 0, pauseUploadsUntil := 0 }

/-- An attempt to which the server responds. -/
def responded (httpCode : ℤ) : Attempt where
  now := 0
  response := .value { httpCode }
  read := 0
  checked := 0

/-- A holder is its list of batches; a batch is serialized to one byte. -/
def batchesOf (batch : List ℕ) : Envelope ℕ := { batch }

/-- The serialization of an envelope of such batches. -/
def serializeBatches (envelope : Envelope ℕ) : Bytes := envelope.batch.map UInt8.ofNat

/-- A call of the local manager with an empty directory. -/
def writeLocal (write : LocalWrite) : SendCall ℕ (Envelope ℕ) :=
  .localFile { disk := ∅, outputFilePath := "cobalt_observations" } write

theorem uploadedOrKept_iff_failures :
    UploadedOrKept batchesOf serializeBatches [5]
        (.clearcut twoAttempts 0 [responded 503, responded 500]) (some [5]) ∧
      UploadedOrKept batchesOf serializeBatches [5] (writeLocal ⟨true, true, 2⟩) none := by
  constructor
  · exact ((uploadedOrKept_iff batchesOf serializeBatches _ [5]).1 (some [5]) rfl).mpr trivial
  · refine ((uploadedOrKept_iff batchesOf serializeBatches _ [5]).1 none rfl).mpr ⟨rfl, ?_⟩
    simp [serializeDelimited, varint, serializeBatches, batchesOf]

/-- A holder that is neither uploaded nor kept: the file cannot be opened, nothing is written,
and `nullptr` is returned. -/
theorem not_uploadedOrKept_unopened :
    (writeLocal ⟨false, false, 0⟩).returned batchesOf serializeBatches [5] = some none ∧
      ¬ UploadedOrKept batchesOf serializeBatches [5] (writeLocal ⟨false, false, 0⟩) none := by
  refine ⟨rfl, fun hkept => ?_⟩
  rcases hkept.uploaded rfl with hdelivered | hfailed
  · have hwrites := (LocalShippingManager.delivered_iff batchesOf serializeBatches _ [5] _).mp
      hdelivered
    cases hwrites.1
  · exact hfailed

end Cobalt.Uploader
