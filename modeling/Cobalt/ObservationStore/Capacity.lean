import Cobalt.ObservationStore.FailedFinalization
import Cobalt.ObservationStore.FinalizedBytes

/-!
# The capacity of the file observation store

An observation is accepted if its size and the bytes in the files of the store add up to no more
than a limit. The bytes of its record, and of a record of metadata before it, are written afterwards
and are not part of the estimate, so that the files can become larger than the limit; what stays
below it is the payload, the sum of the sizes of the stored observations. The active file is
finalized after the write that makes it large enough.

## Main definitions

* `Protobuf.Sized`: what is used of the sizes that the protocol buffer library gives.
* `Store.payload`: the sum of the sizes of the observations in the files of a store.
* `FileBound`: a file exceeds `max_bytes_per_envelope` by less than two records of it.
* `Store.Capacity`: the bounds that every state keeps.

## Main results

* `Store.Kept.payload_le_size`: the payload is at most `finalized_bytes` and the byte count of the
  active file.
* `capacity_of_run`: every state that is reached is within its capacity.
* `estimate_lt_of_run`: where the limits are small enough, no sum wraps in the type `size_t`.
-/

namespace Cobalt.ObservationStore

variable {M E U : Type}

/-- The sizes that the library gives. An observation has at least one byte, and its record, which
has the same message in a field with another number and the length before it, is not smaller. -/
structure Protobuf.Sized (pb : Protobuf M E U) : Prop where
  byteSize_pos : ∀ o, 0 < pb.byteSize (some o)
  byteSize_le : ∀ o : Observation E U,
    pb.byteSize (some o) ≤ (pb.serializeDelimited o.contents).length

section Definitions

variable (pb : Protobuf M E U) (limits : Limits)

/-- The sum of the sizes of some observations. -/
def payload (l : List (M × Observation E U)) : ℕ := (l.map fun p => pb.byteSize (some p.2)).sum

/-- The sum of the sizes of the observations in a file. -/
def filePayload (bytes : Bytes) : ℕ := payload pb (observationsIn pb bytes)

/-- The payload of a store: that of its finalized files, taken or not, and of the active
file. -/
def Store.payload (s : Store M E U) : ℕ :=
  s.disk.total (filePayload pb) isFinalizedFileName + filePayload pb (s.activeFile.getD [])

/-- A file exceeds `max_bytes_per_envelope` by less than the encoded size of one metadata record and
one observation record of the file. -/
def FileBound (bytes : Bytes) : Prop :=
  ∃ (m : M) (o : Observation E U), .metaData m ∈ recordsIn pb bytes ∧
    o.contents ∈ recordsIn pb bytes ∧ bytes.length < limits.maxBytesPerEnvelope +
      (pb.serializeDelimited (.metaData m)).length + (pb.serializeDelimited o.contents).length

/-- A state within its capacity: an observation is accepted only if the estimate is within the
limit, the payload is within the limit, and finalized files are not too large. -/
structure Store.Capacity (s : Store M E U) : Prop where
  accepts : ∀ o m newName, (s.storeObservation pb limits (some o) m newName {}).1 = .kOk →
    s.finalizedBytes + s.byteCount + pb.byteSize (some o) ≤ limits.maxBytesTotal
  payload_le : s.payload pb ≤ limits.maxBytesTotal
  files : ∀ name bytes, isFinalizedFileName name = true → s.disk.lookup name = some bytes →
    FileBound pb limits bytes

/-- An operation in which nothing fails, on an observation that has a field set. -/
def Op.Ordinary : Op M E U → Prop
  | .storeObservation observation _ _ random faults =>
    observation.isSome ∧ (kMinRandomNumber ≤ random ∧ random ≤ kMaxRandomNumber) ∧ faults = {}
  | .takeNextEnvelopeHolder _ random faults =>
    (kMinRandomNumber ≤ random ∧ random ≤ kMaxRandomNumber) ∧ faults = {}
  | .returnEnvelopeHolder _ | .mergeWith _ _ | .getEnvelope _ => True
  | .destroy _ faults => faults = {}
  | .restart .. => False

/-- The active file when it is open: over an empty file, with whole records, and smaller than
`max_bytes_per_envelope` unless it is empty. -/
structure Store.OpenRecords (s : Store M E U) (records : List (Contents M E U)) : Prop where
  activeFile : s.activeFile = some (encodeAll pb records)
  under : s.disk.lookup kActiveFileName = some []
  written : s.metadataWritten = true → records ≠ []
  both : records ≠ [] → ∃ (m : M) (o : Observation E U),
    .metaData m ∈ records ∧ o.contents ∈ records
  below : records = [] ∨
    ((encodeAll pb records).length : ℤ) < (BitVec.ofNat 64 limits.maxBytesPerEnvelope).toInt

/-- The finalized files: they are counted, maybe twice, hold whole records and are not too
large. Holders have names of finalized files. -/
structure Store.KeptFiles (s : Store M E U) : Prop where
  enabled : s.isDisabled = false
  owned : ∀ name ∈ s.owned, isFinalizedFileName name = true
  counted : s.disk.totalSize isFinalizedFileName ≤ s.finalizedBytes
  files : ∀ name bytes, isFinalizedFileName name = true → s.disk.lookup name = some bytes →
    (∃ records, bytes = encodeAll pb records) ∧ FileBound pb limits bytes

/-- The active file is closed and not on the disk, or open. -/
def Store.ActiveKept (s : Store M E U) : Prop :=
  (s.activeFile = none ∧ s.metadataWritten = false ∧ s.disk.lookup kActiveFileName = none) ∨
    ∃ records, s.OpenRecords pb limits records

/-- The invariant of the store. -/
structure Store.Kept (s : Store M E U) : Prop extends s.KeptFiles pb limits where
  payload_le : s.payload pb ≤ limits.maxBytesTotal
  active : s.ActiveKept pb limits

end Definitions

/-! ### Payload -/

section Payload

variable {pb : Protobuf M E U}

theorem payload_append (l l' : List (M × Observation E U)) :
    payload pb (l ++ l') = payload pb l + payload pb l' := by
  rw [payload, List.map_append, List.sum_append]
  rfl

theorem payload_le_recordBytes (hsized : pb.Sized) (l : List (M × Observation E U)) :
    payload pb l ≤ recordBytes pb l :=
  List.sum_le_sum fun p _ => hsized.byteSize_le p.2

theorem filePayload_encodeAll (hpb : pb.Lawful) (records : List (Contents M E U)) :
    filePayload pb (encodeAll pb records) = payload pb (observationsOf none records) := by
  rw [filePayload, observationsIn_encodeAll hpb]

theorem filePayload_nil (hpb : pb.Lawful) : filePayload pb [] = 0 :=
  filePayload_encodeAll hpb []

/-- The payload of a file is at most its size. -/
theorem filePayload_le_length (hpb : pb.Lawful) (hsized : pb.Sized)
    (records : List (Contents M E U)) :
    filePayload pb (encodeAll pb records) ≤ (encodeAll pb records).length := by
  rw [filePayload_encodeAll hpb]
  exact (payload_le_recordBytes hsized _).trans (recordBytes_observationsOf_le none records)

/-- An observation that is written adds at most its size. -/
theorem filePayload_write_le (hpb : pb.Lawful) {records new : List (Contents M E U)}
    (hnew : ∀ c ∈ new, ∃ m, c = .metaData m) (o : Observation E U) :
    filePayload pb (encodeAll pb (records ++ new ++ [o.contents])) ≤
      filePayload pb (encodeAll pb records) + pb.byteSize (some o) := by
  have hmetadata : ∀ (l : List (Contents M E U)) (current : Option M),
      (∀ c ∈ l, ∃ m, c = .metaData m) → observationsOf current l = [] := by
    intro l
    induction l with
    | nil => exact fun _ _ => rfl
    | cons c l ih =>
      intro current h
      obtain ⟨m, rfl⟩ := h c List.mem_cons_self
      exact ih (some m) fun c hc => h c (List.mem_cons_of_mem _ hc)
  have hlast : ∀ current : Option M,
      payload pb (observationsOf current [o.contents]) ≤ pb.byteSize (some o) := by
    intro current
    cases current with
    | none => cases o <;> exact Nat.zero_le _
    | some m =>
      rw [Observation.observationsOf_contents]
      exact le_of_eq (Nat.add_zero _)
  rw [filePayload_encodeAll hpb, filePayload_encodeAll hpb, observationsOf_append,
    observationsOf_append, hmetadata new _ hnew, List.append_nil, payload_append]
  exact Nat.add_le_add_left (hlast _) _

end Payload

/-! ### The counters -/

section Steps

variable {pb : Protobuf M E U} {limits : Limits} {s : Store M E U}

/-- The payload is at most the bytes that are counted: `finalized_bytes` and the byte count of
the active file. -/
theorem Store.Kept.payload_le_size (hpb : pb.Lawful) (hsized : pb.Sized) (h : s.Kept pb limits) :
    s.payload pb ≤ s.finalizedBytes + s.byteCount := by
  have hfiles : s.disk.total (filePayload pb) isFinalizedFileName ≤
      s.disk.total List.length isFinalizedFileName := by
    refine Disk.total_le_total fun name bytes hname hlookup => ?_
    obtain ⟨⟨records, rfl⟩, _⟩ := h.files name bytes hname hlookup
    exact filePayload_le_length hpb hsized records
  have hactive : filePayload pb (s.activeFile.getD []) ≤ s.byteCount := by
    rw [Store.byteCount]
    rcases h.active with ⟨hnone, _⟩ | ⟨records, hopen⟩
    · rw [hnone]
      exact (filePayload_nil hpb).le
    · rw [hopen.activeFile]
      exact filePayload_le_length hpb hsized records
  exact Nat.add_le_add (hfiles.trans h.counted) hactive

theorem Store.KeptFiles.congr {s' : Store M E U} (h : s.KeptFiles pb limits)
    (hsame : s.SameFiles s') (henabled : s'.isDisabled = s.isDisabled) :
    s'.KeptFiles pb limits where
  enabled := henabled.trans h.enabled
  owned := by
    intro name hname
    rw [Store.owned, hsame.holders] at hname
    exact h.owned name hname
  counted := by
    rw [hsame.finalizedBytes, Disk.totalSize_congr hsame.disk]
    exact h.counted
  files := by
    intro name bytes hname hlookup
    rw [hsame.disk name hname] at hlookup
    exact h.files name bytes hname hlookup

/-- The payload depends on the finalized files and on what was written to the active file. -/
theorem payload_congr (pb : Protobuf M E U) {s' : Store M E U} (hsame : s.SameFiles s')
    (hactive : s'.activeFile.getD [] = s.activeFile.getD []) : s'.payload pb = s.payload pb := by
  rw [Store.payload, Disk.total_congr hsame.disk, hactive, Store.payload]

/-- Opening the active file. -/
theorem Store.Kept.getActiveFile (h : s.Kept pb limits) :
    ∃ s' records, s.getActiveFile {} = some s' ∧ s'.Kept pb limits ∧
      s'.OpenRecords pb limits records ∧ s.SameFiles s' ∧ s'.byteCount = s.byteCount := by
  rcases h.active with ⟨hnone, hwritten, hlookup⟩ | ⟨records, hopen⟩
  · have heq : s.getActiveFile {} = some { s with
        activeFile := some []
        disk := s.disk.insert kActiveFileName ((s.disk.lookup kActiveFileName).getD []) } := by
      rw [Store.getActiveFile, hnone]
      rfl
    have hsame := sameFiles_getActiveFile heq
    have hopen : ({ s with
        activeFile := some []
        disk := s.disk.insert kActiveFileName ((s.disk.lookup kActiveFileName).getD []) } :
        Store M E U).OpenRecords pb limits [] := by
      refine ⟨rfl, ?_, fun htrue => ?_, fun hne => absurd rfl hne, Or.inl rfl⟩
      · dsimp only
        rw [AList.lookup_insert, hlookup]
        rfl
      · rw [hwritten] at htrue
        exact absurd htrue (by simp)
    have hpayload := payload_congr pb hsame (by rw [hnone]; rfl)
    refine ⟨_, [], heq, ⟨h.toKeptFiles.congr hsame rfl, hpayload.le.trans h.payload_le,
      Or.inr ⟨[], hopen⟩⟩, hopen, hsame, ?_⟩
    rw [Store.byteCount, Store.byteCount, hnone]
    rfl
  · refine ⟨s, records, ?_, h, hopen, .refl s, rfl⟩
    rw [Store.getActiveFile, hopen.activeFile]

/-- Writing an observation, with metadata before it unless the last ones are the same. -/
theorem write_spec {records : List (Contents M E U)} (hopen : s.OpenRecords pb limits records)
    (m : M) (o : Observation E U) :
    ∃ s₁ s₂ new, s.writeMetadata pb m {} = (true, s₁) ∧
      s₁.writeRecord pb o.contents none = (true, s₂) ∧ s.SameFiles s₂ ∧
      s₂.isDisabled = s.isDisabled ∧ s₂.disk = s.disk ∧
      s₂.activeFile = some (encodeAll pb (records ++ new ++ [o.contents])) ∧
      (new = [.metaData m] ∨ (new = [] ∧ records ≠ [])) := by
  have happend : ∀ (t : Store M E U) (l : List (Contents M E U)) (c : Contents M E U),
      t.activeFile = some (encodeAll pb l) →
      (t.append (pb.serializeDelimited c)).activeFile = some (encodeAll pb (l ++ [c])) := by
    intro t l c ht
    rw [Store.append, ht, encodeAll_append, encodeAll_singleton]
    rfl
  rw [Store.writeMetadata]
  split_ifs with hwrite
  · refine ⟨_, _, [.metaData m], rfl, rfl, ⟨fun _ _ => rfl, rfl, rfl⟩, rfl, rfl, ?_, Or.inl rfl⟩
    exact happend { s.append (pb.serializeDelimited (.metaData m)) with
      metadataWritten := true, lastWrittenMetadata := pb.metadataString m } _ _
      (happend s records _ hopen.activeFile)
  · push Not at hwrite
    refine ⟨s, _, [], rfl, rfl, ⟨fun _ _ => rfl, rfl, rfl⟩, rfl, rfl, ?_,
      Or.inr ⟨rfl, hopen.written ?_⟩⟩
    · rw [List.append_nil]
      exact happend s records _ hopen.activeFile
    · simpa using hwrite.1

end Steps

section Finalize

variable {pb : Protobuf M E U} {limits : Limits} {s : Store M E U}

/-- Finalizing an active file with bytes in it, over an empty file: the file gets its name,
maybe in the place of another one. -/
theorem finalize_spec {bytes : Bytes} (hactive : s.activeFile = some bytes) (hne : bytes ≠ [])
    (hunder : s.disk.lookup kActiveFileName = some []) {newName : String}
    (hname : isFinalizedFileName newName = true) :
    ∃ s', s.finalizeActiveFile newName {} = (true, s') ∧ s'.activeFile = none ∧
      s'.metadataWritten = false ∧ s'.holders = s.holders ∧ s'.isDisabled = s.isDisabled ∧
      s'.finalizedBytes = s.finalizedBytes + bytes.length ∧
      s'.disk.lookup kActiveFileName = none ∧ s'.disk.lookup newName = some bytes ∧
      ∀ name, isFinalizedFileName name = true → name ≠ newName →
        s'.disk.lookup name = s.disk.lookup name := by
  have hclosed : s.closeActiveFile.disk.lookup kActiveFileName = some bytes := by
    rw [Store.closeActiveFile, hactive]
    dsimp only
    rw [AList.lookup_insert, hunder, Option.getD_some, overlay_of_length_le (Nat.zero_le _)]
  have hcases := finalizeActiveFile_cases s newName {}
  dsimp only at hcases
  rw [hclosed] at hcases
  rcases hcases with ⟨hnone, _⟩ | ⟨hnil, _⟩ | ⟨bytes', hbytes', _, ⟨hfails, _⟩ | ⟨_, disk, hrename, heq⟩⟩
  · exact absurd hnone (by simp)
  · exact absurd (Option.some.inj hnil) hne
  · exact absurd hfails (by simp)
  · have hlookup := Disk.lookup_rename hrename
    have hactiveName := ne_kActiveFileName hname
    refine ⟨_, heq, rfl, rfl, rfl, rfl, ?_, ?_, ?_, fun name hname' hne' => ?_⟩
    · have hsize : ({ s.closeActiveFile with
          metadataWritten := false
          generated := s.closeActiveFile.generated ++ [newName] } :
          Store M E U).fileSize kActiveFileName = bytes.length := by
        rw [Store.fileSize]
        dsimp only
        rw [hclosed]
        rfl
      exact congrArg (s.finalizedBytes + ·) hsize
    · rw [Store.renameActiveFile, hlookup, if_neg hactiveName.symm, if_pos rfl]
    · rw [Store.renameActiveFile, hlookup, if_pos rfl, hclosed]
    · rw [Store.renameActiveFile, hlookup, if_neg hne', if_neg (ne_kActiveFileName hname'),
        lookup_closeActiveFile s (ne_kActiveFileName hname')]

/-- Finalizing keeps the invariant, if the file is not too large. The payload does not grow. -/
theorem Store.KeptFiles.finalizeActiveFile (hpb : pb.Lawful) (h : s.KeptFiles pb limits)
    {records : List (Contents M E U)} (hactive : s.activeFile = some (encodeAll pb records))
    (hne : records ≠ []) (hunder : s.disk.lookup kActiveFileName = some []) {newName : String}
    (hname : isFinalizedFileName newName = true)
    (hbound : FileBound pb limits (encodeAll pb records))
    (hpayload : s.payload pb ≤ limits.maxBytesTotal) :
    ∃ s', s.finalizeActiveFile newName {} = (true, s') ∧ s'.Kept pb limits := by
  obtain ⟨s', heq, hclosed, hwritten, hholders, henabled, hbytes, hnone, hnew, hother⟩ :=
    finalize_spec hactive (mt (encodeAll_eq_nil hpb) hne) hunder hname
  rw [Store.payload, hactive, Option.getD_some] at hpayload
  refine ⟨s', heq, ⟨henabled.trans h.enabled, fun name hmem => ?_, ?_, fun name bytes hname' hlookup =>
    ?_⟩, ?_, Or.inl ⟨hclosed, hwritten, hnone⟩⟩
  · rw [Store.owned, hholders] at hmem
    exact h.owned name hmem
  · have hle := Disk.total_le_add (f := List.length) hname rfl hnew hother
    rw [hbytes]
    exact hle.trans (Nat.add_le_add_right h.counted _)
  · by_cases hold : name = newName
    · rw [hold, hnew] at hlookup
      obtain rfl := Option.some.inj hlookup
      exact ⟨⟨records, rfl⟩, hbound⟩
    · rw [hother name hname' hold] at hlookup
      exact h.files name bytes hname' hlookup
  · rw [Store.payload, hclosed, Option.getD_none, filePayload_nil hpb, Nat.add_zero]
    exact (Disk.total_le_add hname (filePayload_nil hpb) hnew hother).trans hpayload

end Finalize

/-! ### The operations -/

section Operations

variable {pb : Protobuf M E U} {encrypt : U → Option E} {limits : Limits} {s : Store M E U}

/-- The active file is smaller than `max_bytes_per_envelope` before an observation is accepted. -/
theorem Store.OpenRecords.length_lt {records : List (Contents M E U)}
    (h : s.OpenRecords pb limits records) (hpos : 0 < limits.maxBytesPerEnvelope) :
    (encodeAll pb records).length < limits.maxBytesPerEnvelope := by
  rcases h.below with rfl | hlt
  · exact hpos
  · rw [BitVec.toInt_ofNat'] at hlt
    have hle : ((limits.maxBytesPerEnvelope : ℤ)).bmod (2 ^ 64) ≤ limits.maxBytesPerEnvelope := by
      rw [Int.bmod_def]
      split_ifs <;> omega
    omega

/-- A file after the last observation was written to it is not too large. -/
theorem fileBound_write (hpb : pb.Lawful) {records new : List (Contents M E U)}
    (hopen : s.OpenRecords pb limits records) (hpos : 0 < limits.maxBytesPerEnvelope) {m : M}
    (hnew : new = [.metaData m] ∨ (new = [] ∧ records ≠ [])) (o : Observation E U) :
    FileBound pb limits (encodeAll pb (records ++ new ++ [o.contents])) := by
  have hlt := hopen.length_lt hpos
  obtain ⟨m', hmem, hsize⟩ : ∃ m', .metaData m' ∈ records ++ new ∧
      (encodeAll pb new).length ≤ (pb.serializeDelimited (.metaData m')).length := by
    rcases hnew with rfl | ⟨rfl, hne⟩
    · exact ⟨m, by simp, by rw [encodeAll_singleton]⟩
    · obtain ⟨m', _, hm', _⟩ := hopen.both hne
      exact ⟨m', by simpa using hm', Nat.zero_le _⟩
  refine ⟨m', o, ?_, ?_, ?_⟩
  · rw [recordsIn_encodeAll hpb]
    exact List.mem_append_left _ hmem
  · rw [recordsIn_encodeAll hpb]
    simp
  · rw [encodeAll_append, encodeAll_append, encodeAll_singleton, List.length_append,
      List.length_append]
    omega

/-- The files that are taken and the record of the run are no part of the invariant, and the holders
only with their names. -/
theorem Store.Kept.reown (h : s.Kept pb limits) {holders : List (FileEnvelopeHolder M E)}
    {filesTaken : Finset String} {accepted destroyed : List (M × Observation E U)}
    {placed : List (String × M × Observation E U)}
    (howned : ∀ name ∈ holders.flatMap FileEnvelopeHolder.fileNames,
      isFinalizedFileName name = true) :
    ({ s with holders, filesTaken, accepted, placed, destroyed } : Store M E U).Kept pb limits :=
  ⟨⟨h.enabled, howned, h.counted, h.files⟩, h.payload_le,
    h.active.imp id fun ⟨l, hl⟩ => ⟨l, hl.activeFile, hl.under, hl.written, hl.both, hl.below⟩⟩

/-- The last part of `StoreObservation`. -/
theorem Store.Kept.finalizeIfFull (hpb : pb.Lawful) (h : s.KeptFiles pb limits)
    {records : List (Contents M E U)} (hactive : s.activeFile = some (encodeAll pb records))
    (hboth : ∃ (m : M) (o : Observation E U), .metaData m ∈ records ∧ o.contents ∈ records)
    (hunder : s.disk.lookup kActiveFileName = some []) {newName : String}
    (hname : isFinalizedFileName newName = true)
    (hbound : FileBound pb limits (encodeAll pb records))
    (hpayload : s.payload pb ≤ limits.maxBytesTotal) (p : M × Observation E U) :
    (s.finalizeIfFull limits p newName {}).2.Kept pb limits := by
  have hne : records ≠ [] := by
    obtain ⟨m, _, hm, _⟩ := hboth
    exact List.ne_nil_of_mem hm
  rw [Store.finalizeIfFull]
  split_ifs with hfull
  · obtain ⟨s', heq, hkept⟩ := h.finalizeActiveFile hpb hactive hne hunder hname hbound hpayload
    rw [heq]
    exact hkept.reown hkept.owned
  · rw [Store.byteCount, hactive, Option.getD_some, not_le] at hfull
    exact ⟨⟨h.enabled, h.owned, h.counted, h.files⟩, hpayload,
      Or.inr ⟨records, hactive, hunder, fun _ => hne, fun _ => hboth, Or.inr hfull⟩⟩

/-- An observation is accepted only if the estimate is within the limit, whatever fails. -/
theorem estimate_le_of_kOk (henabled : s.isDisabled = false)
    {observation : Option (Observation E U)} {m : M} {newName : String} {faults : Faults}
    (hok : (s.storeObservation pb limits observation m newName faults).1 = .kOk) :
    s.finalizedBytes + s.byteCount + pb.byteSize observation ≤ limits.maxBytesTotal := by
  rw [Store.storeObservation, if_neg (by simp [henabled])] at hok
  cases hactive : s.getActiveFile faults with
  | none =>
    rw [hactive] at hok
    exact absurd hok (by simp)
  | some s₁ =>
    have hsize := size_getActiveFile hactive
    rw [hactive] at hok
    dsimp only at hok
    rw [← Store.size, hsize] at hok
    split_ifs at hok with hbig hfull
    exact not_lt.mp hfull

/-- Storing an observation keeps the invariant. -/
theorem Store.Kept.storeObservation (hpb : pb.Lawful) (hsized : pb.Sized)
    (hlimits : limits.maxBytesPerObservation ≤ limits.maxBytesPerEnvelope) (h : s.Kept pb limits)
    (o : Observation E U) (m : M) {newName : String}
    (hname : isFinalizedFileName newName = true) :
    (s.storeObservation pb limits (some o) m newName {}).2.Kept pb limits := by
  obtain ⟨s₁, records, heq₁, hkept₁, hopen, hsame₁, hcount⟩ := h.getActiveFile
  have henabled : ¬ s.isDisabled = true := by simp [h.enabled]
  rw [Store.storeObservation, if_neg henabled, heq₁]
  dsimp only
  rw [hsame₁.finalizedBytes, hcount]
  split_ifs with hbig hfull
  · exact hkept₁
  · exact hkept₁
  · have hestimate := not_lt.mp hfull
    have hpos : 0 < limits.maxBytesPerEnvelope := by
      have := hsized.byteSize_pos o
      omega
    obtain ⟨s₂, s₃, new, heq₂, heq₃, hsame₃, henabled₃, hdisk, hactive, hnew⟩ :=
      write_spec hopen m o
    have hpayload : s₃.payload pb ≤ limits.maxBytesTotal := by
      have hwrite : s₃.payload pb ≤ s₁.payload pb + pb.byteSize (some o) := by
        rw [Store.payload, Store.payload, hdisk, hactive, hopen.activeFile, Nat.add_assoc]
        refine Nat.add_le_add_left (filePayload_write_le hpb (fun c hc => ?_) o) _
        rcases hnew with rfl | ⟨rfl, _⟩
        · exact ⟨m, List.mem_singleton.mp hc⟩
        · exact absurd hc List.not_mem_nil
      have hsize := hkept₁.payload_le_size hpb hsized
      rw [hsame₁.finalizedBytes, hcount] at hsize
      omega
    have hboth : ∃ (m' : M) (o' : Observation E U), .metaData m' ∈ records ++ new ++ [o.contents] ∧
        o'.contents ∈ records ++ new ++ [o.contents] := by
      rcases hnew with rfl | ⟨rfl, hne⟩
      · exact ⟨m, o, by simp, by simp⟩
      · obtain ⟨m', _, hm', _⟩ := hopen.both hne
        exact ⟨m', o, by simp [hm'], by simp⟩
    rw [heq₂]
    dsimp only
    rw [heq₃]
    exact Store.Kept.finalizeIfFull hpb (hkept₁.toKeptFiles.congr hsame₃ henabled₃) hactive hboth
      (hdisk ▸ hopen.under) hname (fileBound_write hpb hopen hpos hnew o) hpayload (m, o)

theorem Store.Kept.take (h : s.Kept pb limits) {name : String}
    (hname : s.getOldestFinalizedFile = some name) : (s.take name).Kept pb limits := by
  refine h.reown fun name' hname' => ?_
  rw [List.flatMap_append, List.flatMap_singleton, List.mem_append, List.mem_singleton] at hname'
  rcases hname' with hname' | rfl
  · exact h.owned name' hname'
  · exact (getOldestFinalizedFile_spec hname).2.1

/-- Taking a holder finalizes the active file only if it is smaller than
`max_bytes_per_envelope`. -/
theorem Store.Kept.takeNextEnvelopeHolder (hpb : pb.Lawful) (h : s.Kept pb limits)
    {newName : String} (hname : isFinalizedFileName newName = true) :
    (s.takeNextEnvelopeHolder newName {}).Kept pb limits := by
  rw [Store.takeNextEnvelopeHolder]
  split
  · next name hoption => exact h.take hoption
  · split_ifs with hempty
    · exact h
    · rcases h.active with ⟨hnone, _⟩ | ⟨records, hopen⟩
      · exact absurd (by rw [Store.byteCount, hnone]; rfl) hempty
      · have hne : records ≠ [] := by
          rintro rfl
          exact hempty (by rw [Store.byteCount, hopen.activeFile]; rfl)
        obtain ⟨m, o, hm, ho⟩ := hopen.both hne
        have hlt := hopen.below.resolve_left hne
        have hbound : FileBound pb limits (encodeAll pb records) := by
          have hpos : 0 < limits.maxBytesPerEnvelope := by
            by_contra hzero
            obtain hzero : limits.maxBytesPerEnvelope = 0 := by omega
            rw [hzero] at hlt
            exact absurd hlt (by simp)
          have := hopen.length_lt hpos
          exact ⟨m, o, (recordsIn_encodeAll hpb records).symm ▸ hm,
            (recordsIn_encodeAll hpb records).symm ▸ ho, by omega⟩
        obtain ⟨s', heq, hkept⟩ := h.finalizeActiveFile hpb hopen.activeFile hne hopen.under hname
          hbound h.payload_le
        rw [heq]
        dsimp only
        split
        · exact hkept
        · next name hoption => exact hkept.take hoption

theorem Store.Kept.returnEnvelopeHolder (h : s.Kept pb limits) (i : ℕ) :
    (s.returnEnvelopeHolder i).Kept pb limits := by
  rw [Store.returnEnvelopeHolder]
  split
  · exact h
  · next holder hholder =>
    refine h.reown fun name hname => h.owned name ?_
    exact (owned_perm hholder).mem_iff.mpr (List.mem_append_right _ hname)

/-- One file of a holder that is destroyed. -/
theorem Store.Kept.destroyFile (hpb : pb.Lawful) (h : s.Kept pb limits) {name : String}
    (hname : isFinalizedFileName name = true) :
    (s.destroyFile {} name).Kept pb limits ∧ (s.destroyFile {} name).holders = s.holders ∧
      (s.destroyFile {} name).size ≤ s.size := by
  have hother : ∀ name', name' ≠ name →
      AList.lookup name' (s.disk.erase name) = s.disk.lookup name' :=
    fun name' hne => AList.lookup_erase_ne hne
  have hsize := @Disk.totalSize_erase s.disk isFinalizedFileName name hname
  have hcounted := h.counted
  have hle : s.fileSize name ≤ s.finalizedBytes := by
    rw [Store.fileSize]
    omega
  have heq : s.destroyFile {} name = { s with
      disk := s.disk.erase name
      finalizedBytes := s.finalizedBytes - s.fileSize name } := by
    simp only [Store.destroyFile, Store.delete, subSize, if_pos hle]
    rfl
  rw [heq]
  refine ⟨⟨⟨h.enabled, h.owned, ?_, fun name' bytes hname' hlookup => ?_⟩, ?_, ?_⟩, rfl,
    Nat.add_le_add_right (Nat.sub_le _ _) _⟩
  · dsimp only
    rw [Store.fileSize]
    omega
  · dsimp only at hlookup
    rw [Disk.lookup_erase] at hlookup
    split_ifs at hlookup
    exact h.files name' bytes hname' hlookup
  · have hpayload := h.payload_le
    have herase := @Disk.total_erase s.disk _ _ _ hname (filePayload_nil hpb)
    rw [Store.payload] at hpayload ⊢
    dsimp only
    omega
  · have hkeep := hother kActiveFileName (ne_kActiveFileName hname).symm
    rcases h.active with ⟨hnone, hwritten, hlookup⟩ | ⟨records, hopen⟩
    · exact Or.inl ⟨hnone, hwritten, hkeep.trans hlookup⟩
    · exact Or.inr ⟨records, hopen.activeFile, hkeep.trans hopen.under, hopen.written, hopen.both,
        hopen.below⟩

theorem Store.Kept.foldl_destroyFile (hpb : pb.Lawful) {names : List String}
    (h : s.Kept pb limits) (hnames : ∀ name ∈ names, isFinalizedFileName name = true) :
    (names.foldl (Store.destroyFile {}) s).Kept pb limits ∧
      (names.foldl (Store.destroyFile {}) s).holders = s.holders ∧
      (names.foldl (Store.destroyFile {}) s).size ≤ s.size := by
  induction names generalizing s with
  | nil => exact ⟨h, rfl, le_rfl⟩
  | cons name names ih =>
    obtain ⟨hname, hrest⟩ := List.forall_mem_cons.mp hnames
    obtain ⟨hkept, hholders, hsize⟩ := h.destroyFile hpb hname
    obtain ⟨hkept', hholders', hsize'⟩ := ih hkept hrest
    exact ⟨hkept', hholders'.trans hholders, hsize'.trans hsize⟩

/-- Destroying a holder. -/
theorem Store.Kept.destroy (hpb : pb.Lawful) (h : s.Kept pb limits) (i : ℕ) :
    (s.destroy i {}).Kept pb limits ∧ (s.destroy i {}).size ≤ s.size := by
  rw [Store.destroy]
  split
  · exact ⟨h, le_rfl⟩
  · next holder hholder =>
    obtain ⟨hkept, hholders, hsize⟩ := h.foldl_destroyFile hpb fun name hname =>
      h.owned name ((owned_perm hholder).mem_iff.mpr (List.mem_append_left _ hname))
    refine ⟨hkept.reown fun name hname => h.owned name ?_, hsize⟩
    rw [hholders] at hname
    exact (owned_perm hholder).mem_iff.mpr (List.mem_append_right _ hname)

/-! ### Runs -/

theorem Store.Kept.init (hpb : pb.Lawful) : ({} : Store M E U).Kept pb limits where
  enabled := rfl
  owned := by simp [Store.owned]
  counted := Nat.zero_le _
  files := fun name bytes _ h => absurd h (by simp)
  payload_le := by
    have hzero : ({} : Store M E U).payload pb = 0 :=
      (Nat.zero_add _).trans (filePayload_nil hpb)
    rw [hzero]
    exact Nat.zero_le _
  active := Or.inl ⟨rfl, rfl, rfl⟩

/-- Every ordinary operation keeps the invariant. -/
theorem Op.Ordinary.kept {op : Op M E U} (hop : op.Ordinary) (hpb : pb.Lawful)
    (hsized : pb.Sized) (hlimits : limits.maxBytesPerObservation ≤ limits.maxBytesPerEnvelope)
    (h : s.Kept pb limits) : (op.apply pb encrypt limits s).Kept pb limits := by
  cases op with
  | storeObservation observation m now random faults =>
    obtain ⟨hsome, ⟨hmin, hmax⟩, rfl⟩ := hop
    obtain ⟨o, rfl⟩ := Option.isSome_iff_exists.mp hsome
    exact h.storeObservation hpb hsized hlimits o m
      (isFinalizedFileName_generateFilename now hmin hmax)
  | takeNextEnvelopeHolder now random faults =>
    obtain ⟨⟨hmin, hmax⟩, rfl⟩ := hop
    exact h.takeNextEnvelopeHolder hpb (isFinalizedFileName_generateFilename now hmin hmax)
  | returnEnvelopeHolder i => exact h.returnEnvelopeHolder i
  | mergeWith i j =>
    have howned : ∀ name ∈ (s.mergeWith i j).owned, isFinalizedFileName name = true :=
      fun name hname => h.owned name (mem_owned_mergeWith.mp hname)
    rw [Op.apply]
    rw [Store.mergeWith] at howned ⊢
    split at howned
    · split_ifs at howned ⊢
      · exact h
      · exact h.reown howned
    · exact h
  | getEnvelope i =>
    refine h.reown fun name hname => h.owned name ?_
    rw [← owned_getEnvelope s i]
    exact hname
  | destroy i faults =>
    obtain rfl : faults = {} := hop
    exact (h.destroy hpb i).1
  | restart now random faults => exact absurd hop id

/-! ### The counters do not wrap -/

/-- Records of at most `n` bytes: that of the observation and one of metadata before it. -/
def Op.RecordsWithin (pb : Protobuf M E U) (n : ℕ) : Op M E U → Prop
  | .storeObservation (some o) m _ _ _ =>
    (pb.serializeDelimited (.metaData m)).length + (pb.serializeDelimited o.contents).length ≤ n
  | _ => True

/-- Finalizing does not change the size: the bytes of the active file become finalized bytes. -/
theorem size_finalizeActiveFile {bytes : Bytes} (hactive : s.activeFile = some bytes)
    (hne : bytes ≠ []) (hunder : s.disk.lookup kActiveFileName = some []) {newName : String}
    (hname : isFinalizedFileName newName = true) :
    ∃ s', s.finalizeActiveFile newName {} = (true, s') ∧ s'.size = s.size := by
  obtain ⟨s', heq, hclosed, -, -, -, hbytes, -⟩ := finalize_spec hactive hne hunder hname
  refine ⟨s', heq, ?_⟩
  rw [Store.size, Store.byteCount, hclosed, hbytes, Store.size, Store.byteCount, hactive]
  rfl

/-- The last part of `StoreObservation` does not change the size. -/
theorem size_finalizeIfFull {bytes : Bytes} (hactive : s.activeFile = some bytes) (hne : bytes ≠ [])
    (hunder : s.disk.lookup kActiveFileName = some []) {newName : String}
    (hname : isFinalizedFileName newName = true) (p : M × Observation E U) :
    (s.finalizeIfFull limits p newName {}).2.size = s.size := by
  rw [Store.finalizeIfFull]
  split_ifs
  · obtain ⟨s', heq, hsize⟩ := size_finalizeActiveFile hactive hne hunder hname
    rw [heq]
    exact hsize
  · rfl

/-- Storing an observation leaves the size as it is, or the estimate was within the limit and
the records are added. -/
theorem Store.Kept.size_storeObservation (hpb : pb.Lawful) (h : s.Kept pb limits)
    (o : Observation E U) (m : M) {newName : String} (hname : isFinalizedFileName newName = true) :
    (s.storeObservation pb limits (some o) m newName {}).2.size = s.size ∨
      s.size + pb.byteSize (some o) ≤ limits.maxBytesTotal ∧
        (s.storeObservation pb limits (some o) m newName {}).2.size ≤
          s.size + ((pb.serializeDelimited (.metaData m)).length +
            (pb.serializeDelimited o.contents).length) := by
  obtain ⟨s₁, records, heq₁, -, hopen, hsame₁, hcount⟩ := h.getActiveFile
  have hsize₁ : s₁.size = s.size := by
    rw [Store.size, hsame₁.finalizedBytes, hcount, Store.size]
  have henabled : ¬ s.isDisabled = true := by simp [h.enabled]
  rw [Store.storeObservation, if_neg henabled, heq₁]
  dsimp only
  rw [← Store.size, hsize₁]
  split_ifs with hbig hfull
  · exact Or.inl hsize₁
  · exact Or.inl hsize₁
  · refine Or.inr ⟨not_lt.mp hfull, ?_⟩
    obtain ⟨s₂, s₃, new, heq₂, heq₃, hsame₃, -, hdisk, hactive, hnew⟩ := write_spec hopen m o
    have hne : encodeAll pb (records ++ new ++ [o.contents]) ≠ [] :=
      mt (encodeAll_eq_nil hpb) (by simp)
    have hnewLength : (encodeAll pb new).length ≤ (pb.serializeDelimited (.metaData m)).length := by
      rcases hnew with rfl | ⟨rfl, -⟩
      · rw [encodeAll_singleton]
      · exact Nat.zero_le _
    have hsize₃ : s₃.size = s₁.size + (encodeAll pb new).length +
        (pb.serializeDelimited o.contents).length := by
      rw [Store.size, Store.size, hsame₃.finalizedBytes, Store.byteCount, Store.byteCount, hactive,
        hopen.activeFile, Option.getD_some, Option.getD_some, encodeAll_append, encodeAll_append,
        encodeAll_singleton, List.length_append, List.length_append]
      omega
    rw [heq₂]
    dsimp only
    rw [heq₃]
    dsimp only
    rw [size_finalizeIfFull hactive hne (hdisk ▸ hopen.under) hname]
    omega

/-- Taking a holder does not change the size. -/
theorem Store.Kept.size_takeNextEnvelopeHolder (h : s.Kept pb limits) {newName : String}
    (hname : isFinalizedFileName newName = true) :
    (s.takeNextEnvelopeHolder newName {}).size = s.size := by
  rw [Store.takeNextEnvelopeHolder]
  split
  · rfl
  · split_ifs with hempty
    · rfl
    · rcases h.active with ⟨hnone, -⟩ | ⟨records, hopen⟩
      · exact absurd (by rw [Store.byteCount, hnone]; rfl) hempty
      · have hne : encodeAll pb records ≠ [] := by
          intro hnil
          exact hempty (by rw [Store.byteCount, hopen.activeFile, hnil]; rfl)
        obtain ⟨s', heq, hsize⟩ :=
          size_finalizeActiveFile hopen.activeFile hne hopen.under hname
        rw [heq]
        dsimp only
        split
        · exact hsize
        · exact hsize

/-- Every ordinary operation keeps the size within the limit and the records of one
observation. -/
theorem Op.Ordinary.size_le {op : Op M E U} (hop : op.Ordinary) (hpb : pb.Lawful)
    (h : s.Kept pb limits) {n : ℕ} (hrecords : op.RecordsWithin pb n)
    (hsize : s.size ≤ limits.maxBytesTotal + n) :
    (op.apply pb encrypt limits s).size ≤ limits.maxBytesTotal + n := by
  cases op with
  | storeObservation observation m now random faults =>
    obtain ⟨hsome, ⟨hmin, hmax⟩, rfl⟩ := hop
    obtain ⟨o, rfl⟩ := Option.isSome_iff_exists.mp hsome
    have hname := isFinalizedFileName_generateFilename now hmin hmax
    rw [Op.RecordsWithin] at hrecords
    rw [Op.apply]
    rcases h.size_storeObservation hpb o m hname with heq | ⟨hestimate, hle⟩
    · exact heq.trans_le hsize
    · omega
  | takeNextEnvelopeHolder now random faults =>
    obtain ⟨⟨hmin, hmax⟩, rfl⟩ := hop
    exact (h.size_takeNextEnvelopeHolder
      (isFinalizedFileName_generateFilename now hmin hmax)).trans_le hsize
  | returnEnvelopeHolder i =>
    rw [Op.apply, Store.returnEnvelopeHolder]
    split <;> exact hsize
  | mergeWith i j =>
    rw [Op.apply, Store.mergeWith]
    split
    · split_ifs <;> exact hsize
    · exact hsize
  | getEnvelope i => exact hsize
  | destroy i faults =>
    obtain rfl : faults = {} := hop
    exact (h.destroy hpb i).2.trans hsize
  | restart now random faults => exact absurd hop id

/-- The counters do not wrap. In a run of ordinary operations from an empty directory, with
limits and records that are small enough, the estimate of `StoreObservation` is below `2 ^ 64` for
every observation that is not too big, as are all sums that it is made of. -/
theorem estimate_lt_of_run (hpb : pb.Lawful) (hsized : pb.Sized)
    (hlimits : limits.maxBytesPerObservation ≤ limits.maxBytesPerEnvelope) {n : ℕ}
    (hsmall : limits.maxBytesTotal + n + limits.maxBytesPerObservation < 2 ^ 64)
    (hrun : Relation.ReflTransGen (OpStep pb encrypt limits fun _ op =>
      op.Ordinary ∧ op.RecordsWithin pb n) {} s) {o : Observation E U}
    (hbig : pb.byteSize (some o) ≤ limits.maxBytesPerObservation) :
    s.finalizedBytes + s.byteCount + pb.byteSize (some o) < 2 ^ 64 := by
  have hinv : s.Kept pb limits ∧ s.size ≤ limits.maxBytesTotal + n := by
    induction hrun with
    | refl => exact ⟨.init hpb, Nat.zero_le _⟩
    | tail _ hstep ih =>
      obtain ⟨op, ⟨hop, hrecords⟩, rfl⟩ := hstep
      exact ⟨hop.kept hpb hsized hlimits ih.1, hop.size_le hpb ih.1 hrecords ih.2⟩
  have hsize := hinv.2
  rw [Store.size] at hsize
  omega

/-! ### The capacity -/

/-- **The capacity of the store.** In every state that a run of ordinary operations reaches from an
empty directory, observations are accepted only within the limit, the payload is within the limit,
and every finalized file exceeds `max_bytes_per_envelope` by less than two of its records. The
generated names need not be different. -/
theorem capacity_of_run (hpb : pb.Lawful) (hsized : pb.Sized)
    (hlimits : limits.maxBytesPerObservation ≤ limits.maxBytesPerEnvelope)
    (hrun : Relation.ReflTransGen (OpStep pb encrypt limits fun _ op => op.Ordinary) {} s) :
    s.Capacity pb limits := by
  have hkept : s.Kept pb limits := by
    induction hrun with
    | refl => exact .init hpb
    | tail _ hstep ih =>
      obtain ⟨op, hop, rfl⟩ := hstep
      exact hop.kept hpb hsized hlimits ih
  exact ⟨fun o m newName hok => estimate_le_of_kOk hkept.enabled hok, hkept.payload_le,
    fun name bytes hname hlookup => (hkept.files name bytes hname hlookup).2⟩

end Operations

theorem flagProtobuf_sized : flagProtobuf.Sized where
  byteSize_pos := by
    rintro (e | u)
    · cases e <;> decide
    · cases u <;> decide
  byteSize_le := fun _ => Nat.sub_le _ _

/-- A store with envelopes of at most 5 bytes, after an observation was stored. -/
def oneFlag : Store Bool Bool Bool :=
  (storeFlag (.encrypted true)).apply flagProtobuf some ⟨5, 5, 5⟩ {}

/-- The observation has 4 bytes, and the file has 10. -/
theorem capacity_of_run_one :
    oneFlag.disk.totalSize isFinalizedFileName = 10 ∧ oneFlag.payload flagProtobuf = 4 ∧
      oneFlag.Capacity flagProtobuf ⟨5, 5, 5⟩ := by
  have hrun : Relation.ReflTransGen
      (OpStep flagProtobuf some ⟨5, 5, 5⟩ fun _ op => op.Ordinary) {} oneFlag :=
    .single ⟨storeFlag (.encrypted true), ⟨rfl, ⟨by decide, by decide⟩, rfl⟩, rfl⟩
  exact ⟨by decide +kernel, by decide +kernel,
    capacity_of_run flagProtobuf_lawful flagProtobuf_sized (by decide) hrun⟩

end Cobalt.ObservationStore
