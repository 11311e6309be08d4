import Cobalt.ObservationStore.FileRecords
import Mathlib.Data.Finset.Basic
import Mathlib.Data.List.Sort
import Mathlib.Data.String.Basic

/-!
# The file observation store

A `FileObservationStore` appends records to an active file. When the active file is large enough, or
when an envelope is asked for and there is no other one, the file is finalized: it is closed and
gets a generated name. Finalized files are taken from the store in holders, which can be merged,
returned and destroyed. Destroying a holder deletes its files.

The `PosixFileSystem` opens the active file without truncating it. What is written through an open
stream is on the disk, over what was there, when the stream is closed.

## Main definitions

* `Store`: the state of a store and of its outstanding holders.
* `storeObservation`, `takeNextEnvelopeHolder`, `returnEnvelopeHolder`, `mergeWith`, `getEnvelope`,
  `destroy`, `restart`: the operations.
* `Op`, `Op.apply`: an operation with its arguments.

## Main results

* `recordsIfOk_storeObservation`: the record of the accepted observations is that of the calls that
  return `kOk`.
-/

namespace Cobalt.ObservationStore

/-! ### File names -/

def kActiveFileName : String := "in_progress.data"

def kTimestampWidth : ℕ := 13

def kMinRandomNumber : ℕ := 1000000000

def kMaxRandomNumber : ℕ := 9999999999

/-- `GenerateFilename`, at a time in milliseconds and with a random number. -/
def generateFilename (now random : ℕ) : String :=
  String.ofList ((List.leftpad kTimestampWidth '0' (Nat.toDigits 10 now)).take kTimestampWidth ++
    ['-'] ++ Nat.toDigits 10 random ++ ".data".toList)

/-- A name that matches `kFinalizedFileRegex`, which is `\d{13}-\d{10}.data`. The dot is any one byte
but the ends of lines. -/
def isFinalizedFileName (name : String) : Bool :=
  let l := name.toList
  (l.take 13).all Char.isDigit && l[13]? == some '-' && ((l.drop 14).take 10).all Char.isDigit &&
    l[24]?.any (fun c => c.utf8Size == 1 && c != '\n' && c != '\r') && l.drop 25 == "data".toList &&
    l.length == 29

theorem length_toDigits_random {random : ℕ} (hmin : kMinRandomNumber ≤ random)
    (hmax : random ≤ kMaxRandomNumber) : (Nat.toDigits 10 random).length = 10 := by
  have hle : (Nat.toDigits 10 random).length ≤ 10 := by
    rw [Nat.length_toDigits_le_iff (by decide) (by decide)]
    rw [kMaxRandomNumber] at hmax
    omega
  have hgt : ¬ (Nat.toDigits 10 random).length ≤ 9 := by
    rw [Nat.length_toDigits_le_iff (by decide) (by decide)]
    rw [kMinRandomNumber] at hmin
    omega
  omega

/-- A generated name is recognized as the name of a finalized file. -/
theorem isFinalizedFileName_generateFilename (now : ℕ) {random : ℕ}
    (hmin : kMinRandomNumber ≤ random) (hmax : random ≤ kMaxRandomNumber) :
    isFinalizedFileName (generateFilename now random) = true := by
  have hrandom := length_toDigits_random hmin hmax
  have hdigits (n : ℕ) : ∀ c ∈ Nat.toDigits 10 n, c.isDigit = true :=
    fun c hc => Nat.isDigit_of_mem_toDigits (by decide) (by decide) hc
  set stamp := (List.leftpad kTimestampWidth '0' (Nat.toDigits 10 now)).take kTimestampWidth
    with hstamp
  have hlength : stamp.length = 13 := by
    simp [hstamp, kTimestampWidth, List.leftpad]
    omega
  have hall : ∀ c ∈ stamp, c.isDigit = true := by
    intro c hc
    have hc' := List.mem_of_mem_take hc
    rw [List.leftpad, List.mem_append, List.mem_replicate] at hc'
    rcases hc' with ⟨_, rfl⟩ | hc'
    · rfl
    · exact hdigits now c hc'
  have hdrop : stamp.drop 14 = [] := List.drop_eq_nil_of_le (by omega)
  have hdrop' : stamp.drop 25 = [] := List.drop_eq_nil_of_le (by omega)
  have hdrop'' : (Nat.toDigits 10 random).drop 11 = [] := List.drop_eq_nil_of_le (by omega)
  have hdata : ".data".toList = ['.', 'd', 'a', 't', 'a'] := by decide
  have hdata' : "data".toList = ['d', 'a', 't', 'a'] := by decide
  have hdot : '.'.utf8Size = 1 := by decide
  rw [isFinalizedFileName, generateFilename, ← hstamp]
  simpa [String.toList_ofList, List.drop_append, hlength, hrandom, hdata, hdata', hdot, hdrop,
    hdrop', hdrop''] using And.intro hall (hdigits random)

theorem isFinalizedFileName_kActiveFileName : isFinalizedFileName kActiveFileName = false := by
  decide +kernel

/-! ### The state -/

/-- The outcomes of `StoreObservation`. -/
inductive StoreStatus
  | kOk
  | kObservationTooBig
  | kStoreFull
  | kWriteFailed
  deriving DecidableEq, Repr

/-- The limits that are given to the constructor. -/
structure Limits where
  maxBytesPerObservation : ℕ
  maxBytesPerEnvelope : ℕ
  maxBytesTotal : ℕ

/-- A `FileEnvelopeHolder`: the names in the set `file_names_`, in their order, and the envelope if
it has been read. -/
structure FileEnvelopeHolder (M E : Type) where
  fileNames : List String
  envelope : Option (Envelope M E) := none

/-- A store with its directory and its outstanding holders. The active file, if it is open, has the
bytes that were written through the stream.

The last four fields are a record of the run, which no operation reads: the names that were
generated, the observations that were accepted, for each accepted observation that was not in a
destroyed holder the file into which it was written, and the other accepted observations. -/
structure Store (M E U : Type) where
  disk : Disk := ∅
  isDisabled : Bool := false
  metadataWritten : Bool := false
  lastWrittenMetadata : Bytes := []
  activeFile : Option Bytes := none
  filesTaken : Finset String := ∅
  finalizedBytes : ℕ := 0
  holders : List (FileEnvelopeHolder M E) := []
  generated : List String := []
  accepted : List (M × Observation E U) := []
  placed : List (String × M × Observation E U) := []
  destroyed : List (M × Observation E U) := []

/-- Which operations on the file system fail in a call. A write to the active file that fails leaves
some bytes in it. -/
structure Faults where
  openFails : Bool := false
  metadataLeft : Option Bytes := none
  recordLeft : Option Bytes := none
  renameFails : Bool := false
  deleteFails : Bool := false
  deriving DecidableEq

/-- Subtraction of values of the type `size_t`, which wraps below zero. -/
def subSize (a b : ℕ) : ℕ := if b ≤ a then a - b else a + 2 ^ 64 - b

section Operations

variable {M E U : Type} (pb : Protobuf M E U) (encrypt : U → Option E) (limits : Limits)

namespace Store

/-- The size of a file, `0` if there is none. -/
def fileSize (s : Store M E U) (name : String) : ℕ := ((s.disk.lookup name).getD []).length

/-- A file is deleted. -/
def delete (s : Store M E U) (name : String) (fails : Bool) : Store M E U :=
  if fails then s else { s with disk := s.disk.erase name }

/-- The active file is closed, if it is open. -/
def closeActiveFile (s : Store M E U) : Store M E U :=
  { s with
    activeFile := none
    disk :=
      match s.activeFile with
      | none => s.disk
      | some bytes =>
        s.disk.insert kActiveFileName (overlay ((s.disk.lookup kActiveFileName).getD []) bytes) }

/-- The active file gets a name. -/
def renameActiveFile (s : Store M E U) (disk : Disk) (newName : String) : Store M E U :=
  { s with
    disk := disk
    finalizedBytes := s.finalizedBytes + s.fileSize kActiveFileName
    placed := s.placed.map fun p => if p.1 = kActiveFileName then (newName, p.2) else p }

/-- `FinalizeActiveFile`, after the file is closed. -/
def finalizeClosedFile (s : Store M E U) (newName : String) (faults : Faults) :
    Bool × Store M E U :=
  match s.disk.lookup kActiveFileName with
  | none => (false, s)
  | some [] => (false, s.delete kActiveFileName faults.deleteFails)
  | some _ =>
    let s := { s with generated := s.generated ++ [newName] }
    if faults.renameFails then (false, s)
    else
      match s.disk.rename kActiveFileName newName with
      | none => (false, s)
      | some disk => (true, s.renameActiveFile disk newName)

/-- `FinalizeActiveFile`. -/
def finalizeActiveFile (s : Store M E U) (newName : String) (faults : Faults) :
    Bool × Store M E U :=
  { s.closeActiveFile with metadataWritten := false }.finalizeClosedFile newName faults

/-- `GetActiveFile`. -/
def getActiveFile (s : Store M E U) (faults : Faults) : Option (Store M E U) :=
  match s.activeFile with
  | some _ => some s
  | none =>
    if faults.openFails then none
    else some { s with
      activeFile := some []
      disk := s.disk.insert kActiveFileName ((s.disk.lookup kActiveFileName).getD []) }

/-- `ByteCount` of the active file. -/
def byteCount (s : Store M E U) : ℕ := (s.activeFile.getD []).length

/-- `Size`. -/
def size (s : Store M E U) : ℕ := s.finalizedBytes + s.byteCount

/-- Bytes are written to the active file. -/
def append (s : Store M E U) (bytes : Bytes) : Store M E U :=
  { s with activeFile := s.activeFile.map (· ++ bytes) }

/-- A record is written to the active file. -/
def writeRecord (s : Store M E U) (c : Contents M E U) (left : Option Bytes) :
    Bool × Store M E U :=
  match left with
  | some bytes => (false, s.append bytes)
  | none => (true, s.append (pb.serializeDelimited c))

/-- The metadata is written, unless the last record of metadata in the active file is the same. -/
def writeMetadata (s : Store M E U) (m : M) (faults : Faults) : Bool × Store M E U :=
  if s.metadataWritten = false ∨ pb.metadataString m ≠ s.lastWrittenMetadata then
    match s.writeRecord pb (.metaData m) faults.metadataLeft with
    | (false, s) => (false, s)
    | (true, s) =>
      (true, { s with metadataWritten := true, lastWrittenMetadata := pb.metadataString m })
  else (true, s)

/-- An observation was accepted and is in some file. -/
def accept (s : Store M E U) (name : String) (p : M × Observation E U) : Store M E U :=
  { s with accepted := s.accepted ++ [p], placed := s.placed ++ [(name, p)] }

end Store

/-- The record of an observation. -/
def Observation.contents : Observation E U → Contents M E U
  | .encrypted e => .encryptedObservation e
  | .unencrypted u => .unencryptedObservation u

namespace Store

/-- The last part of `StoreObservation`: the active file is finalized if it is large enough. -/
def finalizeIfFull (s : Store M E U) (p : M × Observation E U) (newName : String)
    (faults : Faults) : StoreStatus × Store M E U :=
  if (BitVec.ofNat 64 limits.maxBytesPerEnvelope).toInt ≤ s.byteCount then
    match s.finalizeActiveFile newName faults with
    | (false, s) => (.kWriteFailed, s)
    | (true, s) => (.kOk, s.accept newName p)
  else (.kOk, s.accept kActiveFileName p)

/-- `StoreObservation`. -/
def storeObservation (s : Store M E U) (observation : Option (Observation E U)) (m : M)
    (newName : String) (faults : Faults) : StoreStatus × Store M E U :=
  if s.isDisabled then (.kOk, s)
  else
    match s.getActiveFile faults with
    | none => (.kWriteFailed, s)
    | some s =>
      if pb.byteSize observation > limits.maxBytesPerObservation then (.kObservationTooBig, s)
      -- this sum has the type `size_t`, and does not wrap where the limits are small enough
      else if s.finalizedBytes + s.byteCount + pb.byteSize observation > limits.maxBytesTotal then
        (.kStoreFull, s)
      else
        match s.writeMetadata pb m faults with
        | (false, s) => (.kWriteFailed, s)
        | (true, s) =>
          match observation with
          | none => (.kWriteFailed, s)
          | some o =>
            match s.writeRecord pb o.contents faults.recordLeft with
            | (false, s) => (.kWriteFailed, s)
            | (true, s) => s.finalizeIfFull limits (m, o) newName faults

/-- `ListFinalizedFiles`. -/
def listFinalizedFiles (s : Store M E U) : List String :=
  s.disk.keys.filter isFinalizedFileName

/-- The loop of `GetOldestFinalizedFile`. -/
def oldest (files : List String) : String :=
  files.foldl (fun found file => if found = "" then file else if file < found then file else found)
    ""

/-- `GetOldestFinalizedFile`. -/
def getOldestFinalizedFile (s : Store M E U) : Option String :=
  let found := oldest (s.listFinalizedFiles.filter (· ∉ s.filesTaken))
  if found = "" then none else some found

/-- A finalized file is taken from the store. -/
def take (s : Store M E U) (name : String) : Store M E U :=
  { s with
    filesTaken := insert name s.filesTaken
    holders := s.holders ++ [{ fileNames := [name] }] }

/-- `TakeNextEnvelopeHolder`. -/
def takeNextEnvelopeHolder (s : Store M E U) (newName : String) (faults : Faults) : Store M E U :=
  match s.getOldestFinalizedFile with
  | some name => s.take name
  | none =>
    if s.byteCount = 0 then s
    else
      match s.finalizeActiveFile newName faults with
      | (false, s) => s
      | (true, s) =>
        match s.getOldestFinalizedFile with
        | none => s
        | some name => s.take name

/-- `ReturnEnvelopeHolder`, of the holder with some number. -/
def returnEnvelopeHolder (s : Store M E U) (i : ℕ) : Store M E U :=
  match s.holders[i]? with
  | none => s
  | some holder =>
    { s with
      filesTaken := s.filesTaken \ holder.fileNames.toFinset
      holders := s.holders.eraseIdx i }

/-- The union of two sets of names. -/
def mergeNames (names names' : List String) : List String :=
  names'.foldl (fun names name => if name ∈ names then names else names.orderedInsert (· ≤ ·) name)
    names

/-- `MergeWith`, of a holder with another one. -/
def mergeWith (s : Store M E U) (i j : ℕ) : Store M E U :=
  match s.holders[i]?, s.holders[j]? with
  | some holder, some container =>
    if i = j then s
    else { s with
      holders := (s.holders.set i
        { fileNames := mergeNames holder.fileNames container.fileNames }).eraseIdx j }
  | _, _ => s

/-- `GetEnvelope`, which keeps the envelope in the holder. -/
def envelopeOf (s : Store M E U) (holder : FileEnvelopeHolder M E) : Envelope M E :=
  match holder.envelope with
  | some envelope => envelope
  | none => (readFiles pb encrypt s.disk holder.fileNames).2.envelope

@[inherit_doc envelopeOf]
def getEnvelope (s : Store M E U) (i : ℕ) : Store M E U :=
  { s with
    holders := s.holders.modify i fun holder =>
      { holder with envelope := some (s.envelopeOf pb encrypt holder) } }

/-- One file of a holder that is destroyed. -/
def destroyFile (faults : Faults) (s : Store M E U) (name : String) : Store M E U :=
  { s with finalizedBytes := subSize s.finalizedBytes (s.fileSize name) }.delete name
    faults.deleteFails

/-- The destructor of a `FileEnvelopeHolder`. -/
def destroy (s : Store M E U) (i : ℕ) (faults : Faults) : Store M E U :=
  match s.holders[i]? with
  | none => s
  | some holder =>
    let s := holder.fileNames.foldl (destroyFile faults) s
    { s with
      holders := s.holders.eraseIdx i
      destroyed := s.destroyed ++
        (s.placed.filter (·.1 ∈ holder.fileNames)).map Prod.snd
      placed := s.placed.filter (·.1 ∉ holder.fileNames) }

/-- The store is destroyed, which closes its file, and a new one is built on the same directory. -/
def restart (s : Store M E U) (newName : String) (faults : Faults) : Store M E U :=
  let s := s.closeActiveFile
  let s := { s with
    isDisabled := false
    metadataWritten := false
    lastWrittenMetadata := []
    filesTaken := ∅
    finalizedBytes := (s.listFinalizedFiles.map s.fileSize).sum }
  (s.finalizeActiveFile newName faults).2

end Store

/-! ### Runs -/

/-- An operation on a store, with its arguments, the time and the random number from which a name is
generated, and the failures of the file system. -/
inductive Op (M E U : Type)
  | storeObservation (observation : Option (Observation E U)) (m : M) (now random : ℕ)
      (faults : Faults)
  | takeNextEnvelopeHolder (now random : ℕ) (faults : Faults)
  | returnEnvelopeHolder (i : ℕ)
  | mergeWith (i j : ℕ)
  | getEnvelope (i : ℕ)
  | destroy (i : ℕ) (faults : Faults)
  | restart (now random : ℕ) (faults : Faults)

/-- The state after an operation. -/
def Op.apply (op : Op M E U) (s : Store M E U) : Store M E U :=
  match op with
  | .storeObservation observation m now random faults =>
    (s.storeObservation pb limits observation m (generateFilename now random) faults).2
  | .takeNextEnvelopeHolder now random faults =>
    s.takeNextEnvelopeHolder (generateFilename now random) faults
  | .returnEnvelopeHolder i => s.returnEnvelopeHolder i
  | .mergeWith i j => s.mergeWith i j
  | .getEnvelope i => s.getEnvelope pb encrypt i
  | .destroy i faults => s.destroy i faults
  | .restart now random faults => s.restart (generateFilename now random) faults

end Operations

/-! ### Opening the active file -/

theorem size_getActiveFile {M E U : Type} {s s₁ : Store M E U} {faults : Faults}
    (h : s.getActiveFile faults = some s₁) : s₁.size = s.size := by
  rw [Store.getActiveFile] at h
  split at h
  · rw [Option.some.inj h]
  · next hnone =>
    split_ifs at h
    rw [← Option.some.inj h, Store.size, Store.size, Store.byteCount, Store.byteCount, hnone]
    rfl

/-! ### The record of the accepted observations -/

section Accepted

variable {M E U : Type} {pb : Protobuf M E U} {limits : Limits} {s : Store M E U}

/-- The record after a call has the observations in addition if the call returns `kOk`, and else it
is as before. -/
def Store.RecordsIfOk (s : Store M E U) (l : List (M × Observation E U))
    (result : StoreStatus × Store M E U) : Prop :=
  result.2.accepted = if result.1 = .kOk then s.accepted ++ l else s.accepted

theorem accepted_getActiveFile {s₁ : Store M E U} {faults : Faults}
    (h : s.getActiveFile faults = some s₁) : s₁.accepted = s.accepted := by
  rw [Store.getActiveFile] at h
  split at h
  · obtain rfl := Option.some.inj h
    rfl
  · split_ifs at h
    obtain rfl := Option.some.inj h
    rfl

theorem accepted_writeRecord (c : Contents M E U) (left : Option Bytes) :
    (s.writeRecord pb c left).2.accepted = s.accepted := by
  cases left <;> rfl

theorem accepted_writeMetadata (m : M) (faults : Faults) :
    (s.writeMetadata pb m faults).2.accepted = s.accepted := by
  rw [Store.writeMetadata]
  split_ifs
  · cases hleft : faults.metadataLeft <;> rfl
  · rfl

theorem accepted_finalizeActiveFile (newName : String) (faults : Faults) :
    (s.finalizeActiveFile newName faults).2.accepted = s.accepted := by
  have hdelete (t : Store M E U) (fails : Bool) :
      (t.delete kActiveFileName fails).accepted = t.accepted := by
    cases fails <;> rfl
  rw [Store.finalizeActiveFile, Store.finalizeClosedFile]
  split
  · rfl
  · exact hdelete _ _
  · dsimp only
    split_ifs
    · rfl
    · split <;> rfl

theorem recordsIfOk_finalizeIfFull (p : M × Observation E U) (newName : String) (faults : Faults) :
    s.RecordsIfOk [p] (s.finalizeIfFull limits p newName faults) := by
  have hfinalize := accepted_finalizeActiveFile (s := s) newName faults
  rw [Store.finalizeIfFull]
  by_cases hfull : (BitVec.ofNat 64 limits.maxBytesPerEnvelope).toInt ≤ s.byteCount
  · rw [if_pos hfull]
    generalize s.finalizeActiveFile newName faults = r at hfinalize ⊢
    obtain ⟨ok, t⟩ := r
    cases ok with
    | false => exact hfinalize
    | true => exact congrArg (· ++ [p]) hfinalize
  · rw [if_neg hfull]
    rfl

/-- **The accepted observations** are those for which a store that is not disabled returns `kOk`. -/
theorem recordsIfOk_storeObservation (observation : Option (Observation E U)) (m : M)
    (newName : String) (faults : Faults) (henabled : s.isDisabled = false) :
    s.RecordsIfOk (observation.toList.map fun o => (m, o))
      (s.storeObservation pb limits observation m newName faults) := by
  rw [Store.storeObservation, if_neg (by simp [henabled])]
  cases hactive : s.getActiveFile faults with
  | none => rfl
  | some s₁ =>
    dsimp only
    by_cases hbig : pb.byteSize observation > limits.maxBytesPerObservation
    · rw [if_pos hbig]
      exact accepted_getActiveFile hactive
    rw [if_neg hbig]
    by_cases hfull : s₁.finalizedBytes + s₁.byteCount + pb.byteSize observation >
        limits.maxBytesTotal
    · rw [if_pos hfull]
      exact accepted_getActiveFile hactive
    rw [if_neg hfull]
    have hmetadata : (s₁.writeMetadata pb m faults).2.accepted = s.accepted :=
      (accepted_writeMetadata m faults).trans (accepted_getActiveFile hactive)
    generalize s₁.writeMetadata pb m faults = r at hmetadata ⊢
    obtain ⟨ok, s₂⟩ := r
    cases ok with
    | false => exact hmetadata
    | true =>
      cases observation with
      | none => exact hmetadata
      | some o =>
        have hrecord : (s₂.writeRecord pb o.contents faults.recordLeft).2.accepted = s.accepted :=
          (accepted_writeRecord _ _).trans hmetadata
        dsimp only
        generalize s₂.writeRecord pb o.contents faults.recordLeft = r at hrecord ⊢
        obtain ⟨ok, s₃⟩ := r
        cases ok with
        | false => exact hrecord
        | true =>
          have hlast : s₃.RecordsIfOk [(m, o)] (s₃.finalizeIfFull limits (m, o) newName faults) :=
            recordsIfOk_finalizeIfFull (m, o) newName faults
          rwa [Store.RecordsIfOk, hrecord] at hlast

end Accepted

end Cobalt.ObservationStore
