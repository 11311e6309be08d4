import Cobalt.ObservationStore.DeleteData

/-!
# The size of the finalized files

A `FileObservationStore` counts the bytes of its finalized files. The counter grows when a file is
finalized, shrinks when a holder is destroyed, whether or not its files could be deleted, and is set
to zero when the data is deleted, whether or not the files could be deleted. It is right as long as
deletions do not fail.

## Main definitions

* `StoreOp`: the operations, with deletions that can fail for each file, and restarts that lose what
  was not yet written to the disk.
* `Store.Accounted`: the counter is the total size of the finalized files on the disk.
* `StoreOp.NoWrap`: the counter is not made smaller than zero.
* `StoreOp.Deletes`: no deletion of a finalized file fails, and a generated name is not in use.

## Main results

* `accounted_of_run`: in a run in which no deletion fails the counter is right and does not wrap.
* `not_accounted_undeleted`: a deletion that fails makes the counter wrong, and then it wraps.
-/

namespace Cobalt.ObservationStore

section Operations

variable {M E U : Type} (pb : Protobuf M E U) (encrypt : U → Option E) (limits : Limits)

/-- One file of a holder that is destroyed, of which the deletion may fail. -/
def Store.removeFile (undeleted : String → Bool) (s : Store M E U) (name : String) : Store M E U :=
  { s with finalizedBytes := subSize s.finalizedBytes (s.fileSize name) }.delete name (undeleted name)

/-- The destructor of the `FileEnvelopeHolder` with some number. The deletion of each file may
fail. -/
def Store.destroyHolder (s : Store M E U) (i : ℕ) (undeleted : String → Bool) : Store M E U :=
  match s.holders[i]? with
  | none => s
  | some holder =>
    let s := holder.fileNames.foldl (Store.removeFile undeleted) s
    { s with
      holders := s.holders.eraseIdx i
      destroyed := s.destroyed ++
        (s.placed.filter (·.1 ∈ holder.fileNames)).map Prod.snd
      placed := s.placed.filter (·.1 ∉ holder.fileNames) }

/-- A destructor in which all deletions fail or none does. -/
theorem Store.destroy_eq (s : Store M E U) (i : ℕ) (faults : Faults) :
    s.destroy i faults = s.destroyHolder i fun _ => faults.deleteFails := rfl

/-- The process ends, when the first `flushed` bytes of the active file are on the disk, and a new
store is built on the same directory. -/
def Store.reboot (s : Store M E U) (flushed : ℕ) (newName : String) (faults : Faults) : Store M E U :=
  ({ s with holders := [], activeFile := s.activeFile.map (·.take flushed) } : Store M E U).restart
    newName faults

/-- The constructor, on a directory with some files. -/
def Store.new (disk : Disk) (newName : String) (faults : Faults) : Store M E U :=
  ({ disk := disk } : Store M E U).restart newName faults

/-- An operation, with the failures of the file system. -/
inductive StoreOp (M E U : Type)
  | storeObservation (observation : Option (Observation E U)) (m : M) (now random : ℕ)
      (faults : Faults)
  | takeNextEnvelopeHolder (now random : ℕ) (faults : Faults)
  | returnEnvelopeHolder (i : ℕ)
  | mergeWith (i j : ℕ)
  | getEnvelope (i : ℕ)
  | destroy (i : ℕ) (undeleted : String → Bool)
  | restart (flushed now random : ℕ) (faults : Faults)
  | deleteData (now random : ℕ) (faults : Faults) (undeleted : String → Bool)
  | disable (isDisabled : Bool)

namespace StoreOp

/-- The state after an operation. -/
def apply (op : StoreOp M E U) (s : Store M E U) : Store M E U :=
  match op with
  | storeObservation observation m now random faults =>
    (s.storeObservation pb limits observation m (generateFilename now random) faults).2
  | takeNextEnvelopeHolder now random faults =>
    s.takeNextEnvelopeHolder (generateFilename now random) faults
  | returnEnvelopeHolder i => s.returnEnvelopeHolder i
  | mergeWith i j => s.mergeWith i j
  | getEnvelope i => s.getEnvelope pb encrypt i
  | destroy i undeleted => s.destroyHolder i undeleted
  | restart flushed now random faults => s.reboot flushed (generateFilename now random) faults
  | deleteData now random faults undeleted =>
    s.deleteData (generateFilename now random) faults undeleted
  | disable isDisabled => { s with isDisabled := isDisabled }

end StoreOp

end Operations

section Law

variable {M E U : Type}

/-- A name that is generated is not the name of a file. -/
def Store.Unused (s : Store M E U) (now random : ℕ) : Prop :=
  kMinRandomNumber ≤ random ∧ random ≤ kMaxRandomNumber ∧
    s.disk.lookup (generateFilename now random) = none

/-- No deletion of a file with bytes in it fails, and a generated name is not in use. -/
def StoreOp.Deletes (s : Store M E U) : StoreOp M E U → Prop
  | .storeObservation _ _ now random _ | .takeNextEnvelopeHolder now random _
  | .restart _ now random _ => s.Unused now random
  | .returnEnvelopeHolder _ | .mergeWith _ _ | .getEnvelope _ | .disable _ => True
  | .destroy i undeleted => ∀ holder, s.holders[i]? = some holder → ∀ name ∈ holder.fileNames,
      s.fileSize name ≠ 0 → undeleted name = false
  | .deleteData now random faults undeleted => s.Unused now random ∧
      ∀ name ∈ (s.finalizeActiveFile (generateFilename now random) faults).2.listFinalizedFiles,
        (s.finalizeActiveFile (generateFilename now random) faults).2.fileSize name ≠ 0 →
        undeleted name = false

/-- No file is larger than the counter when its size is subtracted. -/
def Store.RemovesAll (undeleted : String → Bool) : List String → Store M E U → Prop
  | [], _ => True
  | name :: names, s => s.fileSize name ≤ s.finalizedBytes ∧
      RemovesAll undeleted names (s.removeFile undeleted name)

/-- The operation does not make the counter smaller than zero. -/
def StoreOp.NoWrap (s : Store M E U) : StoreOp M E U → Prop
  | .destroy i undeleted => ∀ holder, s.holders[i]? = some holder →
      Store.RemovesAll undeleted holder.fileNames s
  | _ => True

/-- The counter is the total size of the finalized files on the disk. -/
def Store.Counted (s : Store M E U) : Prop :=
  s.finalizedBytes = s.disk.totalSize isFinalizedFileName

/-- What every operation keeps: the counter is right, and holders have names of finalized files. -/
structure Store.Accounted (s : Store M E U) : Prop where
  counted : s.Counted
  owned : ∀ name ∈ s.owned, isFinalizedFileName name = true

/-! ### Operations that do not touch finalized files -/

/-- The finalized files, the counter and the holders are the same. -/
structure Store.SameFiles (s s' : Store M E U) : Prop where
  disk : ∀ name, isFinalizedFileName name = true → s'.disk.lookup name = s.disk.lookup name
  finalizedBytes : s'.finalizedBytes = s.finalizedBytes
  holders : s'.holders = s.holders

namespace Store.SameFiles

variable {s s' s'' : Store M E U}

theorem refl (s : Store M E U) : s.SameFiles s :=
  ⟨fun _ _ => rfl, rfl, rfl⟩

theorem trans (h : s.SameFiles s') (h' : s'.SameFiles s'') : s.SameFiles s'' :=
  ⟨fun name hname => (h'.disk name hname).trans (h.disk name hname),
    h'.finalizedBytes.trans h.finalizedBytes, h'.holders.trans h.holders⟩

theorem accounted (h : s.SameFiles s') (hs : s.Accounted) : s'.Accounted := by
  refine ⟨?_, fun name hname => hs.owned name ?_⟩
  · rw [Store.Counted, h.finalizedBytes, hs.counted]
    exact (Disk.totalSize_congr h.disk).symm
  · rwa [Store.owned, h.holders] at hname

end Store.SameFiles

/-! ### The steps -/

variable {pb : Protobuf M E U} {encrypt : U → Option E} {limits : Limits} {s : Store M E U}

theorem sameFiles_closeActiveFile (s : Store M E U) :
    s.SameFiles { s.closeActiveFile with metadataWritten := false } :=
  ⟨fun _ hname => lookup_closeActiveFile s (ne_kActiveFileName hname), rfl, rfl⟩

theorem sameFiles_delete (s : Store M E U) (fails : Bool) :
    s.SameFiles (s.delete kActiveFileName fails) := by
  rw [Store.delete]
  split_ifs
  · exact .refl s
  · exact ⟨fun _ hname => AList.lookup_erase_ne (ne_kActiveFileName hname), rfl, rfl⟩

/-- Finalizing the active file adds its size, if it is renamed. -/
theorem Store.Accounted.finalizeClosedFile {c : Store M E U} (hc : c.Accounted) {newName : String}
    (hname : isFinalizedFileName newName = true) (hunused : c.disk.lookup newName = none)
    (faults : Faults) : (c.finalizeClosedFile newName faults).2.Accounted := by
  have hcases := finalizeClosedFile_cases c newName faults
  dsimp only at hcases
  rcases hcases with ⟨_, heq⟩ | ⟨_, heq⟩ | ⟨bytes, hbytes, _, ⟨_, heq⟩ | ⟨_, disk, hrename, heq⟩⟩ <;>
    rw [heq]
  · exact hc
  · exact (sameFiles_delete c faults.deleteFails).accounted hc
  · exact ⟨hc.counted, hc.owned⟩
  · refine ⟨?_, hc.owned⟩
    have hlookup := Disk.lookup_rename hrename
    have hsize : c.fileSize kActiveFileName = bytes.length := by
      rw [Store.fileSize, hbytes]
      rfl
    have hadd : disk.totalSize isFinalizedFileName =
        c.disk.totalSize isFinalizedFileName + bytes.length := by
      refine Disk.totalSize_add hname hunused ?_ fun name' hname' hne => ?_
      · rw [hlookup, if_pos rfl, hbytes]
      · rw [hlookup, if_neg hne, if_neg (ne_kActiveFileName hname')]
    change c.finalizedBytes + c.fileSize kActiveFileName = disk.totalSize isFinalizedFileName
    rw [hadd, hsize, hc.counted]

theorem Store.Accounted.finalizeActiveFile (h : s.Accounted) {newName : String}
    (hname : isFinalizedFileName newName = true) (hunused : s.disk.lookup newName = none)
    (faults : Faults) : (s.finalizeActiveFile newName faults).2.Accounted := by
  have hclosed := sameFiles_closeActiveFile s
  exact (hclosed.accounted h).finalizeClosedFile hname ((hclosed.disk newName hname).trans hunused)
    faults

theorem Store.Unused.name {now random : ℕ} (h : s.Unused now random) :
    isFinalizedFileName (generateFilename now random) = true :=
  isFinalizedFileName_generateFilename now h.1 h.2.1

theorem sameFiles_getActiveFile {faults : Faults} {s' : Store M E U}
    (h : s.getActiveFile faults = some s') : s.SameFiles s' := by
  rw [Store.getActiveFile] at h
  split at h
  · exact Option.some.inj h ▸ .refl s
  · split_ifs at h
    obtain rfl := Option.some.inj h
    exact ⟨fun _ hname => AList.lookup_insert_ne (ne_kActiveFileName hname), rfl, rfl⟩

theorem sameFiles_writeRecord (s : Store M E U) (c : Contents M E U) (left : Option Bytes) :
    s.SameFiles (s.writeRecord pb c left).2 := by
  cases left <;> exact ⟨fun _ _ => rfl, rfl, rfl⟩

theorem sameFiles_writeMetadata (s : Store M E U) (m : M) (faults : Faults) :
    s.SameFiles (s.writeMetadata pb m faults).2 := by
  have hrecord : s.SameFiles (s.writeRecord pb (.metaData m) faults.metadataLeft).2 :=
    sameFiles_writeRecord s (.metaData m) faults.metadataLeft
  rw [Store.writeMetadata]
  split_ifs
  · generalize s.writeRecord pb (.metaData m) faults.metadataLeft = r at hrecord ⊢
    obtain ⟨written, s'⟩ := r
    cases written with
    | true => exact ⟨hrecord.disk, hrecord.finalizedBytes, hrecord.holders⟩
    | false => exact hrecord
  · exact .refl s

theorem Store.Accounted.finalizeIfFull (h : s.Accounted) (p : M × Observation E U)
    {newName : String} (hname : isFinalizedFileName newName = true)
    (hunused : s.disk.lookup newName = none) (faults : Faults) :
    (s.finalizeIfFull limits p newName faults).2.Accounted := by
  have hfinal := h.finalizeActiveFile hname hunused faults
  rw [Store.finalizeIfFull]
  split_ifs
  · generalize s.finalizeActiveFile newName faults = r at hfinal ⊢
    obtain ⟨renamed, s'⟩ := r
    cases renamed <;> exact ⟨hfinal.counted, hfinal.owned⟩
  · exact ⟨h.counted, h.owned⟩

/-- Storing an observation. -/
theorem Store.Accounted.storeObservation (h : s.Accounted) (observation : Option (Observation E U))
    (m : M) {newName : String} (hname : isFinalizedFileName newName = true)
    (hunused : s.disk.lookup newName = none) (faults : Faults) :
    (s.storeObservation pb limits observation m newName faults).2.Accounted := by
  by_cases hdisabled : s.isDisabled = true
  · rw [Store.storeObservation, if_pos hdisabled]
    exact h
  rw [Store.storeObservation, if_neg hdisabled]
  cases hactive : s.getActiveFile faults with
  | none => exact h
  | some s₁ =>
    have hsame₁ := sameFiles_getActiveFile hactive
    dsimp only
    split_ifs
    · exact hsame₁.accounted h
    · exact hsame₁.accounted h
    · have hsame₂ : s.SameFiles (s₁.writeMetadata pb m faults).2 :=
        hsame₁.trans (sameFiles_writeMetadata s₁ m faults)
      generalize s₁.writeMetadata pb m faults = r₂ at hsame₂ ⊢
      obtain ⟨written, s₂⟩ := r₂
      cases written with
      | false => exact hsame₂.accounted h
      | true =>
        cases observation with
        | none => exact hsame₂.accounted h
        | some o =>
          have hsame₃ : s.SameFiles (s₂.writeRecord pb o.contents faults.recordLeft).2 :=
            hsame₂.trans (sameFiles_writeRecord s₂ o.contents faults.recordLeft)
          dsimp only
          generalize s₂.writeRecord pb o.contents faults.recordLeft = r₃ at hsame₃ ⊢
          obtain ⟨written, s₃⟩ := r₃
          cases written with
          | false => exact hsame₃.accounted h
          | true =>
            exact (hsame₃.accounted h).finalizeIfFull (m, o) hname
              ((hsame₃.disk newName hname).trans hunused) faults

theorem Store.Accounted.take (h : s.Accounted) {name : String}
    (hname : s.getOldestFinalizedFile = some name) : (s.take name).Accounted := by
  refine ⟨h.counted, fun name' hname' => ?_⟩
  rw [owned_take, List.mem_append, List.mem_singleton] at hname'
  rcases hname' with hname' | rfl
  · exact h.owned name' hname'
  · exact (getOldestFinalizedFile_spec hname).2.1

theorem Store.Accounted.takeNextEnvelopeHolder (h : s.Accounted) {newName : String}
    (hname : isFinalizedFileName newName = true) (hunused : s.disk.lookup newName = none)
    (faults : Faults) : (s.takeNextEnvelopeHolder newName faults).Accounted := by
  have hfinal := h.finalizeActiveFile hname hunused faults
  rw [Store.takeNextEnvelopeHolder]
  split
  · next name hoption => exact h.take hoption
  · split_ifs
    · exact h
    · generalize s.finalizeActiveFile newName faults = r at hfinal ⊢
      obtain ⟨renamed, s'⟩ := r
      cases renamed with
      | false => exact hfinal
      | true =>
        dsimp only
        split
        · exact hfinal
        · next name hoption => exact hfinal.take hoption

theorem Store.Accounted.returnEnvelopeHolder (h : s.Accounted) (i : ℕ) :
    (s.returnEnvelopeHolder i).Accounted := by
  rw [Store.returnEnvelopeHolder]
  split
  · exact h
  · next holder hholder =>
    refine ⟨h.counted, fun name hname => h.owned name ?_⟩
    exact (owned_perm hholder).mem_iff.mpr (List.mem_append_right _ hname)

theorem Store.Accounted.mergeWith (h : s.Accounted) (i j : ℕ) : (s.mergeWith i j).Accounted := by
  refine ⟨?_, fun name hname => h.owned name (mem_owned_mergeWith.mp hname)⟩
  rw [Store.mergeWith]
  split
  · split_ifs <;> exact h.counted
  · exact h.counted

/-- Removing one file from the counter and from the disk. -/
theorem removeFile_spec {undeleted : String → Bool} {name : String} (h : s.Counted)
    (hname : isFinalizedFileName name = true)
    (hdeleted : s.fileSize name ≠ 0 → undeleted name = false) :
    s.fileSize name ≤ s.finalizedBytes ∧ (s.removeFile undeleted name).Counted ∧
      (s.removeFile undeleted name).holders = s.holders ∧
      ∀ name', (s.removeFile undeleted name).fileSize name' ≠ 0 → s.fileSize name' ≠ 0 := by
  have htotal : s.finalizedBytes =
      Disk.totalSize (s.disk.erase name) isFinalizedFileName + s.fileSize name :=
    h.trans (Disk.totalSize_erase hname)
  have hsub : subSize s.finalizedBytes (s.fileSize name) =
      Disk.totalSize (s.disk.erase name) isFinalizedFileName := by
    rw [subSize, htotal, if_pos (Nat.le_add_left _ _), Nat.add_sub_cancel]
  refine ⟨htotal ▸ Nat.le_add_left _ _, ?_⟩
  rw [Store.removeFile, Store.delete]
  cases hundeleted : undeleted name with
  | false =>
    refine ⟨hsub, rfl, fun name' hne hzero => hne ?_⟩
    simp only [Store.fileSize, Bool.false_eq_true, ↓reduceIte, Disk.lookup_erase] at hzero ⊢
    split_ifs
    · rfl
    · exact hzero
  | true =>
    have hzero : s.fileSize name = 0 := by
      by_contra hne
      exact absurd (hdeleted hne) (by simp [hundeleted])
    refine ⟨?_, rfl, fun name' hne => hne⟩
    rw [hzero, Nat.add_zero] at htotal
    simp only [Store.Counted, ↓reduceIte]
    rw [hsub, ← htotal, h]

theorem foldl_removeFile {undeleted : String → Bool} {names : List String} (s : Store M E U)
    (h : s.Counted) (hnames : ∀ name ∈ names, isFinalizedFileName name = true)
    (hdeleted : ∀ name ∈ names, s.fileSize name ≠ 0 → undeleted name = false) :
    Store.RemovesAll undeleted names s ∧ (names.foldl (Store.removeFile undeleted) s).Counted ∧
      (names.foldl (Store.removeFile undeleted) s).holders = s.holders := by
  induction names generalizing s with
  | nil => exact ⟨trivial, h, rfl⟩
  | cons name names ih =>
    obtain ⟨hle, hcounted, hholders, hsizes⟩ := removeFile_spec h (hnames name List.mem_cons_self)
      (hdeleted name List.mem_cons_self)
    obtain ⟨hremoves, hcounted', hholders'⟩ := ih (s.removeFile undeleted name) hcounted
      (fun name' hname' => hnames name' (List.mem_cons_of_mem name hname'))
      fun name' hname' hne => hdeleted name' (List.mem_cons_of_mem name hname') (hsizes name' hne)
    exact ⟨⟨hle, hremoves⟩, hcounted', hholders'.trans hholders⟩

/-- Destroying a holder whose files are deleted. -/
theorem Store.Accounted.destroyHolder (h : s.Accounted) {i : ℕ} {undeleted : String → Bool}
    (hdeleted : (StoreOp.destroy i undeleted).Deletes s) :
    (StoreOp.destroy i undeleted).NoWrap s ∧ (s.destroyHolder i undeleted).Accounted := by
  have hspec : ∀ holder, s.holders[i]? = some holder →
      Store.RemovesAll undeleted holder.fileNames s ∧
        (holder.fileNames.foldl (Store.removeFile undeleted) s).Counted ∧
        (holder.fileNames.foldl (Store.removeFile undeleted) s).holders = s.holders := by
    intro holder hholder
    refine foldl_removeFile s h.counted (fun name hname => h.owned name ?_) (hdeleted holder hholder)
    exact (owned_perm hholder).mem_iff.mpr (List.mem_append_left _ hname)
  refine ⟨fun holder hholder => (hspec holder hholder).1, ?_⟩
  rw [Store.destroyHolder]
  split
  · exact h
  · next holder hholder =>
    obtain ⟨_, hcounted, hholders⟩ := hspec holder hholder
    refine ⟨hcounted, fun name hname => h.owned name ?_⟩
    simp only [Store.owned, hholders] at hname
    exact (owned_perm hholder).mem_iff.mpr (List.mem_append_right _ hname)

/-- The constructor counts the files that it finds. -/
theorem accounted_restart (s : Store M E U) (hholders : s.holders = []) {newName : String}
    (hname : isFinalizedFileName newName = true) (hunused : s.disk.lookup newName = none)
    (faults : Faults) : (s.restart newName faults).Accounted := by
  have howned : s.owned = [] := by
    rw [Store.owned, hholders]
    rfl
  have haccounted : ({ s.closeActiveFile with
      isDisabled := false
      metadataWritten := false
      lastWrittenMetadata := []
      filesTaken := ∅
      finalizedBytes := (s.closeActiveFile.listFinalizedFiles.map s.closeActiveFile.fileSize).sum } :
      Store M E U).Accounted :=
    ⟨rfl, fun name hmem => absurd (howned ▸ hmem) List.not_mem_nil⟩
  exact haccounted.finalizeActiveFile hname
    ((lookup_closeActiveFile s (ne_kActiveFileName hname)).trans hunused) faults

/-- Deleting the data, when no file with bytes in it is left. -/
theorem Store.Accounted.deleteData (h : s.Accounted) {newName : String}
    (hname : isFinalizedFileName newName = true) (hunused : s.disk.lookup newName = none)
    {faults : Faults} {undeleted : String → Bool}
    (hdeleted : ∀ name ∈ (s.finalizeActiveFile newName faults).2.listFinalizedFiles,
      (s.finalizeActiveFile newName faults).2.fileSize name ≠ 0 → undeleted name = false) :
    (s.deleteData newName faults undeleted).Accounted := by
  have hfinal := h.finalizeActiveFile hname hunused faults
  refine ⟨(Disk.totalSize_eq_zero fun name hname' => ?_).symm, hfinal.owned⟩
  simp only [Store.deleteData, ProtoMap.lookup_filterMap]
  cases hlookup : (s.finalizeActiveFile newName faults).2.disk.lookup name with
  | none => rfl
  | some bytes =>
    have hlisted : name ∈ (s.finalizeActiveFile newName faults).2.listFinalizedFiles :=
      Disk.mem_keys_filter.mpr ⟨by rw [hlookup]; rfl, hname'⟩
    by_cases hzero : bytes = []
    · rw [hzero]
      cases undeleted name <;> rfl
    · have hsize : (s.finalizeActiveFile newName faults).2.fileSize name ≠ 0 := by
        rw [Store.fileSize, hlookup]
        exact List.length_eq_zero_iff.not.mpr hzero
      rw [Option.bind_some, hdeleted name hlisted hsize]
      rfl

/-! ### Runs -/

/-- Every operation in which no deletion fails keeps the counter right and does not wrap it. -/
theorem StoreOp.Deletes.accounted {op : StoreOp M E U} (hop : op.Deletes s) (h : s.Accounted) :
    op.NoWrap s ∧ (op.apply pb encrypt limits s).Accounted := by
  cases op with
  | storeObservation observation m now random faults =>
    exact ⟨trivial, h.storeObservation observation m hop.name hop.2.2 faults⟩
  | takeNextEnvelopeHolder now random faults =>
    exact ⟨trivial, h.takeNextEnvelopeHolder hop.name hop.2.2 faults⟩
  | returnEnvelopeHolder i => exact ⟨trivial, h.returnEnvelopeHolder i⟩
  | mergeWith i j => exact ⟨trivial, h.mergeWith i j⟩
  | getEnvelope i =>
    refine ⟨trivial, h.counted, fun name hname => h.owned name ?_⟩
    rwa [StoreOp.apply, owned_getEnvelope] at hname
  | destroy i undeleted => exact h.destroyHolder hop
  | restart flushed now random faults =>
    refine ⟨trivial, accounted_restart { s with
      holders := [], activeFile := s.activeFile.map (·.take flushed) } rfl hop.name hop.2.2 faults⟩
  | deleteData now random faults undeleted =>
    exact ⟨trivial, h.deleteData hop.1.name hop.1.2.2 hop.2⟩
  | disable isDisabled => exact ⟨trivial, h.counted, h.owned⟩

/-- A step of a run: some operation that satisfies a condition. -/
def StoreStep (pb : Protobuf M E U) (encrypt : U → Option E) (limits : Limits)
    (P : Store M E U → StoreOp M E U → Prop) (s s' : Store M E U) : Prop :=
  ∃ op, P s op ∧ s' = op.apply pb encrypt limits s

/-- **The counter is right as long as deletions do not fail.** Build a store on any directory and
make any sequence of operations in which no deletion of a finalized file fails and no generated name
is in use. In every state that is reached the counter is the total size of the finalized files on
the disk, and the next operation does not make it smaller than zero. -/
theorem accounted_of_run {disk : Disk} {now random : ℕ} {faults : Faults}
    (hnew : ({ disk := disk } : Store M E U).Unused now random) {s : Store M E U}
    (hrun : Relation.ReflTransGen (StoreStep pb encrypt limits fun s op => op.Deletes s)
      (Store.new disk (generateFilename now random) faults) s) :
    s.Counted ∧ ∀ op : StoreOp M E U, op.Deletes s → op.NoWrap s := by
  have hinv : s.Accounted := by
    induction hrun with
    | refl => exact accounted_restart _ rfl hnew.name hnew.2.2 faults
    | tail _ hstep ih =>
      obtain ⟨op, hop, rfl⟩ := hstep
      exact (hop.accounted ih).2
  refine ⟨hinv.counted, fun op hop => ?_⟩
  have hstep : op.NoWrap s ∧ (op.apply pb encrypt limits s).Accounted := hop.accounted hinv
  exact hstep.1

end Law

/-! ### One observation -/

/-- A store on an empty directory, after an observation was stored and taken. -/
def takenFlag : Store Bool Bool Bool :=
  let s : Store Bool Bool Bool := .new ∅ (generateFilename 1 kMinRandomNumber) {}
  let s := (StoreOp.storeObservation (some (.encrypted true)) true 0 kMinRandomNumber {}).apply
    flagProtobuf some ⟨100, 100, 100⟩ s
  (StoreOp.takeNextEnvelopeHolder 0 kMinRandomNumber {}).apply flagProtobuf some ⟨100, 100, 100⟩ s

private theorem run_takenFlag : Relation.ReflTransGen
    (StoreStep flagProtobuf some ⟨100, 100, 100⟩ fun s op => op.Deletes s)
    (.new ∅ (generateFilename 1 kMinRandomNumber) {}) takenFlag := by
  refine (Relation.ReflTransGen.single ⟨.storeObservation (some (.encrypted true)) true 0
    kMinRandomNumber {}, ?_, rfl⟩).tail ⟨.takeNextEnvelopeHolder 0 kMinRandomNumber {}, ?_, rfl⟩
  · exact ⟨by decide, by decide, by decide +kernel⟩
  · exact ⟨by decide, by decide, by decide +kernel⟩

/-- The holder is destroyed and its file is deleted. -/
theorem accounted_of_run_destroyed :
    takenFlag.finalizedBytes = 10 ∧
      (takenFlag.destroyHolder 0 fun _ => false).finalizedBytes = 0 ∧
      (takenFlag.destroyHolder 0 fun _ => false).Counted := by
  have hrun := run_takenFlag.tail ⟨.destroy 0 fun _ => false, fun _ _ _ _ _ => rfl, rfl⟩
  exact ⟨by decide +kernel, by decide +kernel,
    (accounted_of_run ⟨by decide, by decide, by decide +kernel⟩ hrun).1⟩

/-- The data is deleted while the holder is outstanding, and the deletion of its file fails: the
counter is zero and the file is there. When the holder is destroyed, the counter wraps. -/
theorem not_accounted_undeleted :
    let s := takenFlag.deleteData (generateFilename 2 kMinRandomNumber) {} fun _ => true
    Relation.ReflTransGen (StoreStep flagProtobuf some ⟨100, 100, 100⟩ fun _ _ => True)
        (.new ∅ (generateFilename 1 kMinRandomNumber) {}) s ∧
      s.finalizedBytes = 0 ∧ s.disk.totalSize isFinalizedFileName = 10 ∧ ¬ s.Counted ∧
      (s.destroyHolder 0 fun _ => false).finalizedBytes = 2 ^ 64 - 10 ∧
      ¬ (StoreOp.destroy 0 fun _ => false).NoWrap s := by
  intro s
  have hrun : Relation.ReflTransGen
      (StoreStep flagProtobuf some ⟨100, 100, 100⟩ fun _ _ => True)
      (.new ∅ (generateFilename 1 kMinRandomNumber) {}) takenFlag :=
    Relation.ReflTransGen.mono (fun _ _ hstep => hstep.imp fun _ hop => ⟨trivial, hop.2⟩) _ _
      run_takenFlag
  have hzero : s.finalizedBytes = 0 := by decide +kernel
  have htotal : s.disk.totalSize isFinalizedFileName = 10 := by decide +kernel
  refine ⟨hrun.tail ⟨.deleteData 2 kMinRandomNumber {} fun _ => true, trivial, rfl⟩, hzero, htotal,
    fun hcounted => ?_, by decide +kernel, fun hwrap => ?_⟩
  · rw [Store.Counted, hzero, htotal] at hcounted
    exact absurd hcounted (by decide)
  · have hholder : s.holders.map FileEnvelopeHolder.fileNames =
        [[generateFilename 0 kMinRandomNumber]] := by decide +kernel
    obtain ⟨holder, hget⟩ : ∃ holder, s.holders = [holder] :=
      List.length_eq_one_iff.mp (by decide +kernel)
    rw [hget, List.map_singleton, List.singleton_inj] at hholder
    have hremoves := hwrap holder (by rw [hget]; rfl)
    rw [hholder] at hremoves
    exact absurd hremoves.1 (by decide +kernel)

end Cobalt.ObservationStore
