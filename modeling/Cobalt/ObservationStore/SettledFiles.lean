import Cobalt.ObservationStore.Capacity

/-!
# Operations on files that succeed

Where the file system does not fail and every file name that is generated is not in use, a file that
is taken and still on the disk is in some holder, and the active file is not written over another
one. No file has the name that is generated, and no file that had it was taken. The directory may
have any files when the store is built.

## Main definitions

* `StoreOp.Succeeds`: an operation in which no operation on the file system fails.
* `Store.Settled`: what these operations keep.

## Main results

* `StoreOp.Succeeds.settled`: every such operation keeps a store settled.
* `Store.Settled.of_run`: a store that is built on any directory stays settled.
-/

namespace Cobalt.ObservationStore

variable {M E U : Type}

/-- A name that is generated is neither the name of a file nor that of one that was taken. -/
def Store.Available (s : Store M E U) (now random : ℕ) : Prop :=
  s.Unused now random ∧ generateFilename now random ∉ s.filesTaken

/-- An operation in which nothing fails, and in which a generated name is not in use. -/
def StoreOp.Succeeds (s : Store M E U) : StoreOp M E U → Prop
  | .storeObservation _ _ now random faults | .takeNextEnvelopeHolder now random faults =>
    s.Available now random ∧ faults = {}
  | .restart _ now random faults => s.Unused now random ∧ faults = {}
  | .returnEnvelopeHolder _ | .mergeWith _ _ | .getEnvelope _ | .disable _ => True
  | .destroy _ undeleted => ∀ name, undeleted name = false
  | .deleteData now random faults undeleted =>
    s.Available now random ∧ faults = {} ∧ ∀ name, undeleted name = false

/-- The active file is closed and not on the disk, or open over an empty file. -/
def Store.ActiveOver (s : Store M E U) : Prop :=
  (s.activeFile = none ∧ s.disk.lookup kActiveFileName = none) ∨
    (s.activeFile.isSome ∧ s.disk.lookup kActiveFileName = some [])

/-- What operations that succeed keep: the counter is right, a file that is taken and still on
the disk is in some holder, and the active file is not written over another one. -/
structure Store.Settled (s : Store M E U) : Prop where
  accounted : s.Accounted
  finalized : ∀ name ∈ s.filesTaken, isFinalizedFileName name = true
  taken : ∀ name ∈ s.filesTaken, (s.disk.lookup name).isSome → name ∈ s.owned
  active : s.ActiveOver

variable {pb : Protobuf M E U} {encrypt : U → Option E} {limits : Limits} {s s' : Store M E U}

/-! ### The operations -/

namespace Store.Settled

/-- Frame rule. Nothing happens to the finalized files and to what is known of them. -/
theorem frame (h : s.Settled) (hsame : s.SameFiles s') (htaken : s'.filesTaken = s.filesTaken)
    (hactive : s'.ActiveOver) : s'.Settled where
  accounted := hsame.accounted h.accounted
  finalized := fun name hname => h.finalized name (htaken ▸ hname)
  taken := by
    intro name hname hsome
    rw [htaken] at hname
    rw [Store.owned, hsame.holders]
    exact h.taken name hname (hsame.disk name (h.finalized name hname) ▸ hsome)
  active := hactive

end Store.Settled

/-- Finalizing does nothing to the holders and to the set of files that are taken. -/
theorem holders_finalizeActiveFile (s : Store M E U) (newName : String) (faults : Faults) :
    (s.finalizeActiveFile newName faults).2.holders = s.holders ∧
      (s.finalizeActiveFile newName faults).2.filesTaken = s.filesTaken := by
  have hcases := finalizeActiveFile_cases s newName faults
  dsimp only at hcases
  rcases hcases with ⟨_, heq⟩ | ⟨_, heq⟩ | ⟨_, _, _, ⟨_, heq⟩ | ⟨_, _, _, heq⟩⟩ <;> rw [heq]
  · exact ⟨rfl, rfl⟩
  · rw [Store.delete]
    split_ifs <;> exact ⟨rfl, rfl⟩
  · exact ⟨rfl, rfl⟩
  · exact ⟨rfl, rfl⟩

/-- Finalizing leaves no active file. -/
theorem active_finalizeActiveFile (s : Store M E U) {newName : String}
    (hname : isFinalizedFileName newName = true) :
    (s.finalizeActiveFile newName {}).2.activeFile = none ∧
      (s.finalizeActiveFile newName {}).2.disk.lookup kActiveFileName = none := by
  have hcases := finalizeActiveFile_cases s newName {}
  dsimp only at hcases
  rcases hcases with ⟨hnone, heq⟩ | ⟨_, heq⟩ | ⟨_, _, _, ⟨hfails, _⟩ | ⟨_, disk, hrename, heq⟩⟩
  · rw [heq]
    exact ⟨rfl, hnone⟩
  · rw [heq]
    exact ⟨rfl, AList.lookup_erase _ _⟩
  · exact absurd hfails (by simp)
  · rw [heq]
    refine ⟨rfl, (Disk.lookup_rename hrename _).trans ?_⟩
    rw [if_neg (ne_kActiveFileName hname).symm, if_pos rfl]

/-- A finalized file other than the new one is on the disk after finalizing only if it was
before. -/
theorem lookup_finalizeActiveFile (s : Store M E U) {newName name : String} (faults : Faults)
    (hname : isFinalizedFileName name = true) (hne : name ≠ newName) :
    (s.finalizeActiveFile newName faults).2.disk.lookup name = s.disk.lookup name := by
  have hactive := ne_kActiveFileName hname
  have hclosed := lookup_closeActiveFile s hactive
  have hcases := finalizeActiveFile_cases s newName faults
  dsimp only at hcases
  rcases hcases with
    ⟨_, heq⟩ | ⟨_, heq⟩ | ⟨_, _, _, ⟨_, heq⟩ | ⟨_, disk, hrename, heq⟩⟩ <;> rw [heq]
  · exact hclosed
  · exact ((sameFiles_delete _ faults.deleteFails).disk name hname).trans hclosed
  · exact hclosed
  · refine (Disk.lookup_rename hrename name).trans ?_
    rw [if_neg hne, if_neg hactive, hclosed]

/-- Writing to the active file does not change anything else. -/
structure Store.Writes (s s' : Store M E U) : Prop where
  sameFiles : s.SameFiles s'
  filesTaken : s'.filesTaken = s.filesTaken
  active : s.ActiveOver → s'.ActiveOver

namespace Store.Writes

theorem refl (s : Store M E U) : s.Writes s := ⟨.refl s, rfl, id⟩

theorem trans {s'' : Store M E U} (h : s.Writes s') (h' : s'.Writes s'') : s.Writes s'' :=
  ⟨h.sameFiles.trans h'.sameFiles, h'.filesTaken.trans h.filesTaken, h'.active ∘ h.active⟩

theorem settled (h : s.Writes s') (hs : s.Settled) : s'.Settled :=
  hs.frame h.sameFiles h.filesTaken (h.active hs.active)

theorem available (h : s.Writes s') {now random : ℕ} (hname : s.Available now random) :
    s'.Available now random := by
  obtain ⟨hunused, htaken⟩ := hname
  refine ⟨⟨hunused.1, hunused.2.1, ?_⟩, h.filesTaken ▸ htaken⟩
  rw [h.sameFiles.disk _ hunused.name]
  exact hunused.2.2

theorem getActiveFile (h : s.getActiveFile {} = some s') : s.Writes s' := by
  refine ⟨sameFiles_getActiveFile h, ?_, fun hactive => ?_⟩
  · rw [Store.getActiveFile] at h
    split at h
    · rw [Option.some.inj h]
    · rw [← Option.some.inj h]
  · rcases hactive with ⟨hnone, hdisk⟩ | hopen
    · rw [Store.getActiveFile, hnone] at h
      rw [← Option.some.inj h]
      refine Or.inr ⟨rfl, ?_⟩
      dsimp only
      rw [AList.lookup_insert, hdisk]
      rfl
    · obtain ⟨bytes, hbytes⟩ := Option.isSome_iff_exists.mp hopen.1
      rw [Store.getActiveFile, hbytes] at h
      rw [← Option.some.inj h]
      exact Or.inr hopen

theorem writeRecord (s : Store M E U) (c : Contents M E U) (left : Option Bytes) :
    s.Writes (s.writeRecord pb c left).2 := by
  refine ⟨sameFiles_writeRecord s c left, by cases left <;> rfl, fun hactive => ?_⟩
  have happend (bytes : Bytes) : (s.append bytes).ActiveOver := by
    rcases hactive with ⟨hnone, hdisk⟩ | ⟨hsome, hdisk⟩
    · exact Or.inl ⟨by rw [Store.append, hnone]; rfl, hdisk⟩
    · exact Or.inr ⟨by rwa [Store.append, Option.isSome_map], hdisk⟩
  cases left with
  | none => exact happend _
  | some bytes => exact happend bytes

theorem writeMetadata (s : Store M E U) (m : M) (faults : Faults) :
    s.Writes (s.writeMetadata pb m faults).2 := by
  have hrecord : s.Writes (s.writeRecord pb (.metaData m) faults.metadataLeft).2 :=
    writeRecord s (.metaData m) faults.metadataLeft
  rw [Store.writeMetadata]
  split_ifs
  · generalize s.writeRecord pb (.metaData m) faults.metadataLeft = r at hrecord ⊢
    obtain ⟨written, s'⟩ := r
    cases written with
    | true =>
      have hsame := hrecord.sameFiles
      exact ⟨⟨hsame.disk, hsame.finalizedBytes, hsame.holders⟩, hrecord.filesTaken, hrecord.active⟩
    | false => exact hrecord
  · exact .refl s

end Store.Writes

namespace Store.Settled

theorem finalizeActiveFile (h : s.Settled) {now random : ℕ} (hname : s.Available now random) :
    (s.finalizeActiveFile (generateFilename now random) {}).2.Settled := by
  obtain ⟨hunused, hfresh⟩ := hname
  obtain ⟨hholders, htaken⟩ := holders_finalizeActiveFile s (generateFilename now random) {}
  refine ⟨h.accounted.finalizeActiveFile hunused.name hunused.2.2 {}, ?_, ?_,
    Or.inl (active_finalizeActiveFile s hunused.name)⟩
  · rw [htaken]
    exact h.finalized
  · intro name hmem hsome
    rw [htaken] at hmem
    have hne : name ≠ generateFilename now random := fun heq => hfresh (heq ▸ hmem)
    rw [Store.owned, hholders]
    rw [lookup_finalizeActiveFile s {} (h.finalized name hmem) hne] at hsome
    exact h.taken name hmem hsome

theorem take (h : s.Settled) {name : String} (hname : s.getOldestFinalizedFile = some name) :
    (s.take name).Settled := by
  refine ⟨h.accounted.take hname, fun name' hmem => ?_, fun name' hmem hsome => ?_, h.active⟩
  · rcases Finset.mem_insert.mp hmem with rfl | hmem
    · exact (getOldestFinalizedFile_spec hname).2.1
    · exact h.finalized name' hmem
  · rw [owned_take, List.mem_append, List.mem_singleton]
    rcases Finset.mem_insert.mp hmem with rfl | hmem
    · exact Or.inr rfl
    · exact Or.inl (h.taken name' hmem hsome)

theorem takeNextEnvelopeHolder (h : s.Settled) {now random : ℕ} (hname : s.Available now random) :
    (s.takeNextEnvelopeHolder (generateFilename now random) {}).Settled := by
  have hfinal := h.finalizeActiveFile hname
  rw [Store.takeNextEnvelopeHolder]
  split
  · next name hoption => exact h.take hoption
  · split_ifs
    · exact h
    · generalize s.finalizeActiveFile (generateFilename now random) {} = r at hfinal ⊢
      obtain ⟨renamed, s'⟩ := r
      cases renamed with
      | false => exact hfinal
      | true =>
        dsimp only
        split
        · exact hfinal
        · next name hoption => exact hfinal.take hoption

theorem returnEnvelopeHolder (h : s.Settled) (i : ℕ) : (s.returnEnvelopeHolder i).Settled := by
  have haccounted := h.accounted.returnEnvelopeHolder i
  rw [Store.returnEnvelopeHolder] at haccounted ⊢
  cases hholder : s.holders[i]? with
  | none => exact h
  | some holder =>
    rw [hholder] at haccounted
    refine ⟨haccounted, fun name hmem => h.finalized name (Finset.mem_sdiff.mp hmem).1,
      fun name hmem hsome => ?_, h.active⟩
    obtain ⟨htaken, hnot⟩ := Finset.mem_sdiff.mp hmem
    have howned := (owned_perm hholder).mem_iff.mp (h.taken name htaken hsome)
    exact (List.mem_append.mp howned).resolve_left fun hmem' => hnot (List.mem_toFinset.mpr hmem')

theorem mergeWith (h : s.Settled) (i j : ℕ) : (s.mergeWith i j).Settled := by
  have hsame : (s.mergeWith i j).disk = s.disk ∧ (s.mergeWith i j).activeFile = s.activeFile ∧
      (s.mergeWith i j).filesTaken = s.filesTaken := by
    rw [Store.mergeWith]
    split
    · split_ifs <;> exact ⟨rfl, rfl, rfl⟩
    · exact ⟨rfl, rfl, rfl⟩
  obtain ⟨hdisk, hactive, htaken⟩ := hsame
  refine ⟨h.accounted.mergeWith i j, htaken ▸ h.finalized, fun name hmem hsome => ?_, ?_⟩
  · rw [htaken] at hmem
    rw [hdisk] at hsome
    exact mem_owned_mergeWith.mpr (h.taken name hmem hsome)
  · rw [Store.ActiveOver, hactive, hdisk]
    exact h.active

theorem getEnvelope (h : s.Settled) (i : ℕ) : (s.getEnvelope pb encrypt i).Settled := by
  refine ⟨⟨h.accounted.counted, ?_⟩, h.finalized, ?_, h.active⟩
  · rw [owned_getEnvelope]
    exact h.accounted.owned
  · rw [owned_getEnvelope]
    exact h.taken

/-- The last part of `StoreObservation`. -/
theorem finalizeIfFull (h : s.Settled) (p : M × Observation E U) {now random : ℕ}
    (hname : s.Available now random) :
    (s.finalizeIfFull limits p (generateFilename now random) {}).2.Settled := by
  have hfinal := h.finalizeActiveFile hname
  rw [Store.finalizeIfFull]
  split_ifs
  · generalize s.finalizeActiveFile (generateFilename now random) {} = r at hfinal ⊢
    obtain ⟨renamed, s'⟩ := r
    cases renamed with
    | false => exact hfinal
    | true => exact hfinal.frame ⟨fun _ _ => rfl, rfl, rfl⟩ rfl hfinal.active
  · exact h.frame ⟨fun _ _ => rfl, rfl, rfl⟩ rfl h.active

/-- Storing an observation. -/
theorem storeObservation (h : s.Settled) (observation : Option (Observation E U)) (m : M)
    {now random : ℕ} (hname : s.Available now random) :
    (s.storeObservation pb limits observation m (generateFilename now random) {}).2.Settled := by
  by_cases hdisabled : s.isDisabled = true
  · rw [Store.storeObservation, if_pos hdisabled]
    exact h
  rw [Store.storeObservation, if_neg hdisabled]
  cases hactive : s.getActiveFile {} with
  | none => exact h
  | some s₁ =>
    have hwrites₁ := Store.Writes.getActiveFile hactive
    dsimp only
    split_ifs
    · exact hwrites₁.settled h
    · exact hwrites₁.settled h
    · have hwrites₂ : s.Writes (s₁.writeMetadata pb m {}).2 :=
        hwrites₁.trans (.writeMetadata s₁ m {})
      generalize s₁.writeMetadata pb m {} = r₂ at hwrites₂ ⊢
      obtain ⟨written, s₂⟩ := r₂
      cases written with
      | false => exact hwrites₂.settled h
      | true =>
        cases observation with
        | none => exact hwrites₂.settled h
        | some o =>
          have hwrites₃ : s.Writes (s₂.writeRecord pb o.contents none).2 :=
            hwrites₂.trans (.writeRecord s₂ o.contents none)
          dsimp only
          generalize s₂.writeRecord pb o.contents none = r₃ at hwrites₃ ⊢
          obtain ⟨written, s₃⟩ := r₃
          cases written with
          | false => exact hwrites₃.settled h
          | true => exact (hwrites₃.settled h).finalizeIfFull (m, o) (hwrites₃.available hname)

end Store.Settled

/-- Deleting files: they are gone, and nothing else has changed but the counter. -/
theorem foldl_removeFile_eq {undeleted : String → Bool} (hdeleted : ∀ name, undeleted name = false)
    (names : List String) (s : Store M E U) :
    ∃ (disk : Disk) (finalizedBytes : ℕ), names.foldl (Store.removeFile undeleted) s =
        { s with disk, finalizedBytes } ∧
      ∀ name, disk.lookup name = if name ∈ names then none else s.disk.lookup name := by
  induction names generalizing s with
  | nil => exact ⟨s.disk, s.finalizedBytes, rfl, by simp⟩
  | cons name names ih =>
    obtain ⟨disk, finalizedBytes, heq, hlookup⟩ := ih (s.removeFile undeleted name)
    have hremove : s.removeFile undeleted name = { s with
        disk := s.disk.erase name
        finalizedBytes := subSize s.finalizedBytes (s.fileSize name) } := by
      rw [Store.removeFile, Store.delete, hdeleted]
      rfl
    refine ⟨disk, finalizedBytes, ?_, fun name' => ?_⟩
    · rw [List.foldl_cons, heq, hremove]
    · rw [hlookup, hremove]
      dsimp only
      rw [Disk.lookup_erase]
      simp only [List.mem_cons]
      grind

/-- Destroying a holder: its files are gone. -/
theorem destroyHolder_eq {undeleted : String → Bool} (hdeleted : ∀ name, undeleted name = false)
    {i : ℕ} {holder : FileEnvelopeHolder M E} (hholder : s.holders[i]? = some holder) :
    (s.destroyHolder i undeleted).holders = s.holders.eraseIdx i ∧
      (s.destroyHolder i undeleted).filesTaken = s.filesTaken ∧
      (s.destroyHolder i undeleted).activeFile = s.activeFile ∧
      ∀ name, (s.destroyHolder i undeleted).disk.lookup name =
        if name ∈ holder.fileNames then none else s.disk.lookup name := by
  obtain ⟨disk, finalizedBytes, heq, hlookup⟩ :=
    foldl_removeFile_eq hdeleted holder.fileNames s
  rw [Store.destroyHolder, hholder]
  dsimp only
  rw [heq]
  exact ⟨rfl, rfl, rfl, hlookup⟩

namespace Store.Settled

theorem destroyHolder (h : s.Settled) (i : ℕ) {undeleted : String → Bool}
    (hdeleted : ∀ name, undeleted name = false) : (s.destroyHolder i undeleted).Settled := by
  have haccounted : (s.destroyHolder i undeleted).Accounted :=
    (h.accounted.destroyHolder fun _ _ name _ _ => hdeleted name).2
  cases hholder : s.holders[i]? with
  | none =>
    rw [Store.destroyHolder, hholder]
    exact h
  | some holder =>
    obtain ⟨hholders, htaken, hactive, hlookup⟩ := destroyHolder_eq hdeleted hholder
    have hperm := owned_perm hholder
    refine ⟨haccounted, htaken ▸ h.finalized, fun name hmem hsome => ?_, ?_⟩
    · rw [htaken] at hmem
      rw [hlookup] at hsome
      split_ifs at hsome with hnot
      · exact absurd hsome (by simp)
      · rw [Store.owned, hholders]
        exact (List.mem_append.mp (hperm.mem_iff.mp (h.taken name hmem hsome))).resolve_left hnot
    · have hnot : kActiveFileName ∉ holder.fileNames := fun hmem =>
        ne_kActiveFileName (h.accounted.owned kActiveFileName
          (hperm.mem_iff.mpr (List.mem_append_left _ hmem))) rfl
      rw [Store.ActiveOver, hactive, hlookup, if_neg hnot]
      exact h.active

/-- The constructor, on a directory with any files. -/
theorem restart (s : Store M E U) (hholders : s.holders = []) {now random : ℕ}
    (hname : s.Unused now random) : (s.restart (generateFilename now random) {}).Settled := by
  obtain ⟨hsame, htaken⟩ := holders_finalizeActiveFile { s.closeActiveFile with
    isDisabled := false
    metadataWritten := false
    lastWrittenMetadata := []
    filesTaken := ∅
    finalizedBytes := (s.closeActiveFile.listFinalizedFiles.map s.closeActiveFile.fileSize).sum }
    (generateFilename now random) {}
  refine ⟨accounted_restart s hholders hname.name hname.2.2 {}, fun name hmem => ?_,
    fun name hmem => ?_, Or.inl (active_finalizeActiveFile _ hname.name)⟩
  · rw [Store.restart, htaken] at hmem
    exact absurd hmem (Finset.notMem_empty name)
  · rw [Store.restart, htaken] at hmem
    exact absurd hmem (Finset.notMem_empty name)

theorem deleteData (h : s.Settled) {now random : ℕ} (hname : s.Available now random)
    {undeleted : String → Bool} (hdeleted : ∀ name, undeleted name = false) :
    (s.deleteData (generateFilename now random) {} undeleted).Settled := by
  refine ⟨h.accounted.deleteData hname.1.name hname.1.2.2 fun name _ _ => hdeleted name,
    fun name hmem => absurd hmem (Finset.notMem_empty name),
    fun name hmem => absurd hmem (Finset.notMem_empty name), Or.inl ⟨rfl, ?_⟩⟩
  rw [Store.deleteData]
  dsimp only
  rw [ProtoMap.lookup_filterMap, (active_finalizeActiveFile s hname.1.name).2]
  rfl

end Store.Settled

/-- **Every operation that succeeds** keeps a store settled. -/
theorem StoreOp.Succeeds.settled {op : StoreOp M E U} (hop : op.Succeeds s) (h : s.Settled) :
    (op.apply pb encrypt limits s).Settled := by
  cases op with
  | storeObservation observation m now random faults =>
    obtain ⟨hname, rfl⟩ := hop
    exact h.storeObservation observation m hname
  | takeNextEnvelopeHolder now random faults =>
    obtain ⟨hname, rfl⟩ := hop
    exact h.takeNextEnvelopeHolder hname
  | returnEnvelopeHolder i => exact h.returnEnvelopeHolder i
  | mergeWith i j => exact h.mergeWith i j
  | getEnvelope i => exact h.getEnvelope i
  | destroy i undeleted => exact h.destroyHolder i hop
  | restart flushed now random faults =>
    obtain ⟨hname, rfl⟩ := hop
    exact Store.Settled.restart { s with
      holders := [], activeFile := s.activeFile.map (·.take flushed) } rfl hname
  | deleteData now random faults undeleted =>
    obtain ⟨hname, rfl, hdeleted⟩ := hop
    exact h.deleteData hname hdeleted
  | disable isDisabled => exact h.frame ⟨fun _ _ => rfl, rfl, rfl⟩ rfl h.active

/-- A store that is built on any directory stays settled. -/
theorem Store.Settled.of_run {disk : Disk} {now random : ℕ}
    (hnew : ({ disk := disk } : Store M E U).Unused now random)
    (hrun : Relation.ReflTransGen (StoreStep pb encrypt limits fun s op => op.Succeeds s)
      (Store.new disk (generateFilename now random) {}) s) : s.Settled := by
  induction hrun with
  | refl => exact Store.Settled.restart _ rfl hnew
  | tail _ hstep ih =>
    obtain ⟨op, hop, rfl⟩ := hstep
    exact hop.settled ih

end Cobalt.ObservationStore
