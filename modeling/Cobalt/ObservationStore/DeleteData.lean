import Cobalt.ObservationStore.FileConservation
import Cobalt.ObservationStore.MemoryObservationStore

/-!
# Deleting the observations of a store

`DeleteData` removes the observations that are in a store. Those in an outstanding holder of a
`MemoryObservationStore` are not in the store, and come back when the holder is returned. The
holders of a `FileObservationStore` have names of files only, and the files are deleted.

## Main definitions

* `Store.deleteData`: `DeleteData` of a `FileObservationStore`.
* `MemoryStore.IsEmpty`, `Store.IsEmpty`: `Size` is zero and there is no next holder.
* `Op.Ships`, `MemoryOp.Ships`: what a `ShippingManager` does while its uploads fail.

## Main results

* `deleted_iff`: when the data that was deleted does not come back.
-/

namespace Cobalt.ObservationStore

section Operations

variable {M E U : Type} (pb : Protobuf M E U) (encrypt : U → Option E) (limits : Limits)

/-- `DeleteData`. The files that are `undeleted` stay, because they are not listed or because their
deletion fails. -/
def Store.deleteData (s : Store M E U) (newName : String) (faults : Faults)
    (undeleted : String → Bool) : Store M E U :=
  let s := (s.finalizeActiveFile newName faults).2
  { s with
    metadataWritten := false
    lastWrittenMetadata := []
    activeFile := none
    filesTaken := ∅
    finalizedBytes := 0
    disk := s.disk.filterMap fun name bytes => if undeleted name then some bytes else none
    placed := s.placed.filter fun p => undeleted p.1
    destroyed := s.destroyed ++ (s.placed.filter fun p => !undeleted p.1).map Prod.snd }

/-- An operation of the `ShippingManager` while its uploads fail. -/
def Op.Ships : Op M E U → Prop
  | .takeNextEnvelopeHolder _ _ _ | .returnEnvelopeHolder _ | .mergeWith _ _ | .getEnvelope _ => True
  | _ => False

/-- The state after some operations. -/
def Store.run (s : Store M E U) (ops : List (Op M E U)) : Store M E U :=
  ops.foldl (fun s op => op.apply pb encrypt limits s) s

/-- `Size` returns zero and `TakeNextEnvelopeHolder` returns `nullptr`. -/
def MemoryStore.IsEmpty (s : MemoryStore M E U) : Prop :=
  s.size = 0 ∧ (s.takeNextEnvelopeHolder limits).1 = none

/-- `Size` returns zero and `TakeNextEnvelopeHolder` hands out no holder. -/
def Store.IsEmpty (s : Store M E U) : Prop :=
  s.size = 0 ∧ ∀ newName faults, (s.takeNextEnvelopeHolder newName faults).holders = s.holders

end Operations

variable {M E U : Type} {pb : Protobuf M E U} {encrypt : U → Option E} {limits : Limits}

/-! ### The memory observation store -/

theorem MemoryStore.Inv.isEmpty_iff {s : MemoryStore M E U} (h : s.Inv) :
    s.IsEmpty limits ↔ s.size = 0 := by
  refine ⟨And.left, fun hsize => ⟨hsize, ?_⟩⟩
  cases htake : (s.takeNextEnvelopeHolder limits).1 with
  | none => rfl
  | some holder =>
    have hpos : (s.takeNextEnvelopeHolder limits).1.isSome → 0 < s.size :=
      h.takeNextEnvelopeHolder.2.2
    rw [htake, hsize] at hpos
    exact absurd (hpos rfl) (Nat.lt_irrefl 0)

theorem totalBytes_eq_zero_iff {holders : List (EnvelopeMaker M E U)}
    (h : ∀ holder ∈ holders, 0 < holder.numBytes) : totalBytes holders = 0 ↔ holders = [] := by
  cases holders with
  | nil => simp
  | cons holder holders =>
    have hpos := h holder List.mem_cons_self
    simp only [totalBytes_cons, reduceCtorEq, iff_false]
    omega

/-- Once all holders are back, the store has the bytes of the holders that were outstanding when the
data was deleted. -/
theorem MemoryStore.Inv.size_of_returned {s : MemoryStore M E U} (h : s.Inv)
    {after : List (MemoryOp M E U)} (hafter : ∀ op ∈ after, op.Ships)
    (hreturned : (s.deleteData.run pb limits after).holders = []) :
    (s.deleteData.run pb limits after).size = totalBytes s.holders := by
  have hbytes : (s.deleteData.run pb limits after).bytes = s.deleteData.bytes :=
    MemoryStore.bytes_run_ships h.deleteData hafter
  have hdeleted : s.deleteData.bytes = totalBytes s.holders := Nat.zero_add _
  rw [← hdeleted, ← hbytes, MemoryStore.bytes, hreturned, totalBytes_nil, Nat.add_zero]

/-! ### The file observation store -/

theorem mem_mergeNames {names names' : List String} {name : String} :
    name ∈ Store.mergeNames names names' ↔ name ∈ names ∨ name ∈ names' := by
  induction names' generalizing names with
  | nil => simp [Store.mergeNames]
  | cons name' names' ih =>
    rw [Store.mergeNames, List.foldl_cons, ← Store.mergeNames, ih, List.mem_cons]
    split_ifs with hmem
    · constructor
      · exact fun h => h.imp_right Or.inr
      · rintro (h | rfl | h)
        exacts [Or.inl h, Or.inl hmem, Or.inr h]
    · rw [List.mem_orderedInsert]
      tauto

/-- Merging two holders keeps what is owned. -/
theorem mem_owned_mergeWith {s : Store M E U} {i j : ℕ} {name : String} :
    name ∈ (s.mergeWith i j).owned ↔ name ∈ s.owned := by
  rw [Store.mergeWith]
  split
  · next holder container hholder hcontainer =>
    split_ifs with hij
    · rfl
    · set merged : FileEnvelopeHolder M E :=
        { fileNames := Store.mergeNames holder.fileNames container.fileNames } with hmerged
      have hset : (s.holders.set i merged)[j]? = some container := by
        rw [List.getElem?_set_ne hij, hcontainer]
      have hset' : (s.holders.set i merged)[i]? = some merged := by
        rw [List.getElem?_set_self (List.getElem?_eq_some_iff.mp hholder).1]
      have hresult : name ∈ container.fileNames →
          name ∈ ((s.holders.set i merged).eraseIdx j).flatMap FileEnvelopeHolder.fileNames := by
        intro hname
        refine List.mem_flatMap.mpr ⟨merged, List.mem_eraseIdx_iff_getElem?.mpr ⟨i, hij, hset'⟩, ?_⟩
        exact mem_mergeNames.mpr (Or.inr hname)
      have hothers : name ∈ container.fileNames →
          name ∈ (s.holders.eraseIdx i).flatMap FileEnvelopeHolder.fileNames := fun hname =>
        List.mem_flatMap.mpr
          ⟨container, List.mem_eraseIdx_iff_getElem?.mpr ⟨j, Ne.symm hij, hcontainer⟩, hname⟩
      have herase : (s.holders.set i merged).eraseIdx i = s.holders.eraseIdx i :=
        List.eraseIdx_set_eq
      calc name ∈ ((s.holders.set i merged).eraseIdx j).flatMap FileEnvelopeHolder.fileNames
        _ ↔ name ∈ (s.holders.set i merged).flatMap FileEnvelopeHolder.fileNames := by
          rw [(owned_perm hset).mem_iff, List.mem_append, or_iff_right_of_imp hresult]
        _ ↔ name ∈ holder.fileNames ∨
            name ∈ (s.holders.eraseIdx i).flatMap FileEnvelopeHolder.fileNames := by
          rw [(owned_perm hset').mem_iff, List.mem_append, herase, hmerged, mem_mergeNames, or_assoc,
            or_iff_right_of_imp hothers]
        _ ↔ name ∈ s.owned := by
          rw [Store.owned, (owned_perm hholder).mem_iff, List.mem_append]
  · rfl

theorem owned_getEnvelope (s : Store M E U) (i : ℕ) :
    (s.getEnvelope pb encrypt i).owned = s.owned := by
  rw [Store.owned, Store.owned, List.flatMap_def, List.flatMap_def]
  refine congrArg List.flatten (List.ext_getElem? fun j => ?_)
  rw [Store.getEnvelope, List.getElem?_map, List.getElem?_map, List.getElem?_modify]
  cases s.holders[j]? with
  | none => rfl
  | some holder => split_ifs <;> rfl

/-- The loop over the files finds one, unless all names are empty. -/
theorem oldest_ne {files : List String} {name : String} (hname : name ∈ files)
    (hfiles : ∀ name ∈ files, name ≠ "") : Store.oldest files ≠ "" := by
  have hfold : ∀ (files : List String) (found : String), found ≠ "" →
      (∀ name ∈ files, name ≠ "") → files.foldl (fun found file =>
        if found = "" then file else if file < found then file else found) found ≠ "" := by
    intro files
    induction files with
    | nil => exact fun found hfound _ => hfound
    | cons file files ih =>
      intro found hfound hfiles
      refine ih _ ?_ fun name hname => hfiles name (List.mem_cons_of_mem file hname)
      dsimp only
      rw [if_neg hfound]
      split_ifs
      · exact hfiles file List.mem_cons_self
      · exact hfound
  cases files with
  | nil => exact absurd hname List.not_mem_nil
  | cons file files =>
    exact hfold files file (hfiles file List.mem_cons_self) fun name hname =>
      hfiles name (List.mem_cons_of_mem file hname)

/-- A finalized file that is not taken can be taken, or an older one. -/
theorem getOldestFinalizedFile_isSome {s : Store M E U} {name : String}
    (hsome : (s.disk.lookup name).isSome) (hfinalized : isFinalizedFileName name = true)
    (htaken : name ∉ s.filesTaken) : s.getOldestFinalizedFile.isSome := by
  have hmem : name ∈ s.listFinalizedFiles.filter (· ∉ s.filesTaken) :=
    List.mem_filter.mpr ⟨Disk.mem_keys_filter.mpr ⟨hsome, hfinalized⟩, decide_eq_true htaken⟩
  have hne := oldest_ne hmem fun name' hname' => by
    rintro rfl
    have hempty := (Disk.mem_keys_filter.mp (List.mem_filter.mp hname').1).2
    exact absurd hempty (by decide)
  rw [Store.getOldestFinalizedFile]
  simp only [hne, ↓reduceIte, Option.isSome_some]

/-- A store after its data was deleted, as long as nothing is stored: the disk stays as the
deletion has left it, and every file that is taken is in some holder. -/
structure Store.Deleted (disk : Disk) (s : Store M E U) : Prop where
  disk : s.disk = disk
  activeFile : s.activeFile = none
  finalizedBytes : s.finalizedBytes = 0
  filesTaken : ∀ name ∈ s.filesTaken, name ∈ s.owned

namespace Store.Deleted

variable {disk : Disk} {s : Store M E U}

theorem of_deleteData (s : Store M E U) (newName : String) (faults : Faults)
    (undeleted : String → Bool) :
    (s.deleteData newName faults undeleted).Deleted (s.deleteData newName faults undeleted).disk :=
  ⟨rfl, rfl, rfl, fun name hname => absurd hname (Finset.notMem_empty name)⟩

theorem byteCount (h : s.Deleted disk) : s.byteCount = 0 := by
  rw [Store.byteCount, h.activeFile]
  rfl

/-- Without an active file there is nothing to finalize. -/
theorem takeNextEnvelopeHolder_eq (h : s.Deleted disk) (newName : String) (faults : Faults) :
    s.takeNextEnvelopeHolder newName faults =
      match s.getOldestFinalizedFile with
      | some name => s.take name
      | none => s := by
  rw [Store.takeNextEnvelopeHolder, h.byteCount]
  cases s.getOldestFinalizedFile <;> rfl

theorem take (h : s.Deleted disk) (name : String) : (s.take name).Deleted disk := by
  refine ⟨h.disk, h.activeFile, h.finalizedBytes, fun name' hname' => ?_⟩
  rw [owned_take, List.mem_append, List.mem_singleton]
  rcases Finset.mem_insert.mp hname' with rfl | hname'
  · exact Or.inr rfl
  · exact Or.inl (h.filesTaken name' hname')

theorem returnEnvelopeHolder (h : s.Deleted disk) (i : ℕ) :
    (s.returnEnvelopeHolder i).Deleted disk := by
  rw [Store.returnEnvelopeHolder]
  split
  · exact h
  · next holder hholder =>
    refine ⟨h.disk, h.activeFile, h.finalizedBytes, fun name hname => ?_⟩
    obtain ⟨htaken, hnot⟩ := Finset.mem_sdiff.mp hname
    have howned := (owned_perm hholder).mem_iff.mp (h.filesTaken name htaken)
    exact (List.mem_append.mp howned).resolve_left fun hmem => hnot (List.mem_toFinset.mpr hmem)

theorem mergeWith (h : s.Deleted disk) (i j : ℕ) : (s.mergeWith i j).Deleted disk := by
  have hsame : (s.mergeWith i j).disk = s.disk ∧ (s.mergeWith i j).activeFile = s.activeFile ∧
      (s.mergeWith i j).finalizedBytes = s.finalizedBytes ∧
      (s.mergeWith i j).filesTaken = s.filesTaken := by
    rw [Store.mergeWith]
    split
    · split_ifs <;> exact ⟨rfl, rfl, rfl, rfl⟩
    · exact ⟨rfl, rfl, rfl, rfl⟩
  obtain ⟨hdisk, hactive, hbytes, htaken⟩ := hsame
  refine ⟨hdisk.trans h.disk, hactive.trans h.activeFile, hbytes.trans h.finalizedBytes, ?_⟩
  intro name hname
  rw [htaken] at hname
  exact mem_owned_mergeWith.mpr (h.filesTaken name hname)

/-- The operations of a `ShippingManager` whose uploads fail. -/
theorem ships (h : s.Deleted disk) {op : Op M E U} (hop : op.Ships) :
    (op.apply pb encrypt limits s).Deleted disk := by
  cases op with
  | takeNextEnvelopeHolder now random faults =>
    rw [Op.apply, h.takeNextEnvelopeHolder_eq]
    split
    · exact h.take _
    · exact h
  | returnEnvelopeHolder i => exact h.returnEnvelopeHolder i
  | mergeWith i j => exact h.mergeWith i j
  | getEnvelope i =>
    refine ⟨h.disk, h.activeFile, h.finalizedBytes, fun name hname => ?_⟩
    rw [Op.apply, owned_getEnvelope]
    exact h.filesTaken name hname
  | storeObservation => exact absurd hop id
  | destroy => exact absurd hop id
  | restart => exact absurd hop id

theorem run (h : s.Deleted disk) {ops : List (Op M E U)} (hops : ∀ op ∈ ops, op.Ships) :
    (s.run pb encrypt limits ops).Deleted disk := by
  induction ops generalizing s with
  | nil => exact h
  | cons op ops ih =>
    exact ih (h.ships (hops op List.mem_cons_self)) fun op' hop' =>
      hops op' (List.mem_cons_of_mem op hop')

/-- Once all holders are back, the store is empty if and only if no finalized file is left. -/
theorem isEmpty_iff (h : s.Deleted disk) (hreturned : s.holders = []) :
    s.IsEmpty ↔ ∀ name, (disk.lookup name).isSome → isFinalizedFileName name = false := by
  have hsize : s.size = 0 := by rw [Store.size, h.finalizedBytes, h.byteCount]
  have htaken : ∀ name, name ∉ s.filesTaken := by
    intro name hname
    have howned := h.filesTaken name hname
    rw [Store.owned, hreturned] at howned
    exact absurd howned List.not_mem_nil
  constructor
  · rintro ⟨_, htake⟩ name hsome
    by_contra hfinalized
    have hfinalized : isFinalizedFileName name = true := by simpa using hfinalized
    rw [← h.disk] at hsome
    obtain ⟨found, hfound⟩ := Option.isSome_iff_exists.mp
      (getOldestFinalizedFile_isSome hsome hfinalized (htaken name))
    have hholders := htake "" {}
    rw [h.takeNextEnvelopeHolder_eq, hfound] at hholders
    exact absurd hholders (by simp [Store.take])
  · intro hnone
    refine ⟨hsize, fun newName faults => ?_⟩
    rw [h.takeNextEnvelopeHolder_eq]
    cases hoption : s.getOldestFinalizedFile with
    | none => rfl
    | some found =>
      obtain ⟨hsome, hfinalized, _⟩ := getOldestFinalizedFile_spec hoption
      rw [h.disk] at hsome
      exact absurd hfinalized (by simp [hnone found hsome])

end Store.Deleted

/-! ### Both stores -/

/-- **Deleted observations and returned holders.** Delete the data of a store, and then let a
`ShippingManager` take, merge and return holders, those from before the deletion included, until all of
them are back.

A `MemoryObservationStore` ends empty if and only if no holder was outstanding when its data was deleted.
A `FileObservationStore` ends empty if and only if no finalized file was left undeleted. -/
theorem deleted_iff :
    (∀ (before after : List (MemoryOp M E U)), (∀ op ∈ after, op.Ships) →
      let s := ({} : MemoryStore M E U).run pb limits before
      (s.deleteData.run pb limits after).holders = [] →
      ((s.deleteData.run pb limits after).IsEmpty limits ↔ s.holders = [])) ∧
    (∀ (s : Store M E U) (newName : String) (faults : Faults) (undeleted : String → Bool)
      (after : List (Op M E U)), (∀ op ∈ after, op.Ships) →
      ((s.deleteData newName faults undeleted).run pb encrypt limits after).holders = [] →
      (((s.deleteData newName faults undeleted).run pb encrypt limits after).IsEmpty ↔
        ∀ name ∈ (s.finalizeActiveFile newName faults).2.listFinalizedFiles,
          undeleted name = false)) := by
  constructor
  · intro before after hafter s hreturned
    have hinv : s.Inv := MemoryStore.Inv.init.run before
    rw [(hinv.deleteData.run after).isEmpty_iff, hinv.size_of_returned hafter hreturned,
      totalBytes_eq_zero_iff hinv.holders]
  · intro s newName faults undeleted after hafter hreturned
    rw [((Store.Deleted.of_deleteData s newName faults undeleted).run hafter).isEmpty_iff hreturned]
    simp only [Store.deleteData, ProtoMap.lookup_filterMap, Store.listFinalizedFiles,
      Disk.mem_keys_filter]
    refine forall_congr' fun name => ?_
    cases (s.finalizeActiveFile newName faults).2.disk.lookup name with
    | none => simp
    | some bytes => cases undeleted name <;> cases isFinalizedFileName name <;> simp

/-- An encrypted observation that is stored in memory. -/
def rememberFlag : MemoryOp Bool Bool Bool := .storeObservation (some (.encrypted true)) true

/-- Without an outstanding holder, a memory store is empty after the deletion. A file store is empty
although the holder of a deleted file is returned. -/
theorem deleted_iff_returned :
    (({} : MemoryStore Bool Bool Bool).run flagProtobuf ⟨100, 100, 100⟩
        [rememberFlag, .takeNextEnvelopeHolder, .returnEnvelopeHolder 0, .deleteData]).IsEmpty
      ⟨100, 100, 100⟩ ∧
    (((({} : Store Bool Bool Bool).run flagProtobuf some ⟨100, 100, 100⟩
          [storeFlag (.encrypted true), takeFlags]).deleteData "" {} fun _ => false).run flagProtobuf
        some ⟨100, 100, 100⟩ [.returnEnvelopeHolder 0]).IsEmpty := by
  have hdeleted := @deleted_iff Bool Bool Bool flagProtobuf some ⟨100, 100, 100⟩
  constructor
  · exact (hdeleted.1 [rememberFlag, .takeNextEnvelopeHolder, .returnEnvelopeHolder 0] [] (by simp)
      (by decide +kernel)).mpr (by decide +kernel)
  · exact (hdeleted.2 _ "" {} (fun _ => false) [.returnEnvelopeHolder 0]
      (by simp [Op.Ships]) (by decide +kernel)).mpr fun _ _ => rfl

/-- An observation is taken from a memory store, the data of the store is deleted, and the holder is
returned because the upload fails. The observation is in the store again and can be taken. -/
theorem not_isEmpty_returned :
    let s := ({} : MemoryStore Bool Bool Bool).run flagProtobuf ⟨100, 100, 100⟩
      [rememberFlag, .takeNextEnvelopeHolder, .deleteData, .returnEnvelopeHolder 0]
    s.holders = [] ∧ 0 < s.size ∧ (s.takeNextEnvelopeHolder ⟨100, 100, 100⟩).1.isSome ∧
      ¬ s.IsEmpty ⟨100, 100, 100⟩ := by
  intro s
  have hsize : 0 < s.size := by decide +kernel
  refine ⟨by decide +kernel, hsize, by decide +kernel, fun hempty => ?_⟩
  exact absurd hempty.1 hsize.ne'

end Cobalt.ObservationStore
