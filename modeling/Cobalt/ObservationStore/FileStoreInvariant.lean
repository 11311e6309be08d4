import Cobalt.ObservationStore.FileObservationStore
import Mathlib.Logic.Relation

/-!
# The invariant of the file observation store

Every operation of the store keeps an invariant that says what is in each file and which holder owns
it. The invariant comes in two forms. The weak one allows that a rename fails while the active file
holds no observation that was accepted: what is left of the old active file then stays behind what
is written later. The strict one is about runs without failures in which every unencrypted
observation can be parsed into the one before it.

## Main definitions

* `Store.placedIn`: the accepted observations whose place is some file.
* `Store.Inv`: the invariant.
* `Op.Admissible`: the operations that keep it.

## Main results

* `Op.Admissible.inv`: an admissible operation keeps the invariant.
* `Store.Inv.of_run`: it holds in every state that a run of admissible operations reaches.
-/

namespace Cobalt.ObservationStore

variable {M E U : Type}

/-- The observations whose place is some file. -/
def Store.placedIn (s : Store M E U) (name : String) : List (M × Observation E U) :=
  (s.placed.filter fun p => p.1 = name).map Prod.snd

/-- The files that are owned by holders. -/
def Store.owned (s : Store M E U) : List String :=
  s.holders.flatMap FileEnvelopeHolder.fileNames

variable (strict : Prop) (pb : Protobuf M E U) (encrypt : U → Option E)

/-- The active file when it is open: its records are those of the observations whose place it
is, and the last metadata among them is what the store takes it to be. -/
structure Store.OpenInv (s : Store M E U) (records : List (Contents M E U)) : Prop where
  startsWithMetadata : StartsWithMetadata records
  observations : observationsOf none records = s.placedIn kActiveFileName
  not_written : s.metadataWritten = false → records = []
  written : s.metadataWritten = true → ∃ m, lastMetadata none records = some m ∧
    pb.metadataString m = s.lastWrittenMetadata
  mergeSafe : strict → MergeSafe pb records
  under : strict → s.disk.lookup kActiveFileName = some []

/-- The active file, open or closed. -/
def Store.ActiveInv (s : Store M E U) : Prop :=
  match s.activeFile with
  | none => s.metadataWritten = false ∧ s.placedIn kActiveFileName = [] ∧
      (strict → s.disk.lookup kActiveFileName = none)
  | some bytes => ∃ records, bytes = encodeAll pb records ∧ s.OpenInv strict pb records

/-- A finalized file starts with the records of the observations whose place it is. -/
def Store.FileInv (s : Store M E U) (name : String) (bytes : Bytes) : Prop :=
  isFinalizedFileName name = true ∧ name ∈ s.generated ∧
    ∃ records tail, bytes = encodeAll pb records ++ tail ∧ StartsWithMetadata records ∧
      observationsOf none records = s.placedIn name ∧ (strict → MergeSafe pb records ∧ tail = [])

/-- The invariant of a store. -/
structure Store.Inv (s : Store M E U) : Prop where
  enabled : s.isDisabled = false
  active : s.ActiveInv strict pb
  files : ∀ name bytes, s.disk.lookup name = some bytes → name ≠ kActiveFileName →
    s.FileInv strict pb name bytes
  placed : ∀ p ∈ s.placed, p.1 ≠ kActiveFileName → (s.disk.lookup p.1).isSome
  /-- Files that are owned are on the disk and taken. -/
  owned_taken : ∀ name ∈ s.owned, name ∈ s.filesTaken ∧ name ≠ kActiveFileName ∧
    (s.disk.lookup name).isSome
  /-- Files that are taken and still on the disk are owned. -/
  taken_owned : ∀ name ∈ s.filesTaken, (s.disk.lookup name).isSome → name ∈ s.owned
  owned_nodup : s.owned.Nodup
  taken_generated : ∀ name ∈ s.filesTaken, name ∈ s.generated
  generated : ∀ name ∈ s.generated, isFinalizedFileName name = true
  finalizedBytes : s.finalizedBytes = s.disk.totalSize isFinalizedFileName
  conserved : s.accepted.Perm (s.destroyed ++ s.placed.map Prod.snd)
  cached : ∀ holder ∈ s.holders, ∀ envelope, holder.envelope = some envelope →
    envelope = (readFiles pb encrypt s.disk holder.fileNames).2.envelope

variable {strict pb encrypt} {s : Store M E U}

theorem ne_kActiveFileName {name : String} (h : isFinalizedFileName name = true) :
    name ≠ kActiveFileName := by
  rintro rfl
  rw [isFinalizedFileName_kActiveFileName] at h
  exact absurd h (by simp)

theorem Store.OpenInv.activeInv {records : List (Contents M E U)}
    (h : s.OpenInv strict pb records) (hactive : s.activeFile = some (encodeAll pb records)) :
    s.ActiveInv strict pb := by
  rw [Store.ActiveInv, hactive]
  exact ⟨records, rfl, h⟩

/-- The invariant of the active file depends on what is known of this file alone. -/
theorem Store.ActiveInv.congr {s' : Store M E U} (h : s.ActiveInv strict pb)
    (hactive : s'.activeFile = s.activeFile) (hwritten : s'.metadataWritten = s.metadataWritten)
    (hlast : s'.lastWrittenMetadata = s.lastWrittenMetadata)
    (hplaced : s'.placedIn kActiveFileName = s.placedIn kActiveFileName)
    (hdisk : s'.disk.lookup kActiveFileName = s.disk.lookup kActiveFileName) :
    s'.ActiveInv strict pb := by
  rw [Store.ActiveInv] at h ⊢
  rw [hactive]
  cases hopen : s.activeFile with
  | none =>
    rw [hopen] at h
    rwa [hwritten, hplaced, hdisk]
  | some bytes =>
    rw [hopen] at h
    obtain ⟨records, hbytes, hrecords⟩ := h
    refine ⟨records, hbytes, hrecords.startsWithMetadata, ?_, ?_, ?_, hrecords.mergeSafe, ?_⟩
    · rw [hplaced, hrecords.observations]
    · rw [hwritten]
      exact hrecords.not_written
    · rw [hwritten, hlast]
      exact hrecords.written
    · rw [hdisk]
      exact hrecords.under

theorem readFiles_congr {disk disk' : Disk} {fileNames : List String}
    (h : ∀ name ∈ fileNames, disk'.lookup name = disk.lookup name) :
    readFiles pb encrypt disk' fileNames = readFiles pb encrypt disk fileNames := by
  refine Loop.runAll_congr (fun name hname s => ?_) _
  rw [readFile, readFile, h name hname]

/-- An empty store. -/
theorem Store.Inv.init : Store.Inv strict pb encrypt ({} : Store M E U) where
  enabled := rfl
  active := ⟨rfl, rfl, fun _ => rfl⟩
  files := fun name bytes h => absurd h (by simp)
  placed := by simp
  owned_taken := by simp [Store.owned]
  taken_owned := by simp
  owned_nodup := by simp [Store.owned]
  taken_generated := by simp
  generated := by simp
  finalizedBytes := rfl
  conserved := by simp
  cached := by simp

/-! ### The active file -/

/-- Frame rule. The invariant is kept when only the active file, what is known of it and the
generated names change. -/
theorem Store.Inv.frame (h : s.Inv strict pb encrypt) {disk : Disk} {activeFile : Option Bytes}
    {metadataWritten : Bool} {lastWrittenMetadata : Bytes} {generated : List String}
    (hdisk : ∀ name, name ≠ kActiveFileName → disk.lookup name = s.disk.lookup name)
    (hsub : ∀ name ∈ s.generated, name ∈ generated)
    (hgenerated : ∀ name ∈ generated, isFinalizedFileName name = true)
    (hactive : ({ s with disk, activeFile, metadataWritten, lastWrittenMetadata, generated } :
      Store M E U).ActiveInv strict pb) :
    ({ s with disk, activeFile, metadataWritten, lastWrittenMetadata, generated } :
      Store M E U).Inv strict pb encrypt where
  enabled := h.enabled
  active := hactive
  files := by
    intro name bytes hlookup hne
    obtain ⟨hname, hmem, hrecords⟩ := h.files name bytes ((hdisk name hne) ▸ hlookup) hne
    exact ⟨hname, hsub name hmem, hrecords⟩
  placed := fun p hp hne => (hdisk p.1 hne).symm ▸ h.placed p hp hne
  owned_taken := by
    intro name hname
    obtain ⟨htaken, hne, hsome⟩ := h.owned_taken name hname
    exact ⟨htaken, hne, (hdisk name hne).symm ▸ hsome⟩
  taken_owned := by
    intro name hname hsome
    have hne := ne_kActiveFileName (h.generated name (h.taken_generated name hname))
    exact h.taken_owned name hname (hdisk name hne ▸ hsome)
  owned_nodup := h.owned_nodup
  taken_generated := fun name hname => hsub name (h.taken_generated name hname)
  generated := hgenerated
  finalizedBytes := by
    refine h.finalizedBytes.trans (Disk.totalSize_congr fun name hname => ?_).symm
    exact hdisk name (ne_kActiveFileName hname)
  conserved := h.conserved
  cached := by
    intro holder hholder envelope henvelope
    have hread : readFiles pb encrypt disk holder.fileNames =
        readFiles pb encrypt s.disk holder.fileNames :=
      readFiles_congr fun name hname =>
        hdisk name (h.owned_taken name (List.mem_flatMap.mpr ⟨holder, hholder, hname⟩)).2.1
    rw [h.cached holder hholder envelope henvelope, ← hread]

/-- Opening the active file. -/
theorem Store.Inv.getActiveFile (h : s.Inv strict pb encrypt) (faults : Faults)
    (hfaults : faults.openFails = false) :
    ∃ s' records, s.getActiveFile faults = some s' ∧ s'.Inv strict pb encrypt ∧
      s'.activeFile = some (encodeAll pb records) ∧
      s.activeFile.getD [] = encodeAll pb records ∧ s'.OpenInv strict pb records ∧
      s'.metadataWritten = s.metadataWritten ∧ s'.lastWrittenMetadata = s.lastWrittenMetadata ∧
      s'.generated = s.generated := by
  have hactive := h.active
  rw [Store.ActiveInv] at hactive
  rw [Store.getActiveFile]
  cases hopen : s.activeFile with
  | some bytes =>
    rw [hopen] at hactive
    obtain ⟨records, rfl, hrecords⟩ := hactive
    exact ⟨s, records, rfl, h, hopen, rfl, hrecords, rfl, rfl, rfl⟩
  | none =>
    rw [hopen] at hactive
    obtain ⟨hwritten, hplaced, hdisk⟩ := hactive
    have hopened : ({ s with
        activeFile := some []
        disk := s.disk.insert kActiveFileName ((s.disk.lookup kActiveFileName).getD []) } :
        Store M E U).OpenInv strict pb [] := by
      refine ⟨by simp [StartsWithMetadata], hplaced.symm, fun _ => rfl, fun htrue => ?_,
        fun _ => List.isChain_nil, fun hstrict => ?_⟩
      · rw [hwritten] at htrue
        exact absurd htrue (by simp)
      · dsimp only
        rw [AList.lookup_insert, hdisk hstrict]
        rfl
    rw [hfaults]
    refine ⟨_, [], rfl, ?_, rfl, rfl, hopened, rfl, rfl, rfl⟩
    exact h.frame (fun name hne => AList.lookup_insert_ne hne) (fun _ => id) h.generated
      ⟨[], rfl, hopened⟩

/-- Writing metadata: afterwards the last metadata in the active file is that of the observation
that is to be stored. -/
theorem Store.Inv.writeMetadata (h : s.Inv strict pb encrypt) {records : List (Contents M E U)}
    (hactive : s.activeFile = some (encodeAll pb records)) (hopen : s.OpenInv strict pb records)
    (hpb : pb.Lawful) (m : M) (faults : Faults) (hfaults : faults.metadataLeft = none) :
    ∃ s' records', s.writeMetadata pb m faults = (true, s') ∧ s'.Inv strict pb encrypt ∧
      s'.activeFile = some (encodeAll pb records') ∧ s'.OpenInv strict pb records' ∧
      s'.generated = s.generated ∧
      lastMetadata none records' = some m ∧
      (records' = records ++ [.metaData m] ∨
        (records' = records ∧ pb.metadataString m = s.lastWrittenMetadata)) := by
  rw [Store.writeMetadata]
  split_ifs with hwrite
  · have hopen' : ({ s.append (pb.serializeDelimited (.metaData m)) with
        metadataWritten := true
        lastWrittenMetadata := pb.metadataString m } : Store M E U).OpenInv strict pb
          (records ++ [.metaData m]) := by
      refine ⟨?_, ?_, by simp, fun _ => ⟨m, ?_, rfl⟩, fun hstrict => ?_, hopen.under⟩
      · cases records with
        | nil => simp [StartsWithMetadata]
        | cons c records => exact hopen.startsWithMetadata
      · rw [observationsOf_append, observationsOf, observationsOf, List.append_nil]
        exact hopen.observations
      · rw [lastMetadata_append]
        rfl
      · refine (hopen.mergeSafe hstrict).append (List.isChain_singleton _) ?_
        rintro c - c' hc' u u' - rfl
        simp at hc'
    have hactive' : (s.append (pb.serializeDelimited (.metaData m))).activeFile =
        some (encodeAll pb (records ++ [.metaData m])) := by
      rw [Store.append, hactive, encodeAll_append, encodeAll_singleton]
      rfl
    rw [hfaults, Store.writeRecord]
    refine ⟨_, _, rfl, ?_, hactive', hopen', rfl, ?_, Or.inl rfl⟩
    · exact h.frame (fun _ _ => rfl) (fun _ => id) h.generated
        (hopen'.activeInv hactive')
    · rw [lastMetadata_append]
      rfl
  · push Not at hwrite
    obtain ⟨hwritten, hsame⟩ := hwrite
    obtain ⟨m', hlast, heq⟩ := hopen.written (by simpa using hwritten)
    obtain rfl : m' = m := hpb.metadataString_injective (heq.trans hsame.symm)
    exact ⟨s, records, rfl, h, hactive, hopen, rfl, hlast, Or.inr ⟨rfl, hsame⟩⟩

theorem placedIn_accept (s : Store M E U) (name name' : String) (p : M × Observation E U) :
    (s.accept name p).placedIn name' =
      s.placedIn name' ++ if name' = name then [p] else [] := by
  rw [Store.placedIn, Store.accept, List.filter_append, List.map_append, Store.placedIn]
  by_cases hname : name' = name
  · simp [hname]
  · simp [hname, Ne.symm hname]

theorem Observation.observationsOf_contents (m : M) (o : Observation E U) :
    observationsOf (some m) [o.contents] = [(m, o)] := by
  cases o <;> rfl

theorem Observation.lastMetadata_contents (current : Option M) (o : Observation E U) :
    lastMetadata current [o.contents] = current := by
  cases o <;> rfl

/-- Writing an observation that is accepted, into the active file. -/
theorem Store.Inv.accept (h : s.Inv strict pb encrypt) {records : List (Contents M E U)}
    (hactive : s.activeFile = some (encodeAll pb records)) (hopen : s.OpenInv strict pb records)
    {m : M} (hlast : lastMetadata none records = some m) {o : Observation E U}
    (hsafe : strict → MergeSafe pb (records ++ [o.contents])) :
    ((s.append (pb.serializeDelimited o.contents)).accept kActiveFileName (m, o)).Inv strict pb
      encrypt where
  enabled := h.enabled
  active := by
    have hactive' : ((s.append (pb.serializeDelimited o.contents)).accept kActiveFileName
        (m, o)).activeFile = some (encodeAll pb (records ++ [o.contents])) := by
      rw [Store.accept, Store.append, hactive, encodeAll_append, encodeAll_singleton]
      rfl
    have hne : records ≠ [] := by
      rintro rfl
      simp [lastMetadata] at hlast
    refine Store.OpenInv.activeInv ⟨?_, ?_, fun hfalse => ?_, fun htrue => ?_, hsafe,
      hopen.under⟩ hactive'
    · obtain ⟨c, records', rfl⟩ := List.exists_cons_of_ne_nil hne
      exact hopen.startsWithMetadata
    · rw [observationsOf_append, hlast, Observation.observationsOf_contents, placedIn_accept,
        if_pos rfl, hopen.observations]
      rfl
    · exact absurd (hopen.not_written hfalse) hne
    · rw [lastMetadata_append, Observation.lastMetadata_contents]
      exact hopen.written htrue
  files := by
    intro name bytes hlookup hne
    obtain ⟨hname, hmem, records', tail, hbytes, hstart, hobs, hrest⟩ := h.files name bytes hlookup hne
    refine ⟨hname, hmem, records', tail, hbytes, hstart, ?_, hrest⟩
    rw [placedIn_accept, if_neg hne, List.append_nil]
    exact hobs
  placed := by
    intro p hp hne
    rcases List.mem_append.mp hp with hp | hp
    · exact h.placed p hp hne
    · exact absurd (congrArg Prod.fst (List.mem_singleton.mp hp)) hne
  owned_taken := h.owned_taken
  taken_owned := h.taken_owned
  owned_nodup := h.owned_nodup
  taken_generated := h.taken_generated
  generated := h.generated
  finalizedBytes := h.finalizedBytes
  conserved := by
    rw [Store.accept, Store.append]
    dsimp only
    rw [List.map_append, ← List.append_assoc]
    exact h.conserved.append_right _
  cached := h.cached

/-! ### Finalizing the active file -/

theorem lookup_closeActiveFile (s : Store M E U) {name : String} (hne : name ≠ kActiveFileName) :
    s.closeActiveFile.disk.lookup name = s.disk.lookup name := by
  rw [Store.closeActiveFile]
  dsimp only
  split
  · rfl
  · exact AList.lookup_insert_ne hne

theorem finalizeClosedFile_cases (c : Store M E U) (newName : String) (faults : Faults) :
    let r := c.finalizeClosedFile newName faults
    let g : Store M E U := { c with generated := c.generated ++ [newName] }
    (c.disk.lookup kActiveFileName = none ∧ r = (false, c)) ∨
      (c.disk.lookup kActiveFileName = some [] ∧
        r = (false, c.delete kActiveFileName faults.deleteFails)) ∨
      (∃ bytes, c.disk.lookup kActiveFileName = some bytes ∧ bytes ≠ [] ∧
        ((faults.renameFails = true ∧ r = (false, g)) ∨ (faults.renameFails = false ∧
          ∃ disk, c.disk.rename kActiveFileName newName = some disk ∧
            r = (true, g.renameActiveFile disk newName)))) := by
  dsimp only
  rw [Store.finalizeClosedFile]
  split
  · rename_i hnone
    exact Or.inl ⟨hnone, rfl⟩
  · rename_i hempty
    exact Or.inr (Or.inl ⟨hempty, rfl⟩)
  · rename_i bytes hne hsome
    refine Or.inr (Or.inr ⟨bytes, hsome, hne, ?_⟩)
    dsimp only
    split_ifs with hrename
    · exact Or.inl ⟨hrename, rfl⟩
    · obtain ⟨disk, hdisk⟩ := Option.isSome_iff_exists.mp
        (Disk.rename_isSome (by rw [hsome]; rfl) newName)
      refine Or.inr ⟨by simpa using hrename, disk, hdisk, ?_⟩
      rw [hdisk]

/-- `FinalizeActiveFile` closes the file, and then there is no file, or it is empty and is
deleted, or the rename fails, or it is renamed. -/
theorem finalizeActiveFile_cases (s : Store M E U) (newName : String) (faults : Faults) :
    let r := s.finalizeActiveFile newName faults
    let c : Store M E U := { s.closeActiveFile with metadataWritten := false }
    let g : Store M E U := { c with generated := c.generated ++ [newName] }
    (c.disk.lookup kActiveFileName = none ∧ r = (false, c)) ∨
      (c.disk.lookup kActiveFileName = some [] ∧
        r = (false, c.delete kActiveFileName faults.deleteFails)) ∨
      (∃ bytes, c.disk.lookup kActiveFileName = some bytes ∧ bytes ≠ [] ∧
        ((faults.renameFails = true ∧ r = (false, g)) ∨ (faults.renameFails = false ∧
          ∃ disk, c.disk.rename kActiveFileName newName = some disk ∧
            r = (true, g.renameActiveFile disk newName)))) :=
  finalizeClosedFile_cases _ newName faults

/-- A name that was not generated before is not in use. -/
theorem Store.Inv.lookup_eq_none (h : s.Inv strict pb encrypt) {name : String}
    (hname : isFinalizedFileName name = true) (hnew : name ∉ s.generated) :
    s.disk.lookup name = none := by
  by_contra hsome
  obtain ⟨bytes, hbytes⟩ := Option.ne_none_iff_exists'.mp hsome
  exact hnew (h.files name bytes hbytes (ne_kActiveFileName hname)).2.1

theorem Store.Inv.placed_ne (h : s.Inv strict pb encrypt) {name : String}
    (hname : isFinalizedFileName name = true) (hnew : name ∉ s.generated) :
    ∀ p ∈ s.placed, p.1 ≠ name := by
  rintro p hp rfl
  have hsome := h.placed p hp (ne_kActiveFileName hname)
  rw [h.lookup_eq_none hname hnew] at hsome
  exact absurd hsome (by simp)

theorem map_snd_renameActiveFile (s : Store M E U) (disk : Disk) (newName : String) :
    (s.renameActiveFile disk newName).placed.map Prod.snd = s.placed.map Prod.snd := by
  rw [Store.renameActiveFile, List.map_map]
  refine List.map_congr_left fun p _ => ?_
  simp only [Function.comp_apply]
  split_ifs <;> rfl

/-- The rename moves the observations of the active file to the new name. -/
theorem placedIn_renameActiveFile (s : Store M E U) (disk : Disk) {newName : String}
    (hne : newName ≠ kActiveFileName) (hplaced : ∀ p ∈ s.placed, p.1 ≠ newName) (name : String) :
    (s.renameActiveFile disk newName).placedIn name =
      if name = newName then s.placedIn kActiveFileName
      else if name = kActiveFileName then [] else s.placedIn name := by
  have hsnd (q : String × M × Observation E U → Bool) :
      ((s.renameActiveFile disk newName).placed.filter q).map Prod.snd =
        (s.placed.filter fun p =>
          q (if p.1 = kActiveFileName then (newName, p.2) else p)).map Prod.snd := by
    rw [Store.renameActiveFile, List.filter_map, List.map_map]
    refine List.map_congr_left fun p _ => ?_
    simp only [Function.comp_apply]
    split_ifs <;> rfl
  rw [Store.placedIn, hsnd]
  split_ifs with hnew hactive
  · rw [Store.placedIn]
    refine congrArg (List.map Prod.snd) (List.filter_congr fun p hp => ?_)
    have := hplaced p hp
    grind
  · rw [List.map_eq_nil_iff, List.filter_eq_nil_iff]
    intro p _
    grind
  · rw [Store.placedIn]
    refine congrArg (List.map Prod.snd) (List.filter_congr fun p _ => ?_)
    grind

/-- What is in the active file when it is closed. -/
theorem Store.Inv.closed (h : s.Inv strict pb encrypt) {bytes : Bytes}
    (hbytes : s.closeActiveFile.disk.lookup kActiveFileName = some bytes) :
    ∃ records tail, bytes = encodeAll pb records ++ tail ∧ StartsWithMetadata records ∧
      observationsOf none records = s.placedIn kActiveFileName ∧
      (strict → MergeSafe pb records ∧ tail = []) := by
  have hactive := h.active
  rw [Store.ActiveInv] at hactive
  rw [Store.closeActiveFile] at hbytes
  dsimp only at hbytes
  cases hopen : s.activeFile with
  | none =>
    rw [hopen] at hactive hbytes
    obtain ⟨_, hplaced, hdisk⟩ := hactive
    refine ⟨[], bytes, rfl, by simp [StartsWithMetadata], hplaced.symm, fun hstrict => ?_⟩
    rw [hdisk hstrict] at hbytes
    exact absurd hbytes (by simp)
  | some written =>
    rw [hopen] at hactive hbytes
    obtain ⟨records, rfl, hrecords⟩ := hactive
    rw [AList.lookup_insert, Option.some.injEq, overlay] at hbytes
    refine ⟨records, _, hbytes.symm, hrecords.startsWithMetadata, hrecords.observations,
      fun hstrict => ⟨hrecords.mergeSafe hstrict, ?_⟩⟩
    rw [hrecords.under hstrict]
    exact List.drop_nil

/-- A rename that succeeds keeps the invariant. -/
theorem Store.Inv.renamed (h : s.Inv strict pb encrypt) {newName : String}
    (hname : isFinalizedFileName newName = true) (hnew : newName ∉ s.generated) {bytes : Bytes}
    (hbytes : s.closeActiveFile.disk.lookup kActiveFileName = some bytes) {disk : Disk}
    (hdisk : s.closeActiveFile.disk.rename kActiveFileName newName = some disk) :
    (({ s.closeActiveFile with
        metadataWritten := false
        generated := s.generated ++ [newName] } : Store M E U).renameActiveFile disk
      newName).Inv strict pb encrypt := by
  have hne := ne_kActiveFileName hname
  obtain ⟨records, tail, hrecords, hstart, hobs, hstrict⟩ := h.closed hbytes
  -- The new name has the contents of the active file, which is gone; nothing else changes.
  have hlookup (name : String) : disk.lookup name = if name = newName then some bytes
      else if name = kActiveFileName then none else s.disk.lookup name := by
    rw [Disk.lookup_rename hdisk name, hbytes]
    split_ifs with h₁ h₂
    · rfl
    · rfl
    · exact lookup_closeActiveFile s h₂
  have hother {name : String} (hgenerated : name ∈ s.generated) :
      disk.lookup name = s.disk.lookup name := by
    have hne' : name ≠ newName := fun heq => hnew (heq ▸ hgenerated)
    rw [hlookup, if_neg hne', if_neg (ne_kActiveFileName (h.generated name hgenerated))]
  have hsize : s.closeActiveFile.fileSize kActiveFileName = bytes.length := by
    rw [Store.fileSize, hbytes]
    rfl
  set s' := ({ s.closeActiveFile with
    metadataWritten := false
    generated := s.generated ++ [newName] } : Store M E U).renameActiveFile disk newName
  have hplacedIn (name : String) : s'.placedIn name =
      if name = newName then s.placedIn kActiveFileName
      else if name = kActiveFileName then [] else s.placedIn name :=
    placedIn_renameActiveFile _ disk hne (h.placed_ne hname hnew) name
  exact {
    enabled := h.enabled
    active := by
      refine ⟨rfl, ?_, fun _ => ?_⟩
      · rw [hplacedIn, if_neg hne.symm, if_pos rfl]
      · exact (hlookup _).trans (by rw [if_neg hne.symm, if_pos rfl])
    files := by
      intro name bytes' hbytes' hne'
      replace hbytes' := (hlookup name).symm.trans hbytes'
      rw [Store.FileInv, hplacedIn]
      split_ifs at hbytes' with h₁
      · obtain rfl := Option.some.inj hbytes'
        rw [if_pos h₁, h₁]
        exact ⟨hname, List.mem_append_right _ List.mem_cons_self, records, tail, hrecords, hstart,
          hobs, hstrict⟩
      · rw [if_neg h₁, if_neg hne']
        obtain ⟨hname', hmem, hrest⟩ := h.files name bytes' hbytes' hne'
        exact ⟨hname', List.mem_append_left _ hmem, hrest⟩
    placed := by
      intro p hp hne'
      obtain ⟨p', hp', rfl⟩ := List.mem_map.mp hp
      have hp'' := h.placed p' hp'
      change (disk.lookup _).isSome
      rw [hlookup]
      grind
    owned_taken := by
      intro name hmem
      obtain ⟨htaken, hne', hsome⟩ := h.owned_taken name hmem
      exact ⟨htaken, hne', (hother (h.taken_generated name htaken)).symm ▸ hsome⟩
    taken_owned := by
      intro name hmem hsome
      exact h.taken_owned name hmem (hother (h.taken_generated name hmem) ▸ hsome)
    owned_nodup := h.owned_nodup
    taken_generated := fun name hmem => List.mem_append_left _ (h.taken_generated name hmem)
    generated := by
      intro name hmem
      rcases List.mem_append.mp hmem with hmem | hmem
      · exact h.generated name hmem
      · rw [List.mem_singleton.mp hmem]
        exact hname
    finalizedBytes := by
      have hadd : disk.totalSize isFinalizedFileName =
          s.disk.totalSize isFinalizedFileName + bytes.length := by
        refine Disk.totalSize_add hname (h.lookup_eq_none hname hnew)
          (by rw [hlookup, if_pos rfl]) fun name hname' hne' => ?_
        rw [hlookup, if_neg hne', if_neg (ne_kActiveFileName hname')]
      rw [← h.finalizedBytes, ← hsize] at hadd
      exact hadd.symm
    conserved := by
      rw [map_snd_renameActiveFile]
      exact h.conserved
    cached := by
      intro holder hholder envelope henvelope
      have hread : readFiles pb encrypt disk holder.fileNames =
          readFiles pb encrypt s.disk holder.fileNames :=
        readFiles_congr fun name hmem => hother (h.taken_generated name
          (h.owned_taken name (List.mem_flatMap.mpr ⟨holder, hholder, hmem⟩)).1)
      rw [h.cached holder hholder envelope henvelope, ← hread]
      rfl }

/-- An active file that is closed and not renamed keeps the invariant if it is not the place of
any accepted observation, whatever was written to it last. -/
theorem Store.Inv.closed_failed (h : s.Inv strict pb encrypt)
    (hplaced : s.placedIn kActiveFileName = []) {disk : Disk}
    (hdisk : ∀ name, name ≠ kActiveFileName → disk.lookup name = s.disk.lookup name)
    (hstrict : strict → disk.lookup kActiveFileName = none) {generated : List String}
    (hsub : ∀ name ∈ s.generated, name ∈ generated)
    (hgenerated : ∀ name ∈ generated, isFinalizedFileName name = true) :
    ({ s with activeFile := none, metadataWritten := false, disk, generated } :
      Store M E U).Inv strict pb encrypt :=
  h.frame hdisk hsub hgenerated ⟨rfl, hplaced, hstrict⟩

theorem activeFile_eq_none_of_closed {s : Store M E U}
    (h : s.closeActiveFile.disk.lookup kActiveFileName = none) : s.activeFile = none := by
  rw [Store.closeActiveFile] at h
  dsimp only at h
  cases hopen : s.activeFile with
  | none => rfl
  | some bytes =>
    rw [hopen, AList.lookup_insert] at h
    exact absurd h (by simp)

theorem encodeAll_eq_nil (hpb : pb.Lawful) {records : List (Contents M E U)}
    (h : encodeAll pb records = []) : records = [] := by
  cases records with
  | nil => rfl
  | cons c records =>
    rw [encodeAll, List.flatMap_cons, List.append_eq_nil_iff] at h
    exact absurd h.1 (hpb.serializeDelimited_ne_nil c)

/-- A name that can be given to a file. -/
structure Store.Fresh (s : Store M E U) (newName : String) : Prop where
  isFinalizedFileName : isFinalizedFileName newName = true
  notMem : newName ∉ s.generated

theorem Store.Inv.generated_concat (h : s.Inv strict pb encrypt) {newName : String}
    (hnew : s.Fresh newName) :
    ∀ name ∈ s.generated ++ [newName], ObservationStore.isFinalizedFileName name = true := by
  intro name hmem
  rcases List.mem_append.mp hmem with hmem | hmem
  · exact h.generated name hmem
  · rw [List.mem_singleton.mp hmem]
    exact hnew.isFinalizedFileName

/-- Finalizing the active file keeps the invariant, provided that the rename does not fail while
the file is the place of an accepted observation. -/
theorem Store.Inv.finalizeActiveFile (h : s.Inv strict pb encrypt) (hpb : pb.Lawful)
    {newName : String} (hnew : s.Fresh newName) {faults : Faults}
    (hdelete : faults.deleteFails = false)
    (hfails : faults.renameFails = true → s.placedIn kActiveFileName = [] ∧ ¬strict) :
    (s.finalizeActiveFile newName faults).2.Inv strict pb encrypt := by
  have hcases := finalizeActiveFile_cases s newName faults
  dsimp only at hcases
  rcases hcases with ⟨hnone, heq⟩ | ⟨hempty, heq⟩ | ⟨bytes, hbytes, _, hcases⟩
  · -- There is no active file.
    have hactive := h.active
    rw [Store.ActiveInv, activeFile_eq_none_of_closed hnone] at hactive
    rw [heq]
    exact h.closed_failed hactive.2.1 (fun name => lookup_closeActiveFile s) (fun _ => hnone)
      (fun _ => id) h.generated
  · -- It is empty, so that it has no records.
    obtain ⟨records, tail, hrecords, _, hobs, _⟩ := h.closed hempty
    have hnil := encodeAll_eq_nil hpb (List.append_eq_nil_iff.mp hrecords.symm).1
    rw [hnil] at hobs
    rw [heq, Store.delete, hdelete]
    refine h.closed_failed hobs.symm (fun name hne => ?_) (fun _ => AList.lookup_erase _ _)
      (fun _ => id) h.generated
    exact (AList.lookup_erase_ne hne).trans (lookup_closeActiveFile s hne)
  · rcases hcases with ⟨hrename, heq⟩ | ⟨_, disk, hdisk, heq⟩
    · obtain ⟨hplaced, hstrict⟩ := hfails hrename
      rw [heq]
      exact h.closed_failed hplaced (fun name => lookup_closeActiveFile s)
        (fun hs => absurd hs hstrict) (fun name hmem => List.mem_append_left _ hmem)
        (h.generated_concat hnew)
    · rw [heq]
      exact h.renamed hnew.isFinalizedFileName hnew.notMem hbytes hdisk

theorem renameFails_of_finalizeActiveFile {s s' : Store M E U} {newName : String} {faults : Faults}
    (h : s.finalizeActiveFile newName faults = (true, s')) : faults.renameFails = false := by
  have hcases := finalizeActiveFile_cases s newName faults
  dsimp only at hcases
  rw [h] at hcases
  rcases hcases with ⟨_, heq⟩ | ⟨_, heq⟩ | ⟨_, _, _, ⟨_, heq⟩ | ⟨hrename, _⟩⟩
  · simp at heq
  · simp at heq
  · simp at heq
  · exact hrename

/-- Finalizing a file that is not empty fails only if the rename does. -/
theorem finalizeActiveFile_failed {s s' : Store M E U} {newName : String} {faults : Faults}
    (h : s.finalizeActiveFile newName faults = (false, s')) {bytes : Bytes}
    (hbytes : s.closeActiveFile.disk.lookup kActiveFileName = some bytes) (hne : bytes ≠ []) :
    faults.renameFails = true ∧ s' = { s.closeActiveFile with
      metadataWritten := false
      generated := s.generated ++ [newName] } := by
  have hcases := finalizeActiveFile_cases s newName faults
  dsimp only at hcases
  rw [h] at hcases
  rcases hcases with ⟨hnone, _⟩ | ⟨hempty, _⟩ | ⟨_, _, _, ⟨hrename, heq⟩ | ⟨_, _, _, heq⟩⟩
  · exact absurd (hbytes.symm.trans hnone) (by simp)
  · exact absurd (Option.some.inj (hbytes.symm.trans hempty)) hne
  · exact ⟨hrename, (Prod.mk.inj heq).2⟩
  · simp at heq

/-- An observation is accepted into the active file before it is finalized, or into the file with
the new name after it. -/
theorem finalizeActiveFile_accept {s s' : Store M E U} {newName : String} {faults : Faults}
    (h : s.finalizeActiveFile newName faults = (true, s')) (p : M × Observation E U) :
    (s.accept kActiveFileName p).finalizeActiveFile newName faults =
      (true, s'.accept newName p) := by
  have haccept (disk : Disk) (c : Store M E U) :
      (c.accept kActiveFileName p).renameActiveFile disk newName =
        (c.renameActiveFile disk newName).accept newName p := by
    simp [Store.renameActiveFile, Store.accept, Store.fileSize]
  have hcases := finalizeActiveFile_cases s newName faults
  have hcases' := finalizeActiveFile_cases (s.accept kActiveFileName p) newName faults
  dsimp only at hcases hcases'
  -- Both calls see the same files, so that both of them rename the file.
  have hclose : (s.accept kActiveFileName p).closeActiveFile =
    s.closeActiveFile.accept kActiveFileName p := rfl
  rw [hclose] at hcases'
  rw [h] at hcases
  rcases hcases with ⟨_, heq⟩ | ⟨_, heq⟩ | ⟨bytes, hbytes, hne, ⟨_, heq⟩ | ⟨hrename, disk, hdisk, heq⟩⟩
  · simp at heq
  · simp at heq
  · simp at heq
  · rcases hcases' with ⟨hnone, _⟩ | ⟨hempty, _⟩ | ⟨_, _, _, ⟨hfails, _⟩ | ⟨_, disk', hdisk', heq'⟩⟩
    · exact absurd (hbytes.symm.trans hnone) (by simp)
    · exact absurd (Option.some.inj (hbytes.symm.trans hempty)) hne
    · exact absurd (hrename.symm.trans hfails) (by simp)
    · obtain rfl : disk = disk' := Option.some.inj (hdisk.symm.trans hdisk')
      rw [heq', (Prod.mk.inj heq).2, ← haccept]
      rfl

/-! ### Storing an observation -/

variable {limits : Limits}

/-- The last part of `StoreObservation`. -/
theorem Store.Inv.finalizeIfFull (h : s.Inv strict pb encrypt) (hpb : pb.Lawful)
    {records : List (Contents M E U)} (hactive : s.activeFile = some (encodeAll pb records))
    (hopen : s.OpenInv strict pb records) {m : M} (hlast : lastMetadata none records = some m)
    {o : Observation E U} (hsafe : strict → MergeSafe pb (records ++ [o.contents]))
    {newName : String} (hnew : s.Fresh newName) {faults : Faults}
    (hdelete : faults.deleteFails = false)
    (hfails : faults.renameFails = true → s.placedIn kActiveFileName = [] ∧ ¬strict) :
    ((s.append (pb.serializeDelimited o.contents)).finalizeIfFull limits (m, o) newName
      faults).2.Inv strict pb encrypt := by
  have haccept := h.accept hactive hopen hlast hsafe
  rw [Store.finalizeIfFull]
  split_ifs
  · cases hfinalize : (s.append (pb.serializeDelimited o.contents)).finalizeActiveFile newName
      faults with
    | mk ok s' =>
      cases ok with
      | true =>
        -- The observation could as well have been accepted before the file was finalized.
        have hfinalize' := finalizeActiveFile_accept hfinalize (m, o)
        have hrename := renameFails_of_finalizeActiveFile hfinalize
        have hinv := haccept.finalizeActiveFile hpb ⟨hnew.1, hnew.2⟩ hdelete
          fun htrue => absurd (hrename.symm.trans htrue) (by simp)
        rw [hfinalize'] at hinv
        exact hinv
      | false =>
        have hclosed : (s.append (pb.serializeDelimited o.contents)).closeActiveFile.disk.lookup
            kActiveFileName = some (overlay ((s.disk.lookup kActiveFileName).getD [])
              (encodeAll pb records ++ pb.serializeDelimited o.contents)) := by
          rw [Store.closeActiveFile, Store.append, hactive]
          exact AList.lookup_insert _
        have hne : overlay ((s.disk.lookup kActiveFileName).getD [])
            (encodeAll pb records ++ pb.serializeDelimited o.contents) ≠ [] := by
          simp [overlay, hpb.serializeDelimited_ne_nil]
        obtain ⟨hrename, rfl⟩ := finalizeActiveFile_failed hfinalize hclosed hne
        obtain ⟨hplaced, hstrict⟩ := hfails hrename
        exact h.closed_failed hplaced
          (fun name => lookup_closeActiveFile (s.append (pb.serializeDelimited o.contents)))
          (fun hs => absurd hs hstrict) (fun name hmem => List.mem_append_left _ hmem)
          (h.generated_concat hnew)
  · exact haccept

/-- Storing an observation keeps the invariant, provided that the rename does not fail while
there are observations in the active file, and in the strict form that an unencrypted observation
that is to come right after another one can be parsed into it. -/
theorem Store.Inv.storeObservation (h : s.Inv strict pb encrypt) (hpb : pb.Lawful)
    {observation : Option (Observation E U)} {m : M} {newName : String} (hnew : s.Fresh newName)
    {faults : Faults} (hfaults : faults = { renameFails := faults.renameFails })
    (hfails : faults.renameFails = true →
      observationsIn pb (s.activeFile.getD []) = [] ∧ ¬strict)
    (hsafe : strict → ∀ u u', observation = some (.unencrypted u') →
      pb.byteSize observation ≤ limits.maxBytesPerObservation →
      s.size + pb.byteSize observation ≤ limits.maxBytesTotal →
      pb.metadataString m = s.lastWrittenMetadata →
      (recordsIn pb (s.activeFile.getD [])).getLast? = some (.unencryptedObservation u) →
      pb.mergeUnencrypted u u' = u') :
    (s.storeObservation pb limits observation m newName faults).2.Inv strict pb encrypt := by
  obtain ⟨s₁, records, hget, h₁, hactive₁, hrecords, hopen₁, _, hlast₁, hgenerated₁⟩ :=
    h.getActiveFile faults (by rw [hfaults])
  obtain ⟨s₂, records₂, hwrite, h₂, hactive₂, hopen₂, hgenerated₂, hlast₂, hrecords₂⟩ :=
    h₁.writeMetadata hactive₁ hopen₁ hpb m faults (by rw [hfaults])
  rw [hrecords, observationsIn_encodeAll hpb] at hfails
  rw [hrecords, recordsIn_encodeAll hpb, ← size_getActiveFile hget] at hsafe
  rw [Store.storeObservation, h.enabled, hget]
  simp only [Bool.false_eq_true, ↓reduceIte]
  split_ifs with hbig hfull
  · exact h₁
  · exact h₁
  · rw [hwrite]
    cases observation with
    | none => exact h₂
    | some o =>
      have hrecord : faults.recordLeft = none := by rw [hfaults]
      dsimp only
      rw [hrecord, Store.writeRecord]
      refine h₂.finalizeIfFull hpb hactive₂ hopen₂ hlast₂ (fun hstrict => ?_)
        ⟨hnew.1, by rw [hgenerated₂, hgenerated₁]; exact hnew.2⟩ (by rw [hfaults]) fun hrename => ?_
      · refine (hopen₂.mergeSafe hstrict).append (List.isChain_singleton _) ?_
        rintro c hc c' hc' u u' rfl rfl
        obtain rfl : o = .unencrypted u' := by
          cases o with
          | encrypted e => simp [Observation.contents] at hc'
          | unencrypted u => simpa [Observation.contents] using hc'
        rcases hrecords₂ with rfl | ⟨rfl, hsame⟩
        · simp at hc
        · exact hsafe hstrict u u' rfl (not_lt.mp hbig) (not_lt.mp hfull) (hsame.trans hlast₁) hc
      · obtain ⟨hnone, hstrict⟩ := hfails hrename
        refine ⟨?_, hstrict⟩
        rw [← hopen₂.observations]
        rcases hrecords₂ with rfl | ⟨rfl, _⟩
        · rw [observationsOf_append, hnone]
          rfl
        · exact hnone

/-! ### Taking, returning and merging holders -/

/-- A fold that selects one of two elements in every step selects one of them all. -/
theorem foldl_select {α : Type} {f : α → α → α} (hf : ∀ a b, f a b = a ∨ f a b = b) (l : List α)
    (a : α) : l.foldl f a = a ∨ l.foldl f a ∈ l := by
  induction l generalizing a with
  | nil => exact Or.inl rfl
  | cons b l ih =>
    rw [List.foldl_cons]
    rcases ih (f a b) with heq | hmem
    · rcases hf a b with ha | hb
      · exact Or.inl (heq.trans ha)
      · exact Or.inr (List.mem_cons.mpr (Or.inl (heq.trans hb)))
    · exact Or.inr (List.mem_cons_of_mem b hmem)

/-- The oldest finalized file is on the disk and is not taken. -/
theorem getOldestFinalizedFile_spec {s : Store M E U} {name : String}
    (h : s.getOldestFinalizedFile = some name) :
    (s.disk.lookup name).isSome ∧ isFinalizedFileName name = true ∧ name ∉ s.filesTaken := by
  rw [Store.getOldestFinalizedFile] at h
  split_ifs at h with hempty
  rw [← Option.some.inj h]
  have hmem : Store.oldest (s.listFinalizedFiles.filter (· ∉ s.filesTaken)) ∈
      s.listFinalizedFiles.filter (· ∉ s.filesTaken) := by
    refine (foldl_select (fun a b => ?_) _ _).resolve_left hempty
    split_ifs <;> simp
  rw [List.mem_filter, Store.listFinalizedFiles, Disk.mem_keys_filter] at hmem
  exact ⟨hmem.1.1, hmem.1.2, of_decide_eq_true hmem.2⟩

theorem owned_take (s : Store M E U) (name : String) : (s.take name).owned = s.owned ++ [name] := by
  simp [Store.owned, Store.take]

theorem Store.Inv.take (h : s.Inv strict pb encrypt) {name : String}
    (hname : s.getOldestFinalizedFile = some name) : (s.take name).Inv strict pb encrypt := by
  obtain ⟨hsome, hfinalized, hnew⟩ := getOldestFinalizedFile_spec hname
  obtain ⟨bytes, hbytes⟩ := Option.isSome_iff_exists.mp hsome
  have hne := ne_kActiveFileName hfinalized
  exact {
    enabled := h.enabled
    active := h.active.congr rfl rfl rfl rfl rfl
    files := h.files
    placed := h.placed
    owned_taken := by
      intro name' hmem
      rw [owned_take, List.mem_append, List.mem_singleton] at hmem
      rcases hmem with hmem | rfl
      · obtain ⟨htaken, hrest⟩ := h.owned_taken name' hmem
        exact ⟨Finset.mem_insert_of_mem htaken, hrest⟩
      · exact ⟨Finset.mem_insert_self _ _, hne, hsome⟩
    taken_owned := by
      intro name' hmem hsome'
      rw [owned_take, List.mem_append, List.mem_singleton]
      rcases Finset.mem_insert.mp hmem with rfl | hmem
      · exact Or.inr rfl
      · exact Or.inl (h.taken_owned name' hmem hsome')
    owned_nodup := by
      rw [owned_take, List.nodup_append]
      refine ⟨h.owned_nodup, List.nodup_singleton _, ?_⟩
      rintro name' hmem _ hname' rfl
      rw [List.mem_singleton.mp hname'] at hmem
      exact hnew (h.owned_taken name hmem).1
    taken_generated := by
      intro name' hmem
      rcases Finset.mem_insert.mp hmem with rfl | hmem
      · exact (h.files _ bytes hbytes hne).2.1
      · exact h.taken_generated name' hmem
    generated := h.generated
    finalizedBytes := h.finalizedBytes
    conserved := h.conserved
    cached := by
      intro holder hholder envelope henvelope
      rcases List.mem_append.mp hholder with hholder | hholder
      · exact h.cached holder hholder envelope henvelope
      · rw [List.mem_singleton.mp hholder] at henvelope
        exact absurd henvelope (by simp) }

/-- Taking the next holder keeps the invariant, provided that the rename does not fail while
there are observations in the active file. -/
theorem Store.Inv.takeNextEnvelopeHolder (h : s.Inv strict pb encrypt) (hpb : pb.Lawful)
    {newName : String} (hnew : s.Fresh newName) {faults : Faults}
    (hfaults : faults = { renameFails := faults.renameFails })
    (hfails : faults.renameFails = true → s.placedIn kActiveFileName = [] ∧ ¬strict) :
    (s.takeNextEnvelopeHolder newName faults).Inv strict pb encrypt := by
  have hfinalize := h.finalizeActiveFile hpb hnew (by rw [hfaults]) hfails
  rw [Store.takeNextEnvelopeHolder]
  split
  · rename_i name hname
    exact h.take hname
  · split_ifs
    · exact h
    · split
      · rename_i s' heq
        rwa [heq] at hfinalize
      · rename_i s' heq
        rw [heq] at hfinalize
        split
        · exact hfinalize
        · rename_i name hname
          exact hfinalize.take hname

/-- The files of the holder with some number, and those of the other ones. -/
theorem owned_perm {holders : List (FileEnvelopeHolder M E)} {i : ℕ}
    {holder : FileEnvelopeHolder M E} (hholder : holders[i]? = some holder) :
    (holders.flatMap FileEnvelopeHolder.fileNames).Perm
      (holder.fileNames ++ (holders.eraseIdx i).flatMap FileEnvelopeHolder.fileNames) := by
  obtain ⟨hlt, rfl⟩ := List.getElem?_eq_some_iff.mp hholder
  exact ((List.getElem_cons_eraseIdx_perm hlt).symm.flatMap_right _)

/-- Returning a holder. Its files are no longer taken. -/
theorem Store.Inv.returnEnvelopeHolder (h : s.Inv strict pb encrypt) (i : ℕ) :
    (s.returnEnvelopeHolder i).Inv strict pb encrypt := by
  rw [Store.returnEnvelopeHolder]
  split
  · exact h
  · rename_i holder hholder
    have hperm := owned_perm hholder
    have hnodup := hperm.nodup_iff.mp h.owned_nodup
    have hdisjoint := (List.nodup_append.mp hnodup).2.2
    exact {
      enabled := h.enabled
      active := h.active.congr rfl rfl rfl rfl rfl
      files := h.files
      placed := h.placed
      owned_taken := by
        intro name hmem
        obtain ⟨htaken, hrest⟩ := h.owned_taken name (hperm.mem_iff.mpr
          (List.mem_append_right _ hmem))
        refine ⟨Finset.mem_sdiff.mpr ⟨htaken, fun hmem' => ?_⟩, hrest⟩
        exact hdisjoint name (List.mem_toFinset.mp hmem') name hmem rfl
      taken_owned := by
        intro name hmem hsome
        obtain ⟨htaken, hnot⟩ := Finset.mem_sdiff.mp hmem
        have howned := hperm.mem_iff.mp (h.taken_owned name htaken hsome)
        exact (List.mem_append.mp howned).resolve_left fun hmem' =>
          hnot (List.mem_toFinset.mpr hmem')
      owned_nodup := (List.nodup_append.mp hnodup).2.1
      taken_generated := fun name hmem =>
        h.taken_generated name (Finset.mem_sdiff.mp hmem).1
      generated := h.generated
      finalizedBytes := h.finalizedBytes
      conserved := h.conserved
      cached := fun holder' hholder' =>
        h.cached holder' (List.mem_of_mem_eraseIdx hholder') }

/-- Holders that own the same files. -/
theorem Store.Inv.reown (h : s.Inv strict pb encrypt) {holders : List (FileEnvelopeHolder M E)}
    (hperm : (holders.flatMap FileEnvelopeHolder.fileNames).Perm s.owned)
    (hcached : ∀ holder ∈ holders, ∀ envelope, holder.envelope = some envelope →
      envelope = (readFiles pb encrypt s.disk holder.fileNames).2.envelope) :
    ({ s with holders := holders } : Store M E U).Inv strict pb encrypt where
  enabled := h.enabled
  active := h.active.congr rfl rfl rfl rfl rfl
  files := h.files
  placed := h.placed
  owned_taken := fun name hmem => h.owned_taken name (hperm.mem_iff.mp hmem)
  taken_owned := fun name hmem hsome => hperm.mem_iff.mpr (h.taken_owned name hmem hsome)
  owned_nodup := hperm.nodup_iff.mpr h.owned_nodup
  taken_generated := h.taken_generated
  generated := h.generated
  finalizedBytes := h.finalizedBytes
  conserved := h.conserved
  cached := hcached

theorem mergeNames_perm {names names' : List String} (h : (names ++ names').Nodup) :
    (Store.mergeNames names names').Perm (names ++ names') := by
  induction names' generalizing names with
  | nil => simp [Store.mergeNames]
  | cons name names' ih =>
    have hperm : (names ++ name :: names').Perm (name :: names ++ names') :=
      List.perm_middle
    have hnodup := hperm.nodup_iff.mp h
    have hmem : name ∉ names := fun hmem =>
      (List.nodup_cons.mp hnodup).1 (List.mem_append_left _ hmem)
    have hinsert := (List.perm_orderedInsert (· ≤ ·) name names).append_right names'
    rw [Store.mergeNames, List.foldl_cons, if_neg hmem]
    exact (ih (hinsert.nodup_iff.mpr hnodup)).trans (hinsert.trans hperm.symm)

/-- Merging two holders. -/
theorem Store.Inv.mergeWith (h : s.Inv strict pb encrypt) (i j : ℕ) :
    (s.mergeWith i j).Inv strict pb encrypt := by
  rw [Store.mergeWith]
  split
  · rename_i holder container hholder hcontainer
    split_ifs with hij
    · exact h
    · obtain ⟨hi, hget⟩ := List.getElem?_eq_some_iff.mp hholder
      set merged : FileEnvelopeHolder M E :=
        { fileNames := mergeNames holder.fileNames container.fileNames }
      have hholders := owned_perm hholder
      have hdisjoint := List.nodup_append.mp (hholders.nodup_iff.mp h.owned_nodup)
      have hmem : container ∈ s.holders.eraseIdx i :=
        List.mem_eraseIdx_iff_getElem?.mpr ⟨j, Ne.symm hij, hcontainer⟩
      have hmerged : merged.fileNames.Perm (holder.fileNames ++ container.fileNames) := by
        refine mergeNames_perm (List.nodup_append.mpr ⟨hdisjoint.1, ?_, fun name hname name' hname' =>
          hdisjoint.2.2 name hname name' (List.mem_flatMap.mpr ⟨container, hmem, hname'⟩)⟩)
        exact (List.nodup_append.mp ((owned_perm hcontainer).nodup_iff.mp h.owned_nodup)).1
      have hset : ((s.holders.set i merged).flatMap FileEnvelopeHolder.fileNames).Perm
          (merged.fileNames ++ (s.holders.eraseIdx i).flatMap FileEnvelopeHolder.fileNames) :=
        (List.set_perm_cons_eraseIdx hi merged).flatMap_right _
      have herase : ((s.holders.set i merged).flatMap FileEnvelopeHolder.fileNames).Perm
          (container.fileNames ++ ((s.holders.set i merged).eraseIdx j).flatMap
            FileEnvelopeHolder.fileNames) :=
        owned_perm (by rw [List.getElem?_set_ne hij]; exact hcontainer)
      refine h.reown ?_ ?_
      · rw [← List.perm_append_left_iff container.fileNames]
        refine herase.symm.trans (hset.trans ?_)
        refine (hmerged.append_right _).trans ?_
        rw [List.append_assoc]
        refine List.perm_append_comm_assoc _ _ _ |>.trans ?_
        exact hholders.symm.append_left _
      · intro holder' hholder' envelope henvelope
        rcases List.mem_or_eq_of_mem_set (List.mem_of_mem_eraseIdx hholder') with hmem | rfl
        · exact h.cached holder' hmem envelope henvelope
        · exact absurd henvelope (by simp [merged])
  · exact h

/-- Reading the envelope of a holder, which keeps it. -/
theorem Store.Inv.getEnvelope (h : s.Inv strict pb encrypt) (i : ℕ) :
    (s.getEnvelope pb encrypt i).Inv strict pb encrypt := by
  refine h.reown (List.Perm.of_eq ?_) ?_
  · rw [Store.owned, List.flatMap_def, List.flatMap_def]
    refine congrArg List.flatten (List.ext_getElem? fun j => ?_)
    rw [List.getElem?_map, List.getElem?_map, List.getElem?_modify]
    cases s.holders[j]? with
    | none => rfl
    | some holder => split_ifs <;> rfl
  · intro holder hholder envelope henvelope
    obtain ⟨j, hj⟩ := List.mem_iff_getElem?.mp hholder
    rw [List.getElem?_modify] at hj
    cases hget : s.holders[j]? with
    | none => simp [hget] at hj
    | some holder' =>
      have hmem := List.mem_of_getElem? hget
      rw [hget] at hj
      split_ifs at hj
      · obtain rfl : _ = holder := Option.some.inj hj
        rw [← Option.some.inj henvelope, Store.envelopeOf]
        cases hcached : holder'.envelope with
        | none => rfl
        | some envelope' => exact h.cached holder' hmem envelope' hcached
      · obtain rfl : holder' = holder := Option.some.inj hj
        exact h.cached holder' hmem envelope henvelope

/-! ### Destroying a holder -/

/-- Deleting files that are on the disk, each of which was counted. -/
theorem foldl_destroyFile {faults : Faults} (hdelete : faults.deleteFails = false)
    {names : List String} (s : Store M E U) (hnodup : names.Nodup)
    (hnames : ∀ name ∈ names, isFinalizedFileName name = true ∧ (s.disk.lookup name).isSome)
    (hbytes : s.finalizedBytes = s.disk.totalSize isFinalizedFileName) :
    ∃ disk : Disk, names.foldl (Store.destroyFile faults) s =
        { s with disk := disk, finalizedBytes := disk.totalSize isFinalizedFileName } ∧
      ∀ name, disk.lookup name = if name ∈ names then none else s.disk.lookup name := by
  induction names generalizing s with
  | nil =>
    refine ⟨s.disk, ?_, by simp⟩
    rw [List.foldl_nil, ← hbytes]
  | cons name names ih =>
    obtain ⟨hname, hsome⟩ := hnames name List.mem_cons_self
    obtain ⟨hnot, hnodup⟩ := List.nodup_cons.mp hnodup
    obtain ⟨bytes, hlookup⟩ := Option.isSome_iff_exists.mp hsome
    have hadd : s.disk.totalSize isFinalizedFileName =
        Disk.totalSize (s.disk.erase name) isFinalizedFileName + bytes.length := by
      refine Disk.totalSize_add hname (AList.lookup_erase _ _) hlookup fun name' _ hne => ?_
      rw [AList.lookup_erase_ne hne]
    have hdestroy : Store.destroyFile faults s name =
        { s with
          disk := s.disk.erase name
          finalizedBytes := Disk.totalSize (s.disk.erase name) isFinalizedFileName } := by
      have hsize : s.fileSize name = bytes.length := by
        rw [Store.fileSize, hlookup]
        rfl
      rw [Store.destroyFile, Store.delete, hdelete, hsize, subSize, hbytes, hadd,
        if_pos (Nat.le_add_left _ _), Nat.add_sub_cancel]
      rfl
    rw [List.foldl_cons, hdestroy]
    have hrest : ∀ name' ∈ names, isFinalizedFileName name' = true ∧
        (AList.lookup name' (s.disk.erase name)).isSome := by
      intro name' hmem
      obtain ⟨hname', hsome'⟩ := hnames name' (List.mem_cons_of_mem _ hmem)
      have hne : name' ≠ name := fun heq => hnot (heq ▸ hmem)
      rw [AList.lookup_erase_ne hne]
      exact ⟨hname', hsome'⟩
    obtain ⟨disk, heq, hdisk⟩ := ih
      { s with
        disk := s.disk.erase name
        finalizedBytes := Disk.totalSize (s.disk.erase name) isFinalizedFileName }
      hnodup hrest rfl
    refine ⟨disk, heq, fun name' => ?_⟩
    rw [hdisk, Disk.lookup_erase]
    simp only [List.mem_cons]
    grind

/-- Destroying a holder removes its files and the observations in them. -/
theorem Store.Inv.destroy (h : s.Inv strict pb encrypt) (i : ℕ) {faults : Faults}
    (hdelete : faults.deleteFails = false) : (s.destroy i faults).Inv strict pb encrypt := by
  rw [Store.destroy]
  split
  · exact h
  · rename_i holder hholder
    have hperm := owned_perm hholder
    have hnodup := List.nodup_append.mp (hperm.nodup_iff.mp h.owned_nodup)
    have howned (name : String) (hmem : name ∈ holder.fileNames) :=
      h.owned_taken name (hperm.mem_iff.mpr (List.mem_append_left _ hmem))
    have hfinalized (name : String) (hmem : name ∈ holder.fileNames) :
        isFinalizedFileName name = true :=
      h.generated name (h.taken_generated name (howned name hmem).1)
    obtain ⟨disk, heq, hdisk⟩ := foldl_destroyFile hdelete s hnodup.1
      (fun name hmem => ⟨hfinalized name hmem, (howned name hmem).2.2⟩) h.finalizedBytes
    rw [heq]
    have hactive : kActiveFileName ∉ holder.fileNames := fun hmem =>
      ne_kActiveFileName (hfinalized _ hmem) rfl
    have hother {name : String} (hmem : name ∉ holder.fileNames) :
        disk.lookup name = s.disk.lookup name := by
      rw [hdisk, if_neg hmem]
    have hplacedIn {name : String} (hmem : name ∉ holder.fileNames) :
        (((s.placed.filter (·.1 ∉ holder.fileNames)).filter fun p => p.1 = name).map Prod.snd) =
          s.placedIn name := by
      rw [List.filter_filter, Store.placedIn]
      refine congrArg (List.map Prod.snd) (List.filter_congr fun p _ => ?_)
      grind
    exact {
      enabled := h.enabled
      active := h.active.congr rfl rfl rfl (hplacedIn hactive) (hother hactive)
      files := by
        intro name bytes hbytes hne
        have hmem : name ∉ holder.fileNames := fun hmem => by
          simp [hdisk, hmem] at hbytes
        rw [Store.FileInv, Store.placedIn, hplacedIn hmem]
        exact h.files name bytes ((hother hmem).symm.trans hbytes) hne
      placed := by
        intro p hp hne
        obtain ⟨hp, hmem⟩ := List.mem_filter.mp hp
        exact (hother (of_decide_eq_true hmem)).symm ▸ h.placed p hp hne
      owned_taken := by
        intro name hmem
        obtain ⟨htaken, hne, hsome⟩ := h.owned_taken name (hperm.mem_iff.mpr
          (List.mem_append_right _ hmem))
        have hnot : name ∉ holder.fileNames := fun hmem' => hnodup.2.2 name hmem' name hmem rfl
        exact ⟨htaken, hne, (hother hnot).symm ▸ hsome⟩
      taken_owned := by
        intro name hmem hsome
        have hnot : name ∉ holder.fileNames := fun hmem' => by
          simp [hdisk, hmem'] at hsome
        have howned' := hperm.mem_iff.mp (h.taken_owned name hmem (hother hnot ▸ hsome))
        exact (List.mem_append.mp howned').resolve_left hnot
      owned_nodup := hnodup.2.1
      taken_generated := h.taken_generated
      generated := h.generated
      finalizedBytes := rfl
      conserved := by
        refine h.conserved.trans ?_
        rw [List.append_assoc, ← List.map_append]
        refine List.Perm.append_left _ (List.Perm.map _ ?_)
        have hfilter := List.filter_append_perm (fun p => p.1 ∈ holder.fileNames) s.placed
        simpa using hfilter.symm
      cached := by
        intro holder' hholder' envelope henvelope
        have hmem := List.mem_of_mem_eraseIdx hholder'
        have hread : readFiles pb encrypt disk holder'.fileNames =
            readFiles pb encrypt s.disk holder'.fileNames :=
          readFiles_congr fun name hname => hother fun hname' =>
            hnodup.2.2 name hname' name (List.mem_flatMap.mpr ⟨holder', hholder', hname⟩) rfl
        rw [h.cached holder' hmem envelope henvelope, ← hread] }

/-! ### Restarting -/

/-- A new store, but for what is left of the active file. -/
theorem Store.Inv.reopen (h : s.Inv strict pb encrypt) (hholders : s.holders = []) :
    ({ s with
        filesTaken := ∅
        finalizedBytes := s.closeActiveFile.disk.totalSize isFinalizedFileName } :
      Store M E U).Inv strict pb encrypt where
  enabled := h.enabled
  active := h.active.congr rfl rfl rfl rfl rfl
  files := h.files
  placed := h.placed
  owned_taken := by
    intro name hmem
    simp [Store.owned, hholders] at hmem
  taken_owned := by simp
  owned_nodup := h.owned_nodup
  taken_generated := by simp
  generated := h.generated
  finalizedBytes := Disk.totalSize_congr fun name hname =>
    lookup_closeActiveFile s (ne_kActiveFileName hname)
  conserved := h.conserved
  cached := h.cached

theorem finalizeClosedFile_lastWrittenMetadata (s : Store M E U) (newName : String)
    (faults : Faults) (lastWrittenMetadata : Bytes) :
    (({ s with lastWrittenMetadata } : Store M E U).finalizeClosedFile newName faults).2 =
      { (s.finalizeClosedFile newName faults).2 with lastWrittenMetadata } := by
  simp only [Store.finalizeClosedFile, Store.delete, Store.renameActiveFile, Store.fileSize]
  split
  · rfl
  · split_ifs <;> rfl
  · split_ifs
    · rfl
    · split <;> rfl

/-- The constructor finalizes the active file that the destructor has closed. -/
theorem restart_eq (s : Store M E U) (henabled : s.isDisabled = false) (newName : String)
    (faults : Faults) :
    s.restart newName faults =
      { (({ s with
          filesTaken := ∅
          finalizedBytes := s.closeActiveFile.disk.totalSize isFinalizedFileName } :
        Store M E U).finalizeActiveFile newName faults).2 with lastWrittenMetadata := [] } := by
  set t : Store M E U := { s.closeActiveFile with
    isDisabled := false
    metadataWritten := false
    lastWrittenMetadata := []
    filesTaken := ∅
    finalizedBytes := s.closeActiveFile.disk.totalSize isFinalizedFileName } with ht
  set u : Store M E U := { s with
    filesTaken := ∅
    finalizedBytes := s.closeActiveFile.disk.totalSize isFinalizedFileName } with hu
  have hclosed : ({ t.closeActiveFile with metadataWritten := false } : Store M E U) =
      { ({ u.closeActiveFile with metadataWritten := false } : Store M E U) with
        lastWrittenMetadata := [] } := by
    rw [ht, hu]
    simp only [Store.closeActiveFile, henabled]
  have hrestart : s.restart newName faults =
      ({ t.closeActiveFile with metadataWritten := false }.finalizeClosedFile newName faults).2 :=
    rfl
  rw [hrestart, hclosed, finalizeClosedFile_lastWrittenMetadata]
  rfl

theorem finalizeActiveFile_closed (s : Store M E U) (newName : String) (faults : Faults) :
    (s.finalizeActiveFile newName faults).2.activeFile = none := by
  have hcases := finalizeActiveFile_cases s newName faults
  dsimp only at hcases
  rcases hcases with ⟨_, heq⟩ | ⟨_, heq⟩ | ⟨_, _, _, ⟨_, heq⟩ | ⟨_, _, _, heq⟩⟩ <;> rw [heq]
  · rfl
  · rw [Store.delete]
    split_ifs <;> rfl
  · rfl
  · rfl

theorem Store.Inv.restart (h : s.Inv strict pb encrypt) (hpb : pb.Lawful)
    (hholders : s.holders = []) {newName : String} (hnew : s.Fresh newName) {faults : Faults}
    (hfaults : faults = { renameFails := faults.renameFails })
    (hfails : faults.renameFails = true → s.placedIn kActiveFileName = [] ∧ ¬strict) :
    (s.restart newName faults).Inv strict pb encrypt := by
  have hinv := (h.reopen hholders).finalizeActiveFile hpb ⟨hnew.1, hnew.2⟩
    (by rw [hfaults]) hfails
  have hactive := hinv.active
  rw [restart_eq s h.enabled]
  refine hinv.frame (fun _ _ => rfl) (fun _ => id) hinv.generated ?_
  rw [Store.ActiveInv] at hactive ⊢
  rw [finalizeActiveFile_closed] at hactive
  dsimp only
  rw [finalizeActiveFile_closed]
  exact hactive

/-! ### Runs -/

/-- The observations in an open active file are those whose place it is. -/
theorem Store.Inv.observationsIn_active (h : s.Inv strict pb encrypt) (hpb : pb.Lawful) :
    observationsIn pb (s.activeFile.getD []) = s.placedIn kActiveFileName := by
  have hactive := h.active
  rw [Store.ActiveInv] at hactive
  cases hopen : s.activeFile with
  | none =>
    rw [hopen] at hactive
    rw [hactive.2.1]
    exact observationsIn_encodeAll hpb []
  | some bytes =>
    rw [hopen] at hactive
    obtain ⟨records, rfl, hrecords⟩ := hactive
    rw [← hrecords.observations]
    exact observationsIn_encodeAll hpb records

/-- A name that is generated at some time and with some random number is a new one. -/
def Store.NewName (s : Store M E U) (now random : ℕ) : Prop :=
  kMinRandomNumber ≤ random ∧ random ≤ kMaxRandomNumber ∧
    generateFilename now random ∉ s.generated

theorem Store.NewName.fresh {now random : ℕ} (h : s.NewName now random) :
    s.Fresh (generateFilename now random) :=
  ⟨isFinalizedFileName_generateFilename now h.1 h.2.1, h.2.2⟩

variable (strict pb) in
/-- The only failure is that of a rename, while the active file holds no observation. -/
def Store.Survives (s : Store M E U) (faults : Faults) : Prop :=
  faults = { renameFails := faults.renameFails } ∧
    (faults.renameFails = true → observationsIn pb (s.activeFile.getD []) = [] ∧ ¬strict)

variable (pb limits) in
/-- An unencrypted observation that is to be written right after another one, with no metadata
between them, can be parsed into it. An observation that is too big, or for which the store is too
full, is not written. -/
def Op.MergesSafely (s : Store M E U) : Op M E U → Prop
  | .storeObservation (some (.unencrypted u')) m _ _ _ =>
    pb.byteSize (some (.unencrypted u')) ≤ limits.maxBytesPerObservation →
    s.size + pb.byteSize (some (.unencrypted u')) ≤ limits.maxBytesTotal →
    ∀ u, pb.metadataString m = s.lastWrittenMetadata →
      (recordsIn pb (s.activeFile.getD [])).getLast? = some (.unencryptedObservation u) →
      pb.mergeUnencrypted u u' = u'
  | _ => True

variable (strict pb limits) in
/-- An operation that keeps the invariant in some state. -/
def Op.Admissible (s : Store M E U) (op : Op M E U) : Prop :=
  match op with
  | .storeObservation _ _ now random faults =>
    s.NewName now random ∧ s.Survives strict pb faults ∧ (strict → op.MergesSafely pb limits s)
  | .takeNextEnvelopeHolder now random faults =>
    s.NewName now random ∧ s.Survives strict pb faults
  | .returnEnvelopeHolder _ | .mergeWith _ _ | .getEnvelope _ => True
  | .destroy _ faults => faults.deleteFails = false
  | .restart now random faults =>
    s.NewName now random ∧ s.Survives strict pb faults ∧ s.holders = []

/-- **Every admissible operation** keeps the invariant. -/
theorem Op.Admissible.inv {op : Op M E U} (hop : op.Admissible strict pb limits s) (hpb : pb.Lawful)
    (h : s.Inv strict pb encrypt) : (op.apply pb encrypt limits s).Inv strict pb encrypt := by
  have hplaced := h.observationsIn_active hpb
  cases op with
  | storeObservation observation m now random faults =>
    obtain ⟨hnew, ⟨hfaults, hfails⟩, hsafe⟩ := hop
    refine h.storeObservation hpb hnew.fresh hfaults hfails
      fun hstrict u u' hu hbig hfull hsame hlast => ?_
    subst hu
    exact hsafe hstrict hbig hfull u hsame hlast
  | takeNextEnvelopeHolder now random faults =>
    obtain ⟨hnew, hfaults, hfails⟩ := hop
    exact h.takeNextEnvelopeHolder hpb hnew.fresh hfaults (hplaced ▸ hfails)
  | returnEnvelopeHolder i => exact h.returnEnvelopeHolder i
  | mergeWith i j => exact h.mergeWith i j
  | getEnvelope i => exact h.getEnvelope i
  | destroy i faults => exact h.destroy i hop
  | restart now random faults =>
    obtain ⟨hnew, ⟨hfaults, hfails⟩, hholders⟩ := hop
    exact h.restart hpb hholders hnew.fresh hfaults (hplaced ▸ hfails)

variable (pb encrypt limits) in
/-- An operation with some property is applied. -/
def OpStep (P : Store M E U → Op M E U → Prop) (s s' : Store M E U) : Prop :=
  ∃ op, P s op ∧ s' = op.apply pb encrypt limits s

/-- The invariant holds in every state that a run of admissible operations reaches from an empty
directory. -/
theorem Store.Inv.of_run (hpb : pb.Lawful) {P : Store M E U → Op M E U → Prop}
    (hP : ∀ s op, P s op → op.Admissible strict pb limits s)
    (hrun : Relation.ReflTransGen (OpStep pb encrypt limits P) {} s) :
    s.Inv strict pb encrypt := by
  induction hrun with
  | refl => exact Store.Inv.init
  | tail _ hstep ih =>
    obtain ⟨op, hop, rfl⟩ := hstep
    exact (hP _ op hop).inv hpb ih

end Cobalt.ObservationStore
