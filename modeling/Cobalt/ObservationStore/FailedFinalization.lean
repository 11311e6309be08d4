import Cobalt.ObservationStore.FileConservation

/-!
# A failed finalization

`FinalizeActiveFile` closes the active file before it renames it. If the rename fails, the file
stays where it is but is no longer counted in the size of the store, and the next observation is
written over it from its start. Observations that were accepted into the file are then lost.

Nothing is lost if a rename fails only while the active file holds no observation. What such a
failure leaves behind comes after the records that are written later.

## Main definitions

* `Op.OnlyRenameFails`: the operations of a run in which renames can fail.
* `Op.FailsEmpty`: a rename does not fail while there are observations in the active file.
* `Store.Survived`: nothing that was accepted is lost.

## Main results

* `survived_of_run`: nothing is lost in a run in which renames fail only while the active file holds
  no observation.
* `lost_after_failed_rename`: without the condition an observation is lost.
-/

namespace Cobalt.ObservationStore

variable {M E U : Type} {pb : Protobuf M E U} {encrypt : U → Option E} {limits : Limits}
  {s : Store M E U}

/-- An operation in which nothing fails but the rename. A restart is orderly. -/
def Op.OnlyRenameFails (s : Store M E U) : Op M E U → Prop
  | .storeObservation _ _ now random faults | .takeNextEnvelopeHolder now random faults =>
    s.NewName now random ∧ faults = { renameFails := faults.renameFails }
  | .returnEnvelopeHolder _ | .mergeWith _ _ | .getEnvelope _ => True
  | .destroy _ faults => faults = {}
  | .restart now random faults =>
    s.NewName now random ∧ faults = { renameFails := faults.renameFails } ∧ s.holders = []

variable (pb)

/-- A rename that fails does so while no observation has been written to the active file. -/
def Op.FailsEmpty (s : Store M E U) : Op M E U → Prop
  | .storeObservation _ _ _ _ faults | .takeNextEnvelopeHolder _ _ faults
  | .restart _ _ faults =>
    faults.renameFails = true → observationsIn pb (s.activeFile.getD []) = []
  | _ => True

/-- The observations that are written in a file when the active file is closed. -/
def Store.closedContents (s : Store M E U) (name : String) : List (M × Observation E U) :=
  s.closeActiveFile.contents pb name

/-- The bytes of the records of some observations. -/
def recordBytes (l : List (M × Observation E U)) : ℕ :=
  (l.map fun p => (pb.serializeDelimited (p.2.contents (M := M))).length).sum

/-- Nothing is lost. Every accepted observation was in a destroyed holder or has a place. In the
file that is its place, the observations that have this place can be read, in order and before
anything else, and the size of the store is at least that of their records. -/
structure Store.Survived (s : Store M E U) : Prop where
  accepted : s.accepted.Perm (s.destroyed ++ s.placed.map Prod.snd)
  readable : ∀ name, s.placedIn name <+: s.closedContents pb name
  size : recordBytes pb (s.placed.map Prod.snd) ≤ s.size

variable {pb}

theorem Op.OnlyRenameFails.admissible {op : Op M E U} (hop : op.OnlyRenameFails s)
    (hempty : op.FailsEmpty pb s) : op.Admissible False pb limits s := by
  cases op with
  | storeObservation observation m now random faults =>
    exact ⟨hop.1, ⟨hop.2, fun hfails => ⟨hempty hfails, id⟩⟩, False.elim⟩
  | takeNextEnvelopeHolder now random faults =>
    exact ⟨hop.1, hop.2, fun hfails => ⟨hempty hfails, id⟩⟩
  | returnEnvelopeHolder i => trivial
  | mergeWith i j => trivial
  | getEnvelope i => trivial
  | destroy i faults =>
    obtain rfl : faults = {} := hop
    rfl
  | restart now random faults =>
    exact ⟨hop.1, ⟨hop.2.1, fun hfails => ⟨hempty hfails, id⟩⟩, hop.2.2⟩

/-! ### What is in the files -/

/-- The observations in some records take up no more than the records. -/
theorem recordBytes_observationsOf_le (current : Option M) (records : List (Contents M E U)) :
    recordBytes pb (observationsOf current records) ≤ (encodeAll pb records).length := by
  induction records generalizing current with
  | nil => rfl
  | cons c records ih =>
    rw [encodeAll, List.flatMap_cons, List.length_append]
    cases c with
    | metaData m => exact (ih (some m)).trans (Nat.le_add_left _ _)
    | encryptedObservation e =>
      cases current with
      | none => exact (ih none).trans (Nat.le_add_left _ _)
      | some m => exact Nat.add_le_add_left (ih (some m)) _
    | unencryptedObservation u =>
      cases current with
      | none => exact (ih none).trans (Nat.le_add_left _ _)
      | some m => exact Nat.add_le_add_left (ih (some m)) _

/-- A file that starts with some records. -/
theorem observationsOf_prefix (hpb : pb.Lawful) (records : List (Contents M E U)) (tail : Bytes) :
    observationsOf none records <+: observationsIn pb (encodeAll pb records ++ tail) := by
  rw [observationsIn, recordsIn_encodeAll_append hpb, observationsOf_append]
  exact List.prefix_append _ _

/-- Every file, when the active one is closed, starts with the records of the observations whose
place it is. -/
theorem Store.Inv.closed_file {strict : Prop} (h : s.Inv strict pb encrypt) {name : String}
    {bytes : Bytes} (hbytes : s.closeActiveFile.disk.lookup name = some bytes) :
    ∃ records tail, bytes = encodeAll pb records ++ tail ∧
      observationsOf none records = s.placedIn name := by
  by_cases hne : name = kActiveFileName
  · subst hne
    obtain ⟨records, tail, hrecords, _, hobs, _⟩ := h.closed hbytes
    exact ⟨records, tail, hrecords, hobs⟩
  · rw [lookup_closeActiveFile s hne] at hbytes
    obtain ⟨_, _, records, tail, hrecords, _, hobs, _⟩ := h.files name bytes hbytes hne
    exact ⟨records, tail, hrecords, hobs⟩

/-- A name without a file is the place of no observation. -/
theorem Store.Inv.placedIn_eq_nil {strict : Prop} (h : s.Inv strict pb encrypt) {name : String}
    (hnone : s.closeActiveFile.disk.lookup name = none) : s.placedIn name = [] := by
  by_cases hne : name = kActiveFileName
  · subst hne
    have hactive := h.active
    rw [Store.ActiveInv, activeFile_eq_none_of_closed hnone] at hactive
    exact hactive.2.1
  · rw [lookup_closeActiveFile s hne] at hnone
    rw [Store.placedIn, List.map_eq_nil_iff, List.filter_eq_nil_iff]
    intro p hp heq
    have hname : p.1 = name := of_decide_eq_true heq
    have hsome := h.placed p hp (hname ▸ hne)
    rw [hname, hnone] at hsome
    exact absurd hsome (by simp)

theorem Store.Inv.readable {strict : Prop} (h : s.Inv strict pb encrypt) (hpb : pb.Lawful)
    (name : String) : s.placedIn name <+: s.closedContents pb name := by
  rw [Store.closedContents, Store.contents]
  cases hlookup : s.closeActiveFile.disk.lookup name with
  | some bytes =>
    obtain ⟨records, tail, rfl, hobs⟩ := h.closed_file hlookup
    rw [← hobs]
    exact observationsOf_prefix hpb records tail
  | none =>
    rw [h.placedIn_eq_nil hlookup]
    exact List.nil_prefix

/-! ### The size -/

theorem recordBytes_append (l l' : List (M × Observation E U)) :
    recordBytes pb (l ++ l') = recordBytes pb l + recordBytes pb l' := by
  rw [recordBytes, List.map_append, List.sum_append, recordBytes, recordBytes]

theorem recordBytes_flatMap_le {names : List String} {f : String → List (M × Observation E U)}
    {g : String → ℕ} (h : ∀ name ∈ names, recordBytes pb (f name) ≤ g name) :
    recordBytes pb (names.flatMap f) ≤ (names.map g).sum := by
  induction names with
  | nil => exact Nat.le_refl 0
  | cons name names ih =>
    rw [List.flatMap_cons, recordBytes_append, List.map_cons, List.sum_cons]
    exact Nat.add_le_add (h name List.mem_cons_self)
      (ih fun name' hmem => h name' (List.mem_cons_of_mem _ hmem))

/-- The size of the store is at least that of the records of the observations that have a place. -/
theorem Store.Inv.recordBytes_le_size {strict : Prop} (h : s.Inv strict pb encrypt) :
    recordBytes pb (s.placed.map Prod.snd) ≤ s.size := by
  have hactive : recordBytes pb (s.placedIn kActiveFileName) ≤ s.byteCount := by
    have hinv := h.active
    rw [Store.ActiveInv] at hinv
    rw [Store.byteCount]
    cases hopen : s.activeFile with
    | none =>
      rw [hopen] at hinv
      rw [hinv.2.1]
      exact Nat.le_refl 0
    | some bytes =>
      rw [hopen] at hinv
      obtain ⟨records, rfl, hrecords⟩ := hinv
      rw [← hrecords.observations]
      exact recordBytes_observationsOf_le none records
  have hfiles : recordBytes pb (s.listFinalizedFiles.flatMap s.placedIn) ≤ s.finalizedBytes := by
    rw [h.finalizedBytes]
    refine recordBytes_flatMap_le fun name hmem => ?_
    obtain ⟨hsome, hname⟩ := Disk.mem_keys_filter.mp hmem
    obtain ⟨bytes, hbytes⟩ := Option.isSome_iff_exists.mp hsome
    obtain ⟨_, _, records, tail, rfl, _, hobs, _⟩ :=
      h.files name bytes hbytes (ne_kActiveFileName hname)
    rw [hbytes, ← hobs, Option.getD_some, List.length_append]
    exact (recordBytes_observationsOf_le none records).trans (Nat.le_add_right _ _)
  have hperm : (s.placed.map Prod.snd).Perm (s.placedIn kActiveFileName ++
      s.listFinalizedFiles.flatMap s.placedIn) := by
    refine h.placed_perm.trans (List.Perm.append_left _ ?_)
    rw [← List.flatMap_append]
    exact (h.files_perm.flatMap_right _).symm
  have hsum : recordBytes pb (s.placed.map Prod.snd) =
      recordBytes pb (s.placedIn kActiveFileName ++ s.listFinalizedFiles.flatMap s.placedIn) :=
    (hperm.map _).sum_nat
  rw [hsum, recordBytes_append, Store.size, Nat.add_comm]
  exact Nat.add_le_add hfiles hactive

/-- **Surviving a failed finalization.** In every state that is reached from an empty directory by
operations in which a rename fails only while the active file holds no observation, nothing that was
accepted is lost. -/
theorem survived_of_run (hpb : pb.Lawful)
    (hrun : Relation.ReflTransGen (OpStep pb encrypt limits fun s op =>
      op.OnlyRenameFails s ∧ op.FailsEmpty pb s) {} s) : s.Survived pb := by
  have hinv : s.Inv False pb encrypt :=
    Store.Inv.of_run hpb (fun _ _ hop => hop.1.admissible hop.2) hrun
  exact ⟨hinv.conserved, hinv.readable hpb, hinv.recordBytes_le_size⟩

/-- A holder is asked for, and the rename fails. -/
def failToTakeFlags : Op Bool Bool Bool :=
  .takeNextEnvelopeHolder 0 kMinRandomNumber { renameFails := true }

/-- An observation is stored, a millisecond later. -/
def storeFlagLater (o : Option (Observation Bool Bool)) : Op Bool Bool Bool :=
  .storeObservation o true 1 kMinRandomNumber {}

/-- A rename fails after metadata were written without an observation. The next observation is
written over them. -/
theorem survived_of_run_metadata :
    let s₁ := applyFlags (storeFlagLater none) {}
    let s₂ := applyFlags failToTakeFlags s₁
    let s := applyFlags (storeFlagLater (some (.encrypted true))) s₂
    s.accepted = [(true, .encrypted true)] ∧ s.Survived flagProtobuf := by
  intro s₁ s₂ s
  have hfirst : (storeFlagLater none).OnlyRenameFails ({} : Store Bool Bool Bool) :=
    ⟨⟨by decide, by decide, by decide +kernel⟩, rfl⟩
  have hfail : failToTakeFlags.OnlyRenameFails s₁ := ⟨⟨by decide, by decide, by decide +kernel⟩, rfl⟩
  have hempty : observationsIn flagProtobuf (s₁.activeFile.getD []) = [] := by decide +kernel
  have hlast : (storeFlagLater (some (.encrypted true))).OnlyRenameFails s₂ :=
    ⟨⟨by decide, by decide, by decide +kernel⟩, rfl⟩
  have hrun : Relation.ReflTransGen (OpStep flagProtobuf some ⟨100, 100, 100⟩ fun s op =>
      op.OnlyRenameFails s ∧ op.FailsEmpty flagProtobuf s) {} s :=
    ((Relation.ReflTransGen.single ⟨_, ⟨hfirst, by simp [storeFlagLater, Op.FailsEmpty]⟩, rfl⟩).tail
      ⟨_, ⟨hfail, fun _ => hempty⟩, rfl⟩).tail
      ⟨_, ⟨hlast, by simp [storeFlagLater, Op.FailsEmpty]⟩, rfl⟩
  exact ⟨by decide +kernel, survived_of_run flagProtobuf_lawful hrun⟩

/-- A failed rename loses an observation. After the rename the size of the store is 0. The
second observation is written over the first one, which cannot be read any more. -/
theorem lost_after_failed_rename :
    let s₁ := applyFlags (storeFlag (.encrypted true)) {}
    let s₂ := applyFlags failToTakeFlags s₁
    let s := applyFlags (storeFlagLater (some (.encrypted false))) s₂
    (storeFlag (.encrypted true)).OnlyRenameFails {} ∧ failToTakeFlags.OnlyRenameFails s₁ ∧
      (storeFlagLater (some (.encrypted false))).OnlyRenameFails s₂ ∧
      s₂.accepted = [(true, .encrypted true)] ∧ s₂.destroyed = [] ∧ s₂.size = 0 ∧
      s.accepted = [(true, .encrypted true), (true, .encrypted false)] ∧ s.destroyed = [] ∧
      s.disk.keys = [kActiveFileName] ∧
      s.closedContents flagProtobuf kActiveFileName = [(true, .encrypted false)] := by
  refine ⟨⟨⟨by decide, by decide, by decide +kernel⟩, rfl⟩,
    ⟨⟨by decide, by decide, by decide +kernel⟩, rfl⟩,
    ⟨⟨by decide, by decide, by decide +kernel⟩, rfl⟩, ?_⟩
  decide +kernel

end Cobalt.ObservationStore
