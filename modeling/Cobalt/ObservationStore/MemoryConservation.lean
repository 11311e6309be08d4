import Cobalt.ObservationStore.FileConservation
import Cobalt.ObservationStore.MemoryObservationStore
import Mathlib.Logic.Relation

/-!
# Conservation and bounds of the memory observation store

An observation that a `MemoryObservationStore` accepts is then in exactly one place: the current
envelope, a finalized envelope or an outstanding holder, until the holder is destroyed. A ledger is
kept beside the store. It records the accepted and the destroyed observations, and for each holder
the observations that left the store when the holder was taken.

The sizes are bounded too. The size of the store is compared with the limit before an observation is
added, and a holder that is returned is added without a comparison, so that the bound has one
observation and one envelope more than the limit.

## Main definitions

* `EnvelopeMaker.pairs`: the observations in an envelope, each with its metadata.
* `EnvelopeMaker.getEnvelope`, `Lists`: the envelope of a holder, and what it should be.
* `Ledger`, `MemoryOp.record`: the store with what is recorded of a run.
* `MemoryStore.Bounded`: the bounds.

## Main results

* `EnvelopeMaker.WF.mergeWith`: merging two envelopes loses and duplicates nothing.
* `memory_conserved`: the conservation law holds in every state of every run.
* `memory_bounded`: with at most one outstanding holder the bounds hold in every state of every run.
-/

namespace Cobalt.ObservationStore

variable {M E U : Type}

/-! ### Observations in an envelope -/

/-- An observation with its metadata. -/
abbrev Pair (M E U : Type) : Type := M × Option (Observation E U)

/-- The `batch_map_` of an `EnvelopeMaker`. -/
abbrev BatchMap (M E U : Type) : Type := ProtoMap Bytes (M × List (Option (Observation E U)))

/-- The observations of a batch. -/
def pairsIn (batch : M × List (Option (Observation E U))) : List (Pair M E U) :=
  batch.2.map fun o => (batch.1, o)

/-- The observations of all batches. -/
def pairsOf (batchMap : BatchMap M E U) : List (Pair M E U) :=
  batchMap.entries.flatMap fun e => pairsIn e.2

/-- The observations in an envelope. -/
def EnvelopeMaker.pairs (maker : EnvelopeMaker M E U) : List (Pair M E U) := pairsOf maker.batchMap

section Envelope

variable (pb : Protobuf M E U) (encrypt : U → Option E)

/-- What becomes of a `StoredObservation` in an envelope. -/
def Protobuf.toEncryptedMessage (o : Option (Observation E U)) : E :=
  (o.map (pb.toEncrypted encrypt)).getD pb.noEncrypted

/-- `GetEnvelope`, which fills the batches from the last one to the first one. -/
def EnvelopeMaker.getEnvelope (maker : EnvelopeMaker M E U) : Envelope M E :=
  (maker.batchMap.entries.map fun e =>
    { metaData := e.2.1
      encryptedObservation := e.2.2.map (pb.toEncryptedMessage encrypt) }).reverse

/-- An envelope has exactly one batch for each serialized metadata of some observations and lists
exactly these observations, each once and under its metadata. -/
structure Lists (envelope : Envelope M E) (pairs : List (Pair M E U)) : Prop where
  batches : (envelope.map fun batch => pb.metadataString batch.metaData).Nodup
  metadata : ∀ m, (∃ batch ∈ envelope, pb.metadataString batch.metaData = pb.metadataString m) ↔
    ∃ p ∈ pairs, pb.metadataString p.1 = pb.metadataString m
  listed : (listed envelope).Perm (pairs.map fun p => (p.1, pb.toEncryptedMessage encrypt p.2))

end Envelope

/-! ### Well-formed envelopes -/

section WellFormed

variable {pb : Protobuf M E U} {encrypt : U → Option E} {limits : Limits}

/-- Every batch is found under its serialized metadata and is not empty. -/
def ByMetadata (pb : Protobuf M E U) (batchMap : BatchMap M E U) : Prop :=
  ∀ e ∈ batchMap.entries, e.1 = pb.metadataString e.2.1 ∧ e.2.2 ≠ []

/-- What an envelope keeps: its batches are found by their metadata, its size is that of its
observations, and each of these has a field that is set. -/
structure EnvelopeMaker.WF (pb : Protobuf M E U) (maker : EnvelopeMaker M E U) : Prop where
  batches : ByMetadata pb maker.batchMap
  numBytes : maker.numBytes = (maker.pairs.map fun p => pb.byteSize p.2).sum
  observations : ∀ p ∈ maker.pairs, p.2.isSome

theorem EnvelopeMaker.WF.empty : EnvelopeMaker.WF pb ({} : EnvelopeMaker M E U) :=
  ⟨by rintro e ⟨⟩, rfl, by rintro p ⟨⟩⟩

@[simp] theorem EnvelopeMaker.pairs_empty : ({} : EnvelopeMaker M E U).pairs = [] := rfl

/-- An envelope without bytes is empty. -/
theorem EnvelopeMaker.WF.pairs_eq_nil {maker : EnvelopeMaker M E U} (h : maker.WF pb)
    (hpos : ∀ o, 0 < pb.byteSize (some o)) (hzero : maker.numBytes = 0) : maker.pairs = [] := by
  refine List.eq_nil_iff_forall_not_mem.mpr fun p hp => ?_
  obtain ⟨o, ho⟩ := Option.isSome_iff_exists.mp (h.observations p hp)
  have hsizes := List.sum_eq_zero_iff_forall_eq_nat.mp (h.numBytes.symm.trans hzero)
  have hsize : pb.byteSize p.2 = 0 := hsizes _ (List.mem_map_of_mem hp)
  exact absurd (hpos o) (by rw [← ho, hsize]; exact Nat.lt_irrefl 0)

theorem ByMetadata.insert {batchMap : BatchMap M E U} (h : ByMetadata pb batchMap) {key : Bytes}
    {batch : M × List (Option (Observation E U))} (hkey : key = pb.metadataString batch.1)
    (hne : batch.2 ≠ []) : ByMetadata pb (batchMap.insert key batch) := by
  intro e he
  rcases ProtoMap.mem_entries_of_mem_insert he with rfl | hmem
  · exact ⟨hkey, hne⟩
  · exact h e hmem

/-- Metadata with the key of a batch are the metadata of the batch. -/
theorem ByMetadata.metadata_eq {batchMap : BatchMap M E U} (h : ByMetadata pb batchMap)
    (hpb : Function.Injective pb.metadataString) {m : M}
    {batch : M × List (Option (Observation E U))}
    (hlookup : batchMap.lookup (pb.metadataString m) = some batch) : batch.1 = m :=
  hpb (h ⟨_, batch⟩ (ProtoMap.mem_entries_iff.mpr hlookup)).1.symm

/-- Observations that are added at the end of a batch, which is made if there is none. -/
theorem pairsOf_insert_perm {batchMap : BatchMap M E U} (h : ByMetadata pb batchMap)
    (hpb : Function.Injective pb.metadataString) (m : M) (os : List (Option (Observation E U))) :
    (pairsOf (batchMap.insert (pb.metadataString m)
        (m, ((batchMap.lookup (pb.metadataString m)).elim [] Prod.snd) ++ os))).Perm
      (pairsOf batchMap ++ pairsIn (m, os)) := by
  rw [pairsOf, ProtoMap.entries_insert_eq_cons, List.flatMap_cons, pairsOf]
  cases hlookup : batchMap.lookup (pb.metadataString m) with
  | none =>
    rw [ProtoMap.erase_eq_self hlookup, Option.elim_none, List.nil_append]
    exact List.perm_append_comm
  | some batch =>
    have hentries := (ProtoMap.entries_perm_cons hlookup).flatMap_right fun e => pairsIn e.2
    have hbatch : pairsIn (m, batch.2) = pairsIn batch := by
      rw [← h.metadata_eq hpb hlookup]
    rw [List.flatMap_cons] at hentries
    simp only [Option.elim_some, pairsIn, List.map_append, List.append_assoc] at hbatch hentries ⊢
    rw [hbatch]
    refine (List.Perm.append_left _ List.perm_append_comm).trans ?_
    rw [← List.append_assoc]
    exact hentries.symm.append_right _

theorem EnvelopeMaker.storeObservation_eq (maker : EnvelopeMaker M E U)
    (o : Option (Observation E U)) (m : M) :
    maker.storeObservation pb limits o m =
      if maker.canAddObservation pb limits o = .kOk then
        (.kOk,
          { batchMap := maker.batchMap.update (pb.metadataString m) (m, []) fun batch =>
              (batch.1, batch.2 ++ [o])
            numBytes := maker.numBytes + pb.byteSize o })
      else (maker.canAddObservation pb limits o, maker) := by
  rw [EnvelopeMaker.storeObservation]
  cases maker.canAddObservation pb limits o <;> rfl

variable (limits) in
/-- `StoreObservation` adds the observation, or leaves the envelope as it is. -/
theorem EnvelopeMaker.WF.storeObservation {maker : EnvelopeMaker M E U} (h : maker.WF pb)
    (hpb : Function.Injective pb.metadataString) (o : Observation E U) (m : M) :
    let r := maker.storeObservation pb limits (some o) m
    r.2.WF pb ∧ r.2.pairs.Perm (maker.pairs ++ if r.1 = .kOk then [(m, some o)] else []) := by
  by_cases hstatus : maker.canAddObservation pb limits (some o) = .kOk
  · have hupdate : maker.batchMap.update (pb.metadataString m) (m, [])
          (fun batch => (batch.1, batch.2 ++ [some o])) =
        maker.batchMap.insert (pb.metadataString m)
          (m, ((maker.batchMap.lookup (pb.metadataString m)).elim [] Prod.snd) ++ [some o]) := by
      rw [ProtoMap.update]
      cases hlookup : maker.batchMap.lookup (pb.metadataString m) with
      | none => rfl
      | some batch =>
        have hm := h.batches.metadata_eq hpb hlookup
        subst hm
        rfl
    have hperm := pairsOf_insert_perm h.batches hpb m [some o]
    simp only [EnvelopeMaker.storeObservation_eq, if_pos hstatus, hupdate]
    refine ⟨⟨h.batches.insert rfl (by simp), ?_, fun p hp => ?_⟩, hperm⟩
    · rw [EnvelopeMaker.pairs, (hperm.map _).sum_nat, List.map_append, List.sum_append, h.numBytes]
      rfl
    · rcases List.mem_append.mp (hperm.mem_iff.mp hp) with hp | hp
      · exact h.observations p hp
      · rw [List.mem_singleton.mp hp]
        rfl
  · simp only [EnvelopeMaker.storeObservation_eq, if_neg hstatus, List.append_nil]
    exact ⟨h, List.Perm.refl _⟩

/-! ### Merging -/

/-- One batch is merged into a map. -/
def mergeBatch (batchMap : BatchMap M E U) (e : (_ : Bytes) × M × List (Option (Observation E U))) :
    BatchMap M E U :=
  match batchMap.lookup e.1 with
  | some batch => batchMap.insert e.1 (batch.1, batch.2 ++ e.2.2.reverse)
  | none => batchMap.insert e.1 e.2

theorem mergeBatch_spec {batchMap : BatchMap M E U} (h : ByMetadata pb batchMap)
    (hpb : Function.Injective pb.metadataString)
    {e : (_ : Bytes) × M × List (Option (Observation E U))}
    (he : e.1 = pb.metadataString e.2.1 ∧ e.2.2 ≠ []) :
    ByMetadata pb (mergeBatch batchMap e) ∧
      (pairsOf (mergeBatch batchMap e)).Perm (pairsOf batchMap ++ pairsIn e.2) := by
  obtain ⟨key, m, os⟩ := e
  obtain ⟨rfl, hne⟩ : key = pb.metadataString m ∧ os ≠ [] := he
  rw [mergeBatch]
  dsimp only
  cases hlookup : batchMap.lookup (pb.metadataString m) with
  | none =>
    have hperm := pairsOf_insert_perm h hpb m os
    rw [hlookup] at hperm
    exact ⟨h.insert rfl hne, hperm⟩
  | some batch =>
    have hm := h.metadata_eq hpb hlookup
    have hperm := pairsOf_insert_perm h hpb m os.reverse
    rw [hlookup] at hperm
    dsimp only
    rw [hm]
    refine ⟨h.insert rfl (by simp [hne]), hperm.trans (List.Perm.append_left _ ?_)⟩
    exact (List.reverse_perm os).map _

/-- The loop of `MergeWith` over the batches of the other envelope. -/
theorem foldl_mergeBatch_spec (hpb : Function.Injective pb.metadataString)
    (entries : List ((_ : Bytes) × M × List (Option (Observation E U))))
    (hentries : ∀ e ∈ entries, e.1 = pb.metadataString e.2.1 ∧ e.2.2 ≠ [])
    {batchMap : BatchMap M E U} (h : ByMetadata pb batchMap) :
    ByMetadata pb (entries.foldl mergeBatch batchMap) ∧
      (pairsOf (entries.foldl mergeBatch batchMap)).Perm
        (pairsOf batchMap ++ entries.flatMap fun e => pairsIn e.2) := by
  induction entries generalizing batchMap with
  | nil => exact ⟨h, by simp⟩
  | cons e entries ih =>
    obtain ⟨hstep, hperm⟩ := mergeBatch_spec h hpb (hentries e List.mem_cons_self)
    obtain ⟨hrest, hpermRest⟩ := ih (fun e' he' => hentries e' (List.mem_cons_of_mem e he')) hstep
    refine ⟨hrest, hpermRest.trans ?_⟩
    rw [List.flatMap_cons, ← List.append_assoc]
    exact hperm.append_right _

/-- Merging loses nothing and duplicates nothing. -/
theorem EnvelopeMaker.WF.mergeWith {maker other : EnvelopeMaker M E U} (h : maker.WF pb)
    (hother : other.WF pb) (hpb : Function.Injective pb.metadataString) :
    (maker.mergeWith other).WF pb ∧
      (maker.mergeWith other).pairs.Perm (maker.pairs ++ other.pairs) := by
  obtain ⟨hbatches, hperm⟩ :=
    foldl_mergeBatch_spec hpb other.batchMap.entries hother.batches h.batches
  have hpairs : (maker.mergeWith other).pairs.Perm (maker.pairs ++ other.pairs) := hperm
  refine ⟨⟨hbatches, ?_, fun p hp => ?_⟩, hpairs⟩
  · rw [(hpairs.map _).sum_nat, List.map_append, List.sum_append, ← h.numBytes, ← hother.numBytes]
    rfl
  · rcases List.mem_append.mp (hpairs.mem_iff.mp hp) with hp | hp
    · exact h.observations p hp
    · exact hother.observations p hp

/-- The envelope of a well-formed holder lists its observations. -/
theorem EnvelopeMaker.WF.lists {maker : EnvelopeMaker M E U} (h : maker.WF pb)
    (encrypt : U → Option E) : Lists pb encrypt (maker.getEnvelope pb encrypt) maker.pairs where
  batches := by
    rw [EnvelopeMaker.getEnvelope, List.map_reverse, List.nodup_reverse, List.map_map]
    have hkeys : maker.batchMap.entries.map (fun e => pb.metadataString e.2.1) =
        maker.batchMap.keys :=
      List.map_congr_left fun e he => (h.batches e he).1.symm
    exact hkeys ▸ maker.batchMap.keys_nodup
  metadata := by
    intro m
    constructor
    · rintro ⟨batch, hbatch, hm⟩
      obtain ⟨e, he, rfl⟩ := List.mem_map.mp (List.mem_reverse.mp hbatch)
      obtain ⟨o, ho⟩ := List.exists_mem_of_ne_nil _ (h.batches e he).2
      exact ⟨(e.2.1, o), List.mem_flatMap.mpr ⟨e, he, List.mem_map_of_mem ho⟩, hm⟩
    · rintro ⟨p, hp, hm⟩
      obtain ⟨e, he, hmem⟩ := List.mem_flatMap.mp hp
      obtain ⟨o, _, rfl⟩ := List.mem_map.mp hmem
      exact ⟨_, List.mem_reverse.mpr (List.mem_map_of_mem he), hm⟩
  listed := by
    rw [listed, EnvelopeMaker.getEnvelope]
    refine ((List.reverse_perm _).flatMap_right _).trans (List.Perm.of_eq ?_)
    rw [List.flatMap_map, EnvelopeMaker.pairs, pairsOf, List.map_flatMap]
    refine List.flatMap_congr fun e _ => ?_
    simp [pairsIn]

/-- What an envelope lists does not depend on the order. -/
theorem Lists.perm {envelope : Envelope M E} {l l' : List (Pair M E U)}
    (h : Lists pb encrypt envelope l) (hperm : l.Perm l') : Lists pb encrypt envelope l' where
  batches := h.batches
  metadata m := (h.metadata m).trans (by simp only [hperm.mem_iff])
  listed := h.listed.trans (hperm.map _)

end WellFormed

/-! ### The ledger -/

section Ledger

variable (pb : Protobuf M E U) (limits : Limits)

/-- A store, the observations that it accepted, those that each outstanding holder was merged from,
and those of the destroyed holders. -/
structure Ledger (M E U : Type) where
  store : MemoryStore M E U := {}
  accepted : List (Pair M E U) := []
  merged : List (List (Pair M E U)) := []
  destroyed : List (Pair M E U) := []

/-- The observations that left a store: those of the envelopes that are no longer at the front of
the queue, and those of a current envelope that was replaced by an empty one. -/
def MemoryStore.departed (s s' : MemoryStore M E U) : List (Pair M E U) :=
  (s.finalizedEnvelopes.take
      (s.finalizedEnvelopes.length - s'.finalizedEnvelopes.length)).flatMap EnvelopeMaker.pairs ++
    if s'.currentEnvelope.numBytes = 0 then s.currentEnvelope.pairs else []

/-- An operation, and what is recorded of it. -/
def MemoryOp.record (op : MemoryOp M E U) (r : Ledger M E U) : Ledger M E U :=
  let s' := op.apply pb limits r.store
  match op with
  | .storeObservation o m =>
    { r with
      store := s'
      accepted := r.accepted ++
        if (r.store.storeObservation pb limits o m).1 = .kOk then [(m, o)] else [] }
  | .takeNextEnvelopeHolder =>
    { r with
      store := s'
      merged := r.merged ++
        if (r.store.takeNextEnvelopeHolder limits).1.isSome then [r.store.departed s'] else [] }
  | .returnEnvelopeHolder i => { r with store := s', merged := r.merged.eraseIdx i }
  | .destroy i =>
    { r with
      store := s'
      merged := r.merged.eraseIdx i
      destroyed := r.destroyed ++ (r.store.holders[i]?).elim [] EnvelopeMaker.pairs }
  | _ => { r with store := s' }

/-- The operations of a run: observations with exactly one field set are stored, and holders are
taken, returned and destroyed. -/
def MemoryOp.Conserving : MemoryOp M E U → Prop
  | .storeObservation o _ => o.isSome
  | .takeNextEnvelopeHolder | .returnEnvelopeHolder _ | .destroy _ => True
  | _ => False

/-- The ledger after some operations on a new store. -/
def Ledger.run (ops : List (MemoryOp M E U)) : Ledger M E U :=
  ops.foldl (fun r op => op.record pb limits r) {}

/-- The observations in the store and in its outstanding holders. -/
def MemoryStore.pairs (s : MemoryStore M E U) : List (Pair M E U) :=
  s.currentEnvelope.pairs ++ s.finalizedEnvelopes.flatMap EnvelopeMaker.pairs ++
    s.holders.flatMap EnvelopeMaker.pairs

end Ledger

/-! ### Conservation -/

section Conservation

variable {pb : Protobuf M E U} {encrypt : U → Option E} {limits : Limits} {s : MemoryStore M E U}
  {r : Ledger M E U}

/-- What a run keeps: envelopes that are well formed, holders that have what they were merged
from, and the accepted observations. -/
structure Ledger.Inv (pb : Protobuf M E U) (r : Ledger M E U) : Prop where
  enabled : r.store.isDisabled = false
  current : r.store.currentEnvelope.WF pb
  finalized : ∀ maker ∈ r.store.finalizedEnvelopes, maker.WF pb
  holders : List.Forall₂ (fun holder l => holder.WF pb ∧ holder.pairs.Perm l) r.store.holders
    r.merged
  conserved : r.accepted.Perm (r.store.pairs ++ r.destroyed)

theorem Ledger.Inv.init : Ledger.Inv pb ({} : Ledger M E U) where
  enabled := rfl
  current := EnvelopeMaker.WF.empty
  finalized := by rintro maker ⟨⟩
  holders := List.Forall₂.nil
  conserved := List.Perm.refl _

variable (limits) in
/-- The loop of `TakeNextEnvelopeHolder` merges the envelopes at the front of the queue. -/
theorem mergeFinalized_pairs (hpb : Function.Injective pb.metadataString)
    {retval : EnvelopeMaker M E U} (hretval : retval.WF pb) {l : List (EnvelopeMaker M E U)}
    (hl : ∀ maker ∈ l, maker.WF pb) (finalizedSize : ℕ) :
    let r := MemoryStore.mergeFinalized limits retval l finalizedSize
    r.1.WF pb ∧ ∃ front, l = front ++ r.2.1 ∧
      r.1.pairs.Perm (retval.pairs ++ front.flatMap EnvelopeMaker.pairs) := by
  induction l generalizing retval finalizedSize with
  | nil => exact ⟨hretval, [], rfl, by simp [MemoryStore.mergeFinalized]⟩
  | cons maker rest ih =>
    rw [MemoryStore.mergeFinalized]
    generalize (if maker.numBytes > finalizedSize then 0 else finalizedSize - maker.numBytes) = size
    split_ifs with hfits
    · obtain ⟨hmerged, hperm⟩ := hretval.mergeWith (hl maker List.mem_cons_self) hpb
      obtain ⟨hwf, front, hfront, hpairs⟩ := ih hmerged
        (fun maker' hmaker' => hl maker' (List.mem_cons_of_mem maker hmaker')) size
      refine ⟨hwf, maker :: front, congrArg (maker :: ·) hfront, hpairs.trans ?_⟩
      rw [List.flatMap_cons, ← List.append_assoc]
      exact hperm.append_right _
    · exact ⟨hretval, [], rfl, by simp⟩

/-- What is known of the store `s'` and the result `o` after `TakeNextEnvelopeHolder`: the holder
`maker` was merged from the observations that left the store. -/
structure Taken (pb : Protobuf M E U) (s s' : MemoryStore M E U)
    (o : Option (EnvelopeMaker M E U)) (maker : EnvelopeMaker M E U) : Prop where
  enabled : s'.isDisabled = s.isDisabled
  current : s'.currentEnvelope.WF pb
  finalized : ∀ maker ∈ s'.finalizedEnvelopes, maker ∈ s.finalizedEnvelopes
  wf : maker.WF pb
  merged : maker.pairs.Perm (s.departed s')
  kept : (maker.pairs ++ (s'.currentEnvelope.pairs ++
    s'.finalizedEnvelopes.flatMap EnvelopeMaker.pairs)).Perm
      (s.currentEnvelope.pairs ++ s.finalizedEnvelopes.flatMap EnvelopeMaker.pairs)
  result : o = none ∧ maker.pairs = [] ∧ s'.holders = s.holders ∨
    o = some maker ∧ s'.holders = s.holders ++ [maker]

theorem departed_of_append {s s' : MemoryStore M E U} {front : List (EnvelopeMaker M E U)}
    (h : s.finalizedEnvelopes = front ++ s'.finalizedEnvelopes) :
    s.departed s' = front.flatMap EnvelopeMaker.pairs ++
      if s'.currentEnvelope.numBytes = 0 then s.currentEnvelope.pairs else [] := by
  rw [MemoryStore.departed, h]
  simp

variable (limits) in
/-- `TakeNextEnvelopeHolder` moves what leaves the store into the holder. -/
theorem takeNextEnvelopeHolder_taken (hpb : Function.Injective pb.metadataString)
    (hpos : ∀ o, 0 < pb.byteSize (some o)) (hcurrent : s.currentEnvelope.WF pb)
    (hfinalized : ∀ maker ∈ s.finalizedEnvelopes, maker.WF pb) :
    ∃ maker, Taken pb s (s.takeNextEnvelopeHolder limits).2 (s.takeNextEnvelopeHolder limits).1
      maker := by
  obtain ⟨hwf, front, hfront, hpairs⟩ := mergeFinalized_pairs limits hpb
    EnvelopeMaker.WF.empty hfinalized s.finalizedEnvelopesSize
  simp only [MemoryStore.takeNextEnvelopeHolder]
  generalize MemoryStore.mergeFinalized limits ({} : EnvelopeMaker M E U) s.finalizedEnvelopes
    s.finalizedEnvelopesSize = r at hwf hfront hpairs ⊢
  obtain ⟨retval, finalized, finalizedSize⟩ := r
  rw [EnvelopeMaker.pairs_empty, List.nil_append] at hpairs
  dsimp only at hwf hfront hpairs
  have hmem : ∀ maker ∈ finalized, maker ∈ s.finalizedEnvelopes := by
    intro maker hmaker
    rw [hfront]
    exact List.mem_append_right front hmaker
  by_cases hfits : retval.numBytes + s.currentEnvelope.numBytes ≤ limits.maxBytesPerEnvelope
  · obtain ⟨hmerged, hperm⟩ := hwf.mergeWith hcurrent hpb
    have hpairs := hperm.trans (hpairs.append_right _)
    refine ⟨retval.mergeWith s.currentEnvelope, ?_⟩
    simp only [if_pos hfits]
    have hkept : ((retval.mergeWith s.currentEnvelope).pairs ++
        finalized.flatMap EnvelopeMaker.pairs).Perm
          (s.currentEnvelope.pairs ++ s.finalizedEnvelopes.flatMap EnvelopeMaker.pairs) := by
      rw [hfront, List.flatMap_append]
      refine (hpairs.append_right _).trans ?_
      rw [← List.append_assoc]
      exact List.perm_append_comm.append_right _
    split_ifs with hempty
    · refine ⟨rfl, EnvelopeMaker.WF.empty, hmem, hmerged, ?_, hkept, Or.inl ⟨rfl, ?_, rfl⟩⟩
      · rw [departed_of_append hfront]
        exact hpairs
      · exact hmerged.pairs_eq_nil hpos hempty
    · refine ⟨rfl, EnvelopeMaker.WF.empty, hmem, hmerged, ?_, hkept, Or.inr ⟨rfl, rfl⟩⟩
      rw [departed_of_append hfront]
      exact hpairs
  · refine ⟨retval, ?_⟩
    simp only [if_neg hfits]
    have hkept : (retval.pairs ++ (s.currentEnvelope.pairs ++
        finalized.flatMap EnvelopeMaker.pairs)).Perm
          (s.currentEnvelope.pairs ++ s.finalizedEnvelopes.flatMap EnvelopeMaker.pairs) := by
      rw [hfront, List.flatMap_append]
      refine (List.perm_append_comm_assoc _ _ _).trans ?_
      exact (hpairs.append_right _).append_left _
    have hdeparted : retval.pairs.Perm (front.flatMap EnvelopeMaker.pairs ++
        if s.currentEnvelope.numBytes = 0 then s.currentEnvelope.pairs else []) := by
      split_ifs with hzero
      · rw [hcurrent.pairs_eq_nil hpos hzero, List.append_nil]
        exact hpairs
      · rw [List.append_nil]
        exact hpairs
    split_ifs with hempty
    · refine ⟨rfl, hcurrent, hmem, hwf, ?_, hkept, Or.inl ⟨rfl, ?_, rfl⟩⟩
      · rw [departed_of_append hfront]
        exact hdeparted
      · exact hwf.pairs_eq_nil hpos hempty
    · refine ⟨rfl, hcurrent, hmem, hwf, ?_, hkept, Or.inr ⟨rfl, rfl⟩⟩
      rw [departed_of_append hfront]
      exact hdeparted

/-- A current envelope that is full is put into the queue, and an empty one takes its place. -/
theorem Ledger.Inv.swapOut (h : r.Inv pb) :
    Ledger.Inv pb { r with
      store := { r.store.addEnvelopeToSend r.store.currentEnvelope with currentEnvelope := {} } } where
  enabled := h.enabled
  current := EnvelopeMaker.WF.empty
  finalized := by
    intro maker hmaker
    rcases List.mem_append.mp hmaker with hmaker | hmaker
    · exact h.finalized maker hmaker
    · rw [List.mem_singleton.mp hmaker]
      exact h.current
  holders := h.holders
  conserved := by
    refine h.conserved.trans (List.Perm.append_right _ ?_)
    simp only [MemoryStore.pairs, MemoryStore.addEnvelopeToSend, EnvelopeMaker.pairs_empty,
      List.flatMap_append, List.flatMap_singleton, List.nil_append]
    exact List.perm_append_comm.append_right _

/-- An observation is added to the current envelope, or is refused. -/
theorem Ledger.Inv.addObservation (h : r.Inv pb) (hpb : Function.Injective pb.metadataString)
    (o : Observation E U) (m : M) :
    let stored := r.store.currentEnvelope.storeObservation pb limits (some o) m
    Ledger.Inv pb { r with
      store := { r.store with currentEnvelope := stored.2 }
      accepted := r.accepted ++ if stored.1 = .kOk then [(m, some o)] else [] } := by
  obtain ⟨hwf, hperm⟩ := h.current.storeObservation limits hpb o m
  refine ⟨h.enabled, hwf, h.finalized, h.holders, (h.conserved.append_right _).trans ?_⟩
  simp only [MemoryStore.pairs, List.append_assoc]
  refine List.Perm.trans ?_ (hperm.append_right _).symm
  rw [List.append_assoc]
  refine List.Perm.append_left _ ?_
  simp only [← List.append_assoc]
  exact (List.perm_append_comm).trans (by simp only [← List.append_assoc]; exact List.Perm.refl _)

theorem Ledger.Inv.storeObservation (h : r.Inv pb) (hpb : Function.Injective pb.metadataString)
    (o : Observation E U) (m : M) :
    ((MemoryOp.storeObservation (some o) m).record pb limits r).Inv pb := by
  simp only [MemoryOp.record, MemoryOp.apply, MemoryStore.storeObservation, h.enabled]
  rw [if_neg Bool.false_ne_true]
  by_cases hfull : r.store.size > limits.maxBytesTotal
  · simp only [if_pos hfull]
    simpa using h
  · simp only [if_neg hfull]
    by_cases hswap : r.store.currentEnvelope.canAddObservation pb limits (some o) = .kStoreFull
    · simp only [if_pos hswap]
      exact h.swapOut.addObservation hpb o m
    · simp only [if_neg hswap]
      exact h.addObservation hpb o m

theorem Ledger.Inv.takeNextEnvelopeHolder (h : r.Inv pb)
    (hpb : Function.Injective pb.metadataString) (hpos : ∀ o, 0 < pb.byteSize (some o)) :
    (MemoryOp.takeNextEnvelopeHolder.record pb limits r).Inv pb := by
  obtain ⟨maker, htaken⟩ :=
    takeNextEnvelopeHolder_taken limits hpb hpos h.current h.finalized
  have hfinalized : ∀ maker ∈ (r.store.takeNextEnvelopeHolder limits).2.finalizedEnvelopes,
      maker.WF pb := fun maker hmaker => h.finalized maker (htaken.finalized maker hmaker)
  have hconserved := h.conserved
  rw [MemoryStore.pairs, List.append_assoc] at hconserved
  have hconserved := hconserved.trans (htaken.kept.symm.append_right _)
  simp only [MemoryOp.record, MemoryOp.apply]
  rcases htaken.result with ⟨hnone, hnil, hholders⟩ | ⟨hsome, hholders⟩
  · refine ⟨htaken.enabled.trans h.enabled, htaken.current, hfinalized, ?_, ?_⟩
    · simpa [hnone, hholders] using h.holders
    · rw [hnil, List.nil_append, ← List.append_assoc] at hconserved
      simp only [MemoryStore.pairs, hholders]
      exact hconserved
  · refine ⟨htaken.enabled.trans h.enabled, htaken.current, hfinalized, ?_, ?_⟩
    · simp only [hholders, hsome, Option.isSome_some, if_true]
      exact List.rel_append h.holders
        (List.Forall₂.cons ⟨htaken.wf, htaken.merged⟩ List.Forall₂.nil)
    · refine hconserved.trans ?_
      simp only [MemoryStore.pairs, hholders, List.flatMap_append, List.flatMap_singleton]
      rw [← List.append_assoc]
      refine List.Perm.append_right _ ?_
      rw [List.append_assoc]
      exact List.perm_append_comm.trans (by rw [List.append_assoc])

theorem forall₂_eraseIdx {α β : Type} {R : α → β → Prop} {l : List α} {l' : List β}
    (h : List.Forall₂ R l l') (i : ℕ) : List.Forall₂ R (l.eraseIdx i) (l'.eraseIdx i) := by
  induction h generalizing i with
  | nil => exact List.Forall₂.nil
  | cons hhead htail ih =>
    cases i with
    | zero => exact htail
    | succ i => exact List.Forall₂.cons hhead (ih i)

/-- A holder is taken out of the outstanding ones, with its observations. -/
theorem Ledger.Inv.eraseHolder (h : r.Inv pb) {i : ℕ} {holder : EnvelopeMaker M E U}
    (hholder : r.store.holders[i]? = some holder) :
    holder.WF pb ∧
      List.Forall₂ (fun holder l => holder.WF pb ∧ holder.pairs.Perm l)
        (r.store.holders.eraseIdx i) (r.merged.eraseIdx i) ∧
      (r.store.holders.flatMap EnvelopeMaker.pairs).Perm
        (holder.pairs ++ (r.store.holders.eraseIdx i).flatMap EnvelopeMaker.pairs) := by
  obtain ⟨hi, rfl⟩ := List.getElem?_eq_some_iff.mp hholder
  refine ⟨(h.holders.get hi (h.holders.length_eq ▸ hi)).1, forall₂_eraseIdx h.holders i, ?_⟩
  exact (List.getElem_cons_eraseIdx_perm hi).symm.flatMap_right _

theorem Ledger.Inv.returnEnvelopeHolder (h : r.Inv pb) (i : ℕ) :
    ((MemoryOp.returnEnvelopeHolder i).record pb limits r).Inv pb := by
  simp only [MemoryOp.record, MemoryOp.apply, MemoryStore.returnEnvelopeHolder]
  cases hholder : r.store.holders[i]? with
  | none =>
    have hmerged : r.merged.eraseIdx i = r.merged := by
      refine List.eraseIdx_of_length_le ?_
      rw [← h.holders.length_eq]
      exact List.getElem?_eq_none_iff.mp hholder
    simp only [hmerged]
    exact h
  | some holder =>
    obtain ⟨hwf, hholders, hperm⟩ := h.eraseHolder hholder
    refine ⟨h.enabled, h.current, fun maker hmaker => ?_, hholders,
      h.conserved.trans (List.Perm.append_right _ ?_)⟩
    · rcases List.mem_append.mp hmaker with hmaker | hmaker
      · exact h.finalized maker hmaker
      · rwa [List.mem_singleton.mp hmaker]
    · simp only [MemoryStore.pairs, MemoryStore.addEnvelopeToSend, List.flatMap_append,
        List.flatMap_singleton]
      refine (hperm.append_left _).trans ?_
      simp only [List.append_assoc]
      exact List.Perm.refl _

theorem Ledger.Inv.destroy (h : r.Inv pb) (i : ℕ) :
    ((MemoryOp.destroy i).record pb limits r).Inv pb := by
  simp only [MemoryOp.record, MemoryOp.apply]
  cases hholder : r.store.holders[i]? with
  | none =>
    have hlength := List.getElem?_eq_none_iff.mp hholder
    simp only [List.eraseIdx_of_length_le hlength,
      List.eraseIdx_of_length_le (h.holders.length_eq ▸ hlength), Option.elim_none, List.append_nil]
    exact h
  | some holder =>
    obtain ⟨_, hholders, hperm⟩ := h.eraseHolder hholder
    refine ⟨h.enabled, h.current, h.finalized, hholders, h.conserved.trans ?_⟩
    simp only [MemoryStore.pairs, Option.elim_some]
    refine ((hperm.append_left _).append_right _).trans ?_
    simp only [List.append_assoc]
    refine List.Perm.append_left _ (List.Perm.append_left _ ?_)
    exact List.perm_append_comm.trans (by rw [List.append_assoc])

/-- One operation of a run keeps the invariant. -/
theorem Ledger.Inv.record (h : r.Inv pb) (hpb : Function.Injective pb.metadataString)
    (hpos : ∀ o, 0 < pb.byteSize (some o)) {op : MemoryOp M E U} (hop : op.Conserving) :
    (op.record pb limits r).Inv pb := by
  cases op with
  | storeObservation o m =>
    obtain ⟨o, rfl⟩ := Option.isSome_iff_exists.mp hop
    exact h.storeObservation hpb o m
  | takeNextEnvelopeHolder => exact h.takeNextEnvelopeHolder hpb hpos
  | returnEnvelopeHolder i => exact h.returnEnvelopeHolder i
  | destroy i => exact h.destroy i
  | mergeWith i j => exact absurd hop id
  | deleteData => exact absurd hop id
  | disable isDisabled => exact absurd hop id

variable (limits) in
theorem Ledger.Inv.of_run (hpb : Function.Injective pb.metadataString)
    (hpos : ∀ o, 0 < pb.byteSize (some o)) {ops : List (MemoryOp M E U)}
    (hops : ∀ op ∈ ops, op.Conserving) : (Ledger.run pb limits ops).Inv pb := by
  refine List.foldlRecOn ops _ Ledger.Inv.init fun r hr op hop => ?_
  exact hr.record hpb hpos (hops op hop)

/-- **Conservation.** After every run, the accepted observations are those in the current envelope,
the finalized envelopes, the outstanding holders and the destroyed holders, and the envelope of each
outstanding holder has one batch for each serialized metadata and lists what the holder was merged
from. The library serializes different metadata to different strings, and an observation with a
field to at least one byte. -/
theorem memory_conserved (hpb : Function.Injective pb.metadataString)
    (hpos : ∀ o, 0 < pb.byteSize (some o)) (encrypt : U → Option E) {ops : List (MemoryOp M E U)}
    (hops : ∀ op ∈ ops, op.Conserving) :
    let r := Ledger.run pb limits ops
    r.accepted.Perm (r.store.currentEnvelope.pairs ++
      r.store.finalizedEnvelopes.flatMap EnvelopeMaker.pairs ++
      r.store.holders.flatMap EnvelopeMaker.pairs ++ r.destroyed) ∧
    List.Forall₂ (fun holder merged =>
        holder.pairs.Perm merged ∧ Lists pb encrypt (holder.getEnvelope pb encrypt) merged)
      r.store.holders r.merged := by
  have h := Ledger.Inv.of_run limits hpb hpos hops
  refine ⟨h.conserved, h.holders.imp fun holder merged hholder => ?_⟩
  exact ⟨hholder.2, (hholder.1.lists encrypt).perm hholder.2⟩

/-- Three observations with two metadata are put into three envelopes. A holder that is merged from
the first and the last of them is returned, another one is taken and destroyed, and the first one is
taken again. -/
theorem memory_conserved_threeEnvelopes :
    let ops : List (MemoryOp Bool Bool Bool) :=
      [.storeObservation (some (.encrypted true)) true,
        .storeObservation (some (.unencrypted true)) false,
        .storeObservation (some (.encrypted false)) true, .takeNextEnvelopeHolder,
        .returnEnvelopeHolder 0, .takeNextEnvelopeHolder, .destroy 0, .takeNextEnvelopeHolder]
    let r := Ledger.run flagProtobuf ⟨10, 7, 100⟩ ops
    r.destroyed = [(false, some (.unencrypted true))] ∧
    r.merged = [[(true, some (.encrypted true)), (true, some (.encrypted false))]] ∧
    r.accepted.Perm (r.store.currentEnvelope.pairs ++
      r.store.finalizedEnvelopes.flatMap EnvelopeMaker.pairs ++
      r.store.holders.flatMap EnvelopeMaker.pairs ++ r.destroyed) ∧
    List.Forall₂ (fun holder merged => holder.pairs.Perm merged ∧
        Lists flagProtobuf some (holder.getEnvelope flagProtobuf some) merged)
      r.store.holders r.merged := by
  intro ops r
  refine ⟨by decide +kernel, by decide +kernel, ?_⟩
  refine memory_conserved flagProtobuf_lawful.metadataString_injective ?_ some ?_
  · rintro (e | u)
    · cases e <;> decide
    · cases u <;> decide
  · simp [ops, MemoryOp.Conserving]

end Conservation

/-! ### Bounds -/

section Bounds

variable (pb : Protobuf M E U) (limits : Limits)

/-- `TakeOldestEnvelopeHolderLocked` never finds an envelope that is larger than the size of the
queue, along the loop of `TakeNextEnvelopeHolder`. -/
def ClampFree (retval : EnvelopeMaker M E U) : List (EnvelopeMaker M E U) → ℕ → Prop
  | [], _ => True
  | front :: rest, finalizedSize =>
    retval.numBytes = 0 ∨ retval.numBytes + front.numBytes ≤ limits.maxBytesPerEnvelope →
      front.numBytes ≤ finalizedSize ∧
        ClampFree (retval.mergeWith front) rest (finalizedSize - front.numBytes)

/-- The bounds of a store. -/
structure MemoryStore.Bounded (s : MemoryStore M E U) : Prop where
  finalizedSize : s.finalizedEnvelopesSize = totalBytes s.finalizedEnvelopes
  clampFree : ClampFree limits {} s.finalizedEnvelopes s.finalizedEnvelopesSize
  size : s.size ≤ limits.maxBytesTotal + limits.maxBytesPerObservation + limits.maxBytesPerEnvelope
  taken : ∀ holder ∈ (s.takeNextEnvelopeHolder limits).1,
    holder.numBytes ≤ limits.maxBytesPerEnvelope

/-- A step of a run in which a holder is taken only when no other one is outstanding. -/
def OneHolderStep (s s' : MemoryStore M E U) : Prop :=
  ∃ op : MemoryOp M E U, (op = .takeNextEnvelopeHolder → s.holders = []) ∧
    s' = op.apply pb limits s

variable {pb limits} {s : MemoryStore M E U}

/-- What such a run keeps: no envelope is larger than allowed, at most one holder is
outstanding, and the bound for the size holds with the holder counted in. -/
structure MemoryStore.Fits (limits : Limits) (s : MemoryStore M E U) : Prop where
  inv : s.Inv
  current : s.currentEnvelope.numBytes ≤ limits.maxBytesPerEnvelope
  finalized : ∀ maker ∈ s.finalizedEnvelopes, maker.numBytes ≤ limits.maxBytesPerEnvelope
  holders : ∀ holder ∈ s.holders, holder.numBytes ≤ limits.maxBytesPerEnvelope
  single : s.holders.length ≤ 1
  bytes : s.bytes ≤
    limits.maxBytesTotal + limits.maxBytesPerObservation + limits.maxBytesPerEnvelope

theorem MemoryStore.Fits.init : MemoryStore.Fits limits ({} : MemoryStore M E U) where
  inv := MemoryStore.Inv.init
  current := Nat.zero_le _
  finalized := by rintro maker ⟨⟩
  holders := by rintro maker ⟨⟩
  single := Nat.zero_le 1
  bytes := Nat.zero_le _

/-- The bytes of the outstanding holders. -/
theorem MemoryStore.Fits.totalBytes_holders (h : s.Fits limits) :
    totalBytes s.holders ≤ limits.maxBytesPerEnvelope := by
  have hsingle := h.single
  have hholders := h.holders
  match hs : s.holders with
  | [] => exact Nat.zero_le _
  | [holder] => simpa using hholders holder (by simp [hs])
  | _ :: _ :: _ => simp [hs] at hsingle

variable (pb limits) in
/-- The size of an envelope after `StoreObservation`. -/
theorem EnvelopeMaker.numBytes_storeObservation (maker : EnvelopeMaker M E U)
    (o : Option (Observation E U)) (m : M)
    (h : maker.numBytes ≤ limits.maxBytesPerEnvelope) :
    (maker.storeObservation pb limits o m).2.numBytes ≤ limits.maxBytesPerEnvelope ∧
      (maker.storeObservation pb limits o m).2.numBytes ≤
        maker.numBytes + limits.maxBytesPerObservation := by
  rw [EnvelopeMaker.storeObservation_eq]
  split_ifs with hstatus
  · rw [EnvelopeMaker.canAddObservation] at hstatus
    split_ifs at hstatus with hbig hfull
    dsimp only
    omega
  · exact ⟨h, Nat.le_add_right _ _⟩

theorem MemoryStore.Fits.storeObservation (h : s.Fits limits) (o : Option (Observation E U))
    (m : M) : (s.storeObservation pb limits o m).2.Fits limits := by
  have hinv : (s.storeObservation pb limits o m).2.Inv := h.inv.storeObservation o m
  have hbytes := h.bytes
  have hheld := h.totalBytes_holders
  simp only [MemoryStore.storeObservation] at hinv ⊢
  split_ifs at hinv ⊢ with hdisabled hfull hswap
  · exact h
  · exact h
  · obtain ⟨hle, hadded⟩ := EnvelopeMaker.numBytes_storeObservation pb limits
      ({} : EnvelopeMaker M E U) o m (Nat.zero_le _)
    rw [Nat.zero_add] at hadded
    refine ⟨hinv, hle, fun maker hmaker => ?_, h.holders, h.single, ?_⟩
    · rcases List.mem_append.mp hmaker with hmaker | hmaker
      · exact h.finalized maker hmaker
      · rw [List.mem_singleton.mp hmaker]
        exact h.current
    · simp only [MemoryStore.bytes, MemoryStore.size, MemoryStore.addEnvelopeToSend] at hfull ⊢
      omega
  · obtain ⟨hle, hadded⟩ := EnvelopeMaker.numBytes_storeObservation pb limits
      s.currentEnvelope o m h.current
    refine ⟨hinv, hle, h.finalized, h.holders, h.single, ?_⟩
    simp only [MemoryStore.bytes, MemoryStore.size] at hfull ⊢
    omega

/-- The loop of `TakeNextEnvelopeHolder` keeps to the size of an envelope. -/
theorem mergeFinalized_fits {retval : EnvelopeMaker M E U} {l : List (EnvelopeMaker M E U)}
    (hretval : retval.numBytes ≤ limits.maxBytesPerEnvelope)
    (hl : ∀ maker ∈ l, maker.numBytes ≤ limits.maxBytesPerEnvelope) (finalizedSize : ℕ) :
    (MemoryStore.mergeFinalized limits retval l finalizedSize).1.numBytes ≤
        limits.maxBytesPerEnvelope ∧
      ∀ maker ∈ (MemoryStore.mergeFinalized limits retval l finalizedSize).2.1, maker ∈ l := by
  induction l generalizing retval finalizedSize with
  | nil => exact ⟨hretval, fun maker hmaker => hmaker⟩
  | cons front rest ih =>
    rw [MemoryStore.mergeFinalized]
    generalize (if front.numBytes > finalizedSize then 0 else finalizedSize - front.numBytes) = size
    split_ifs with hfits
    · have hfront := hl front List.mem_cons_self
      have hmerged : (retval.mergeWith front).numBytes ≤ limits.maxBytesPerEnvelope := by
        rw [EnvelopeMaker.mergeWith]
        dsimp only
        omega
      obtain ⟨hle, hmem⟩ :=
        ih hmerged (fun maker hmaker => hl maker (List.mem_cons_of_mem front hmaker)) size
      exact ⟨hle, fun maker hmaker => List.mem_cons_of_mem front (hmem maker hmaker)⟩
    · exact ⟨hretval, fun maker hmaker => hmaker⟩

/-- What `TakeNextEnvelopeHolder` leaves and returns keeps to the size of an envelope. -/
theorem MemoryStore.Fits.taken (h : s.Fits limits) :
    let r := s.takeNextEnvelopeHolder limits
    (∀ holder ∈ r.1, holder.numBytes ≤ limits.maxBytesPerEnvelope) ∧
      r.2.currentEnvelope.numBytes ≤ limits.maxBytesPerEnvelope ∧
      (∀ maker ∈ r.2.finalizedEnvelopes, maker ∈ s.finalizedEnvelopes) ∧
      r.2.holders = s.holders ++ r.1.toList := by
  have hempty : ({} : EnvelopeMaker M E U).numBytes ≤ limits.maxBytesPerEnvelope := Nat.zero_le _
  obtain ⟨hle, hmem⟩ := mergeFinalized_fits hempty h.finalized s.finalizedEnvelopesSize
  simp only [MemoryStore.takeNextEnvelopeHolder]
  generalize MemoryStore.mergeFinalized limits ({} : EnvelopeMaker M E U) s.finalizedEnvelopes
    s.finalizedEnvelopesSize = r at hle hmem ⊢
  obtain ⟨retval, finalized, finalizedSize⟩ := r
  have hcurrent := h.current
  split_ifs with hfits hempty hempty
  · exact ⟨by simp, Nat.zero_le _, hmem, by simp⟩
  · exact ⟨by simpa [EnvelopeMaker.mergeWith] using hfits, Nat.zero_le _, hmem, by simp⟩
  · exact ⟨by simp, hcurrent, hmem, by simp⟩
  · exact ⟨by simpa using hle, hcurrent, hmem, by simp⟩

theorem MemoryStore.Fits.takeNextEnvelopeHolder (h : s.Fits limits) (hholders : s.holders = []) :
    (s.takeNextEnvelopeHolder limits).2.Fits limits := by
  obtain ⟨hinv, hbytes, _⟩ := MemoryStore.Inv.takeNextEnvelopeHolder h.inv
  obtain ⟨htaken, hcurrent, hfinalized, hlist⟩ := h.taken
  rw [hholders, List.nil_append] at hlist
  refine ⟨hinv, hcurrent, fun maker hmaker => h.finalized maker (hfinalized maker hmaker),
    fun holder hholder => htaken holder ?_, ?_, hbytes ▸ h.bytes⟩
  · rw [hlist] at hholder
    exact Option.mem_toList.mp hholder
  · rw [hlist]
    cases (s.takeNextEnvelopeHolder limits).1 <;> simp

theorem MemoryStore.Fits.returnEnvelopeHolder (h : s.Fits limits) (i : ℕ) :
    (s.returnEnvelopeHolder i).Fits limits := by
  obtain ⟨hinv, hbytes⟩ := h.inv.returnEnvelopeHolder i
  rw [MemoryStore.returnEnvelopeHolder] at hinv hbytes ⊢
  cases hholder : s.holders[i]? with
  | none => exact h
  | some holder =>
    rw [hholder] at hinv hbytes
    refine ⟨hinv, h.current, fun maker hmaker => ?_,
      fun holder' hholder' => h.holders holder' (List.mem_of_mem_eraseIdx hholder'),
      (List.length_eraseIdx_le _ _).trans h.single, hbytes.trans_le h.bytes⟩
    rcases List.mem_append.mp hmaker with hmaker | hmaker
    · exact h.finalized maker hmaker
    · rw [List.mem_singleton.mp hmaker]
      exact h.holders holder (List.mem_of_getElem? hholder)

/-- With one holder there is none to merge it with. -/
theorem MemoryStore.Fits.mergeWith (h : s.Fits limits) (i j : ℕ) : s.mergeWith i j = s := by
  have hsingle := h.single
  rw [MemoryStore.mergeWith]
  split
  · next holder other hholder hother =>
    have hi := (List.getElem?_eq_some_iff.mp hholder).1
    have hj := (List.getElem?_eq_some_iff.mp hother).1
    rw [if_pos (by omega)]
  · rfl

theorem totalBytes_eraseIdx_le (l : List (EnvelopeMaker M E U)) (i : ℕ) :
    totalBytes (l.eraseIdx i) ≤ totalBytes l := by
  cases hmaker : l[i]? with
  | none => rw [List.eraseIdx_of_length_le (List.getElem?_eq_none_iff.mp hmaker)]
  | some maker =>
    rw [totalBytes_eraseIdx hmaker]
    exact Nat.le_add_left _ _

theorem MemoryStore.Fits.destroy (h : s.Fits limits) (i : ℕ) :
    MemoryStore.Fits limits { s with holders := s.holders.eraseIdx i } := by
  have hsub := List.eraseIdx_sublist s.holders i
  refine ⟨⟨h.inv.finalizedSize, fun holder hholder => h.inv.holders holder (hsub.subset hholder)⟩,
    h.current, h.finalized, fun holder hholder => h.holders holder (hsub.subset hholder),
    hsub.length_le.trans h.single, le_trans ?_ h.bytes⟩
  exact Nat.add_le_add_left (totalBytes_eraseIdx_le s.holders i) _

theorem MemoryStore.Fits.deleteData (h : s.Fits limits) : s.deleteData.Fits limits := by
  refine ⟨h.inv.deleteData, Nat.zero_le _, by rintro maker ⟨⟩, h.holders, h.single, ?_⟩
  refine le_trans ?_ h.bytes
  exact Nat.add_le_add_right (Nat.zero_le _) _

/-- One step keeps the envelopes and the size within the bounds. -/
theorem MemoryStore.Fits.step {s' : MemoryStore M E U} (h : s.Fits limits)
    (hstep : OneHolderStep pb limits s s') : s'.Fits limits := by
  obtain ⟨op, htake, rfl⟩ := hstep
  cases op with
  | storeObservation o m => exact h.storeObservation o m
  | takeNextEnvelopeHolder => exact h.takeNextEnvelopeHolder (htake rfl)
  | returnEnvelopeHolder i => exact h.returnEnvelopeHolder i
  | mergeWith i j =>
    rw [MemoryOp.apply, h.mergeWith]
    exact h
  | destroy i => exact h.destroy i
  | deleteData => exact h.deleteData
  | disable isDisabled => exact { h with inv := ⟨h.inv.finalizedSize, h.inv.holders⟩ }

/-- With an exact size of the queue no envelope is larger than it. -/
theorem clampFree_totalBytes (retval : EnvelopeMaker M E U) (l : List (EnvelopeMaker M E U)) :
    ClampFree limits retval l (totalBytes l) := by
  induction l generalizing retval with
  | nil => trivial
  | cons front rest ih =>
    intro _
    rw [totalBytes_cons]
    refine ⟨Nat.le_add_right _ _, ?_⟩
    rw [Nat.add_sub_cancel_left]
    exact ih _

/-- **Bounds.** In every state that is reached with at most one outstanding holder, the size of the
queue is exact, so that it is never clamped, the size of the store is bounded, and so is that of the
holder that is taken next. -/
theorem memory_bounded (hrun : Relation.ReflTransGen (OneHolderStep pb limits) {} s) :
    s.Bounded limits := by
  have h : s.Fits limits := by
    induction hrun with
    | refl => exact MemoryStore.Fits.init
    | tail _ hstep ih => exact ih.step hstep
  refine ⟨h.inv.finalizedSize, ?_, (Nat.le_add_right _ _).trans h.bytes, h.taken.1⟩
  rw [h.inv.finalizedSize]
  exact clampFree_totalBytes _ _

/-- Each of two envelopes is full. The first one is taken and returned while the other one is in the
queue. -/
theorem memory_bounded_returned :
    let store (b : Bool) : MemoryOp Bool Bool Bool :=
      .storeObservation (some (.unencrypted true)) b
    let s₁ := (store true).apply flagProtobuf ⟨6, 7, 11⟩ {}
    let s₂ := (store false).apply flagProtobuf ⟨6, 7, 11⟩ s₁
    let s₃ := MemoryOp.takeNextEnvelopeHolder.apply flagProtobuf ⟨6, 7, 11⟩ s₂
    let s₄ := (store true).apply flagProtobuf ⟨6, 7, 11⟩ s₃
    let s := (MemoryOp.returnEnvelopeHolder 0).apply flagProtobuf ⟨6, 7, 11⟩ s₄
    s.size = 18 ∧ s.Bounded ⟨6, 7, 11⟩ := by
  intro store s₁ s₂ s₃ s₄ s
  refine ⟨by decide +kernel, ?_⟩
  have hrun₁ : Relation.ReflTransGen (OneHolderStep flagProtobuf ⟨6, 7, 11⟩) {} s₁ :=
    Relation.ReflTransGen.single ⟨store true, nofun, rfl⟩
  have hrun₃ := (hrun₁.tail ⟨store false, nofun, rfl⟩).tail (c := s₃)
    ⟨.takeNextEnvelopeHolder, fun _ => by decide +kernel, rfl⟩
  exact memory_bounded ((hrun₃.tail ⟨store true, nofun, rfl⟩).tail
    ⟨.returnEnvelopeHolder 0, nofun, rfl⟩)

end Bounds

end Cobalt.ObservationStore
