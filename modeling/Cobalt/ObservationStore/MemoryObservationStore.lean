import Cobalt.ObservationStore.FileObservationStore

/-!
# The memory observation store

A `MemoryObservationStore` collects observations in a current `EnvelopeMaker`. When that one is full
it is put into a queue of finalized envelopes. A holder that is taken from the store is merged from
the oldest finalized envelopes and from the current one, and leaves nothing of them behind: until it
is returned its observations are nowhere in the store.

## Main definitions

* `EnvelopeMaker`, `MemoryStore`: the state of a store and of its outstanding holders.
* `MemoryOp`, `MemoryOp.apply`: the operations.
* `MemoryStore.bytes`: the size of the store and of its outstanding holders together.

## Main results

* `MemoryOp.inv`: every operation keeps the size of the queue right and no holder empty.
* `MemoryOp.bytes_ships`: taking, merging and returning holders keeps the bytes.
-/

namespace Cobalt.ObservationStore

/-- An `EnvelopeMaker`: the batches by their serialized metadata, and the size of all
observations. -/
structure EnvelopeMaker (M E U : Type) where
  batchMap : ProtoMap Bytes (M × List (Option (Observation E U))) := ∅
  numBytes : ℕ := 0

/-- A store with its outstanding holders. -/
structure MemoryStore (M E U : Type) where
  isDisabled : Bool := false
  currentEnvelope : EnvelopeMaker M E U := {}
  finalizedEnvelopes : List (EnvelopeMaker M E U) := []
  finalizedEnvelopesSize : ℕ := 0
  holders : List (EnvelopeMaker M E U) := []

section Operations

variable {M E U : Type} (pb : Protobuf M E U) (limits : Limits)

namespace EnvelopeMaker

/-- `CanAddObservation`. -/
def canAddObservation (maker : EnvelopeMaker M E U) (observation : Option (Observation E U)) :
    StoreStatus :=
  if pb.byteSize observation > limits.maxBytesPerObservation then .kObservationTooBig
  else if maker.numBytes + pb.byteSize observation > limits.maxBytesPerEnvelope then .kStoreFull
  else .kOk

/-- `StoreObservation`. -/
def storeObservation (maker : EnvelopeMaker M E U) (observation : Option (Observation E U)) (m : M) :
    StoreStatus × EnvelopeMaker M E U :=
  match maker.canAddObservation pb limits observation with
  | .kOk =>
    (.kOk,
      { batchMap := maker.batchMap.update (pb.metadataString m) (m, []) fun batch =>
          (batch.1, batch.2 ++ [observation])
        numBytes := maker.numBytes + pb.byteSize observation })
  | status => (status, maker)

/-- `MergeWith`. A batch for metadata that both have gets the observations of the other one in
reverse. -/
def mergeWith (maker other : EnvelopeMaker M E U) : EnvelopeMaker M E U where
  batchMap := other.batchMap.entries.foldl
    (fun batchMap e =>
      match batchMap.lookup e.1 with
      | some batch => batchMap.insert e.1 (batch.1, batch.2 ++ e.2.2.reverse)
      | none => batchMap.insert e.1 e.2)
    maker.batchMap
  numBytes := maker.numBytes + other.numBytes

end EnvelopeMaker

namespace MemoryStore

/-- `SizeLocked`, and `Size`. -/
def size (s : MemoryStore M E U) : ℕ :=
  s.currentEnvelope.numBytes + s.finalizedEnvelopesSize

/-- `AddEnvelopeToSend`, at the back of the queue. -/
def addEnvelopeToSend (s : MemoryStore M E U) (holder : EnvelopeMaker M E U) : MemoryStore M E U :=
  { s with
    finalizedEnvelopesSize := s.finalizedEnvelopesSize + holder.numBytes
    finalizedEnvelopes := s.finalizedEnvelopes ++ [holder] }

/-- `StoreObservation`. -/
def storeObservation (s : MemoryStore M E U) (observation : Option (Observation E U)) (m : M) :
    StoreStatus × MemoryStore M E U :=
  if s.isDisabled then (.kOk, s)
  else if s.size > limits.maxBytesTotal then (.kStoreFull, s)
  else
    let s :=
      if s.currentEnvelope.canAddObservation pb limits observation = .kStoreFull then
        { s.addEnvelopeToSend s.currentEnvelope with currentEnvelope := {} }
      else s
    let (status, envelope) := s.currentEnvelope.storeObservation pb limits observation m
    (status, { s with currentEnvelope := envelope })

/-- The loop of `TakeNextEnvelopeHolder` over the queue, with `TakeOldestEnvelopeHolderLocked`. -/
def mergeFinalized (retval : EnvelopeMaker M E U) :
    List (EnvelopeMaker M E U) → ℕ → EnvelopeMaker M E U × List (EnvelopeMaker M E U) × ℕ
  | [], finalizedSize => (retval, [], finalizedSize)
  | front :: rest, finalizedSize =>
    if retval.numBytes = 0 ∨ retval.numBytes + front.numBytes ≤ limits.maxBytesPerEnvelope then
      mergeFinalized (retval.mergeWith front) rest
        (if front.numBytes > finalizedSize then 0 else finalizedSize - front.numBytes)
    else (retval, front :: rest, finalizedSize)

/-- `TakeNextEnvelopeHolder`, `none` where it returns `nullptr`. -/
def takeNextEnvelopeHolder (s : MemoryStore M E U) :
    Option (EnvelopeMaker M E U) × MemoryStore M E U :=
  let (retval, finalized, finalizedSize) :=
    mergeFinalized limits {} s.finalizedEnvelopes s.finalizedEnvelopesSize
  let s := { s with finalizedEnvelopes := finalized, finalizedEnvelopesSize := finalizedSize }
  let (retval, s) :=
    if retval.numBytes + s.currentEnvelope.numBytes ≤ limits.maxBytesPerEnvelope then
      (retval.mergeWith s.currentEnvelope, { s with currentEnvelope := {} })
    else (retval, s)
  if retval.numBytes = 0 then (none, s)
  else (some retval, { s with holders := s.holders ++ [retval] })

/-- `ReturnEnvelopeHolder`, of the holder with some number. -/
def returnEnvelopeHolder (s : MemoryStore M E U) (i : ℕ) : MemoryStore M E U :=
  match s.holders[i]? with
  | none => s
  | some holder => { s.addEnvelopeToSend holder with holders := s.holders.eraseIdx i }

/-- `MergeWith`, of a holder with another one. -/
def mergeWith (s : MemoryStore M E U) (i j : ℕ) : MemoryStore M E U :=
  match s.holders[i]?, s.holders[j]? with
  | some holder, some other =>
    if i = j then s
    else { s with holders := (s.holders.set i (holder.mergeWith other)).eraseIdx j }
  | _, _ => s

/-- `DeleteData`. -/
def deleteData (s : MemoryStore M E U) : MemoryStore M E U :=
  { s with currentEnvelope := {}, finalizedEnvelopes := [], finalizedEnvelopesSize := 0 }

end MemoryStore

/-- An operation on a store. -/
inductive MemoryOp (M E U : Type)
  | storeObservation (observation : Option (Observation E U)) (m : M)
  | takeNextEnvelopeHolder
  | returnEnvelopeHolder (i : ℕ)
  | mergeWith (i j : ℕ)
  /-- The holder with some number is destroyed. -/
  | destroy (i : ℕ)
  | deleteData
  | disable (isDisabled : Bool)

/-- The state after an operation. -/
def MemoryOp.apply (op : MemoryOp M E U) (s : MemoryStore M E U) : MemoryStore M E U :=
  match op with
  | .storeObservation observation m => (s.storeObservation pb limits observation m).2
  | .takeNextEnvelopeHolder => (s.takeNextEnvelopeHolder limits).2
  | .returnEnvelopeHolder i => s.returnEnvelopeHolder i
  | .mergeWith i j => s.mergeWith i j
  | .destroy i => { s with holders := s.holders.eraseIdx i }
  | .deleteData => s.deleteData
  | .disable isDisabled => { s with isDisabled := isDisabled }

/-- An operation of the `ShippingManager` while its uploads fail. -/
def MemoryOp.Ships : MemoryOp M E U → Prop
  | .takeNextEnvelopeHolder | .returnEnvelopeHolder _ | .mergeWith _ _ => True
  | _ => False

end Operations

/-! ### Sizes -/

section Sizes

variable {M E U : Type} {pb : Protobuf M E U} {limits : Limits} {s : MemoryStore M E U}

/-- The size of some envelopes. -/
def totalBytes (envelopes : List (EnvelopeMaker M E U)) : ℕ :=
  (envelopes.map EnvelopeMaker.numBytes).sum

@[simp] theorem totalBytes_nil : totalBytes ([] : List (EnvelopeMaker M E U)) = 0 := rfl

@[simp] theorem totalBytes_cons (maker : EnvelopeMaker M E U) (l : List (EnvelopeMaker M E U)) :
    totalBytes (maker :: l) = maker.numBytes + totalBytes l := rfl

@[simp] theorem totalBytes_append (l l' : List (EnvelopeMaker M E U)) :
    totalBytes (l ++ l') = totalBytes l + totalBytes l' := by
  rw [totalBytes, List.map_append, List.sum_append, totalBytes, totalBytes]

theorem totalBytes_perm {l l' : List (EnvelopeMaker M E U)} (h : l.Perm l') :
    totalBytes l = totalBytes l' :=
  (h.map _).sum_nat

theorem totalBytes_eraseIdx {l : List (EnvelopeMaker M E U)} {i : ℕ} {maker : EnvelopeMaker M E U}
    (h : l[i]? = some maker) : totalBytes l = maker.numBytes + totalBytes (l.eraseIdx i) := by
  obtain ⟨hi, rfl⟩ := List.getElem?_eq_some_iff.mp h
  rw [totalBytes_perm (List.getElem_cons_eraseIdx_perm hi).symm, totalBytes_cons]

/-- What a store keeps: the size of its queue, and holders that are not empty. -/
structure MemoryStore.Inv (s : MemoryStore M E U) : Prop where
  finalizedSize : s.finalizedEnvelopesSize = totalBytes s.finalizedEnvelopes
  holders : ∀ holder ∈ s.holders, 0 < holder.numBytes

/-- The size of the store and of its outstanding holders. -/
def MemoryStore.bytes (s : MemoryStore M E U) : ℕ :=
  s.size + totalBytes s.holders

/-! ### The operations -/

variable (limits) in
/-- The loop moves bytes from the queue to the holder. -/
theorem mergeFinalized_spec (retval : EnvelopeMaker M E U) (l : List (EnvelopeMaker M E U)) :
    let r := MemoryStore.mergeFinalized limits retval l (totalBytes l)
    r.1.numBytes + totalBytes r.2.1 = retval.numBytes + totalBytes l ∧
      r.2.2 = totalBytes r.2.1 := by
  induction l generalizing retval with
  | nil => exact ⟨rfl, rfl⟩
  | cons front rest ih =>
    simp only [MemoryStore.mergeFinalized]
    split_ifs with hfits hgt
    · exact absurd hgt (by simp)
    · have hsize : totalBytes (front :: rest) - front.numBytes = totalBytes rest := by simp
      obtain ⟨hbytes, hfinalized⟩ := ih (retval.mergeWith front)
      rw [hsize]
      refine ⟨?_, hfinalized⟩
      rw [hbytes, EnvelopeMaker.mergeWith, totalBytes_cons, Nat.add_assoc]
    · exact ⟨rfl, rfl⟩

/-- Taking a holder keeps the invariant and the bytes; the holder is not empty. -/
theorem MemoryStore.Inv.takeNextEnvelopeHolder (h : s.Inv) :
    (s.takeNextEnvelopeHolder limits).2.Inv ∧
      (s.takeNextEnvelopeHolder limits).2.bytes = s.bytes ∧
      ((s.takeNextEnvelopeHolder limits).1.isSome → 0 < s.size) := by
  obtain ⟨hbytes, hfinalized⟩ :=
    mergeFinalized_spec limits ({} : EnvelopeMaker M E U) s.finalizedEnvelopes
  rw [← h.finalizedSize] at hbytes hfinalized
  simp only [MemoryStore.takeNextEnvelopeHolder]
  generalize MemoryStore.mergeFinalized limits ({} : EnvelopeMaker M E U) s.finalizedEnvelopes
    s.finalizedEnvelopesSize = r at hbytes hfinalized ⊢
  obtain ⟨retval, finalized, finalizedSize⟩ := r
  have hholders : ∀ maker : EnvelopeMaker M E U, 0 < maker.numBytes →
      ∀ holder ∈ s.holders ++ [maker], 0 < holder.numBytes := by
    intro maker hpos holder hholder
    rcases List.mem_append.mp hholder with hholder | hholder
    · exact h.holders holder hholder
    · rwa [List.mem_singleton.mp hholder]
  simp only [MemoryStore.bytes, MemoryStore.size] at hbytes hfinalized ⊢
  rw [Nat.zero_add] at hbytes
  split_ifs with hfits hempty hempty
  · simp only [EnvelopeMaker.mergeWith] at hempty
    exact ⟨⟨hfinalized, h.holders⟩, by simp only; omega, by simp⟩
  · refine ⟨⟨hfinalized, hholders _ (Nat.pos_of_ne_zero hempty)⟩, ?_, fun _ => ?_⟩
    · simp only [totalBytes_append, totalBytes_cons, totalBytes_nil, EnvelopeMaker.mergeWith]
      omega
    · simp only [EnvelopeMaker.mergeWith] at hempty
      omega
  · have hempty : retval.numBytes = 0 := hempty
    exact ⟨⟨hfinalized, h.holders⟩, by simp only; omega, by simp⟩
  · refine ⟨⟨hfinalized, hholders _ (Nat.pos_of_ne_zero hempty)⟩, ?_, fun _ => ?_⟩
    · simp only [totalBytes_append, totalBytes_cons, totalBytes_nil]
      omega
    · omega

theorem MemoryStore.Inv.addEnvelopeToSend (h : s.Inv) (holder : EnvelopeMaker M E U) :
    (s.addEnvelopeToSend holder).Inv := by
  refine ⟨?_, h.holders⟩
  rw [MemoryStore.addEnvelopeToSend, h.finalizedSize, totalBytes_append, totalBytes_cons,
    totalBytes_nil, Nat.add_zero]

theorem MemoryStore.Inv.storeObservation (h : s.Inv) (observation : Option (Observation E U))
    (m : M) : (s.storeObservation pb limits observation m).2.Inv := by
  simp only [MemoryStore.storeObservation]
  split_ifs
  · exact h
  · exact h
  · exact ⟨(h.addEnvelopeToSend s.currentEnvelope).finalizedSize, h.holders⟩
  · exact ⟨h.finalizedSize, h.holders⟩

/-- Returning a holder puts its bytes back into the store. -/
theorem MemoryStore.Inv.returnEnvelopeHolder (h : s.Inv) (i : ℕ) :
    (s.returnEnvelopeHolder i).Inv ∧ (s.returnEnvelopeHolder i).bytes = s.bytes := by
  rw [MemoryStore.returnEnvelopeHolder]
  split
  · exact ⟨h, rfl⟩
  · next holder hholder =>
    refine ⟨⟨(h.addEnvelopeToSend holder).finalizedSize,
      fun holder' hholder' => h.holders holder' (List.mem_of_mem_eraseIdx hholder')⟩, ?_⟩
    simp only [MemoryStore.bytes, MemoryStore.size, MemoryStore.addEnvelopeToSend]
    rw [totalBytes_eraseIdx hholder]
    omega

theorem MemoryStore.Inv.mergeWith (h : s.Inv) (i j : ℕ) :
    (s.mergeWith i j).Inv ∧ (s.mergeWith i j).bytes = s.bytes := by
  rw [MemoryStore.mergeWith]
  split
  · next holder other hholder hother =>
    split_ifs with hij
    · exact ⟨h, rfl⟩
    · have hset : (s.holders.set i (holder.mergeWith other))[j]? = some other := by
        rw [List.getElem?_set_ne hij, hother]
      have hset' : (s.holders.set i (holder.mergeWith other))[i]? =
          some (holder.mergeWith other) := by
        rw [List.getElem?_set_self (List.getElem?_eq_some_iff.mp hholder).1]
      refine ⟨⟨h.finalizedSize, fun holder' hholder' => ?_⟩, ?_⟩
      · rcases List.mem_or_eq_of_mem_set (List.mem_of_mem_eraseIdx hholder') with hmem | rfl
        · exact h.holders holder' hmem
        · exact Nat.add_pos_left (h.holders holder (List.mem_of_getElem? hholder)) _
      · simp only [MemoryStore.bytes, MemoryStore.size]
        have hold := totalBytes_eraseIdx hholder
        have hnew := totalBytes_eraseIdx hset'
        have hother' := totalBytes_eraseIdx hset
        rw [List.eraseIdx_set_eq] at hnew
        simp only [EnvelopeMaker.mergeWith] at hnew hother'
        simp only [EnvelopeMaker.mergeWith]
        omega
  · exact ⟨h, rfl⟩

theorem MemoryStore.Inv.deleteData (h : s.Inv) : s.deleteData.Inv :=
  ⟨rfl, h.holders⟩

/-- **Every operation keeps the invariant.** -/
theorem MemoryOp.inv (op : MemoryOp M E U) (h : s.Inv) : (op.apply pb limits s).Inv := by
  cases op with
  | storeObservation observation m => exact h.storeObservation observation m
  | takeNextEnvelopeHolder => exact h.takeNextEnvelopeHolder.1
  | returnEnvelopeHolder i => exact (h.returnEnvelopeHolder i).1
  | mergeWith i j => exact (h.mergeWith i j).1
  | destroy i => exact ⟨h.finalizedSize, fun holder hmem => h.holders holder (List.mem_of_mem_eraseIdx hmem)⟩
  | deleteData => exact h.deleteData
  | disable isDisabled => exact ⟨h.finalizedSize, h.holders⟩

theorem MemoryStore.Inv.init : MemoryStore.Inv ({} : MemoryStore M E U) :=
  ⟨rfl, by simp⟩

/-- The operations of a `ShippingManager` whose uploads fail keep the bytes. -/
theorem MemoryOp.bytes_ships {op : MemoryOp M E U} (hop : op.Ships) (h : s.Inv) :
    (op.apply pb limits s).bytes = s.bytes := by
  cases op with
  | takeNextEnvelopeHolder => exact h.takeNextEnvelopeHolder.2.1
  | returnEnvelopeHolder i => exact (h.returnEnvelopeHolder i).2
  | mergeWith i j => exact (h.mergeWith i j).2
  | storeObservation => exact absurd hop id
  | destroy => exact absurd hop id
  | deleteData => exact absurd hop id
  | disable => exact absurd hop id

end Sizes

/-! ### Runs -/

section Runs

variable {M E U : Type} (pb : Protobuf M E U) (limits : Limits)

/-- The state after some operations. -/
def MemoryStore.run (s : MemoryStore M E U) (ops : List (MemoryOp M E U)) : MemoryStore M E U :=
  ops.foldl (fun s op => op.apply pb limits s) s

variable {pb limits} {s : MemoryStore M E U}

theorem MemoryStore.Inv.run (h : s.Inv) (ops : List (MemoryOp M E U)) :
    (s.run pb limits ops).Inv := by
  induction ops generalizing s with
  | nil => exact h
  | cons op ops ih => exact ih (op.inv h)

theorem MemoryStore.bytes_run_ships (h : s.Inv) {ops : List (MemoryOp M E U)}
    (hops : ∀ op ∈ ops, op.Ships) : (s.run pb limits ops).bytes = s.bytes := by
  induction ops generalizing s with
  | nil => rfl
  | cons op ops ih =>
    refine (ih (op.inv h) fun op' hop' => hops op' (List.mem_cons_of_mem op hop')).trans ?_
    exact MemoryOp.bytes_ships (hops op List.mem_cons_self) h

end Runs

end Cobalt.ObservationStore
