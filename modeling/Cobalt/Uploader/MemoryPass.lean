import Cobalt.ObservationStore.MemoryConservation
import Cobalt.Uploader.SendAllEnvelopes

/-!
# A pass over the memory observation store

`TakeNextEnvelopeHolder` merges a holder from the oldest finalized envelopes and from the current
one, and `ReturnEnvelopeHolder` puts it at the back of the queue as one envelope. The next holder of
the pass can thus be merged differently. What a turn of a pass makes smaller is not the number of
envelopes but the number of bytes, as no holder that is taken is empty.

There is no next holder only if the store is empty: an envelope without bytes has no observations,
and a current envelope that is too large to be merged into an empty holder does not exist.

## Main definitions

* `MemoryStore.interface`: the store, as a pass uses it.
* `MemoryStore.Sound`: what every operation keeps.

## Main results

* `MemoryStore.Sound.of_run`: the state after any operations is sound.
* `MemoryStore.accounts`: the laws that a pass needs.
-/

namespace Cobalt.ObservationStore

open Uploader (StoreInterface)

variable {M E U : Type}

/-- The observations in the store, without those in outstanding holders. -/
def MemoryStore.stored (s : MemoryStore M E U) : List (Pair M E U) :=
  s.currentEnvelope.pairs ++ s.finalizedEnvelopes.flatMap EnvelopeMaker.pairs

/-- `Empty`. -/
def MemoryStore.empty (s : MemoryStore M E U) : Bool :=
  s.currentEnvelope.batchMap.entries.isEmpty && s.finalizedEnvelopes.isEmpty

/-- The store, as `SendAllEnvelopes` uses it. No file names are generated. -/
def MemoryStore.interface (M E U : Type) (limits : Limits) :
    StoreInterface (MemoryStore M E U) Unit (Pair M E U) where
  takeNextEnvelopeHolder _ s :=
    ((s.takeNextEnvelopeHolder limits).1.map fun _ => s.holders.length,
      (s.takeNextEnvelopeHolder limits).2)
  getEnvelope _ s := s
  returnEnvelopeHolder i s := s.returnEnvelopeHolder i
  destroy i s := { s with holders := s.holders.eraseIdx i }
  empty := MemoryStore.empty
  held i s := s.holders[i]?.elim [] EnvelopeMaker.pairs
  stored := MemoryStore.stored

/-- What every operation keeps: envelopes that are well formed, and a current envelope that is
not larger than allowed. -/
structure MemoryStore.Sound (pb : Protobuf M E U) (limits : Limits) (s : MemoryStore M E U) :
    Prop where
  inv : s.Inv
  current : s.currentEnvelope.WF pb
  finalized : ∀ maker ∈ s.finalizedEnvelopes, maker.WF pb
  holders : ∀ holder ∈ s.holders, holder.WF pb
  fits : s.currentEnvelope.numBytes ≤ limits.maxBytesPerEnvelope

/-- An observation that is stored has a field that is set. -/
def MemoryOp.StoresSome : MemoryOp M E U → Prop
  | .storeObservation o _ => o.isSome
  | _ => True

variable {pb : Protobuf M E U} {limits : Limits} {s : MemoryStore M E U}

/-! ### The operations -/

/-- The loop of `TakeNextEnvelopeHolder` stops at an empty holder only if the queue is empty. -/
theorem mergeFinalized_eq_nil {retval : EnvelopeMaker M E U} {l : List (EnvelopeMaker M E U)}
    {finalizedSize : ℕ}
    (hzero : (MemoryStore.mergeFinalized limits retval l finalizedSize).1.numBytes = 0) :
    (MemoryStore.mergeFinalized limits retval l finalizedSize).2.1 = [] := by
  induction l generalizing retval finalizedSize with
  | nil => rfl
  | cons front rest ih =>
    rw [MemoryStore.mergeFinalized] at hzero ⊢
    by_cases hfits : retval.numBytes = 0 ∨
        retval.numBytes + front.numBytes ≤ limits.maxBytesPerEnvelope
    · rw [if_pos hfits] at hzero ⊢
      exact ih hzero
    · rw [if_neg hfits] at hzero
      exact absurd (Or.inl hzero) hfits

variable (limits) in
theorem currentEnvelope_takeNextEnvelopeHolder (s : MemoryStore M E U) :
    (s.takeNextEnvelopeHolder limits).2.currentEnvelope = {} ∨
      (s.takeNextEnvelopeHolder limits).2.currentEnvelope = s.currentEnvelope := by
  simp only [MemoryStore.takeNextEnvelopeHolder]
  split_ifs
  · exact Or.inl rfl
  · exact Or.inl rfl
  · exact Or.inr rfl
  · exact Or.inr rfl

/-- There is no next holder only if both the queue and the current envelope are empty. -/
theorem MemoryStore.Sound.exhausted (h : s.Sound pb limits)
    (hnone : (s.takeNextEnvelopeHolder limits).1 = none) :
    (s.takeNextEnvelopeHolder limits).2.finalizedEnvelopes = [] ∧
      (s.takeNextEnvelopeHolder limits).2.currentEnvelope = {} := by
  have hempty := @mergeFinalized_eq_nil M E U limits {} s.finalizedEnvelopes
    s.finalizedEnvelopesSize
  have hfits := h.fits
  simp only [MemoryStore.takeNextEnvelopeHolder] at hnone ⊢
  generalize MemoryStore.mergeFinalized limits ({} : EnvelopeMaker M E U) s.finalizedEnvelopes
    s.finalizedEnvelopesSize = r at hnone hempty ⊢
  obtain ⟨retval, finalized, finalizedSize⟩ := r
  dsimp only at hnone hempty ⊢
  by_cases hmerged : retval.numBytes + s.currentEnvelope.numBytes ≤ limits.maxBytesPerEnvelope
  · rw [if_pos hmerged] at hnone ⊢
    dsimp only at hnone ⊢
    by_cases hzero : (retval.mergeWith s.currentEnvelope).numBytes = 0
    · rw [if_pos hzero]
      exact ⟨hempty (Nat.eq_zero_of_add_eq_zero hzero).1, rfl⟩
    · rw [if_neg hzero] at hnone
      exact absurd hnone (by simp)
  · rw [if_neg hmerged] at hnone
    dsimp only at hnone
    by_cases hzero : retval.numBytes = 0
    · omega
    · rw [if_neg hzero] at hnone
      exact absurd hnone (by simp)

theorem MemoryStore.Sound.init : MemoryStore.Sound pb limits ({} : MemoryStore M E U) where
  inv := MemoryStore.Inv.init
  current := EnvelopeMaker.WF.empty
  finalized := by rintro maker ⟨⟩
  holders := by rintro maker ⟨⟩
  fits := Nat.zero_le _

theorem MemoryStore.Sound.storeObservation (h : s.Sound pb limits)
    (hpb : Function.Injective pb.metadataString) (o : Observation E U) (m : M) :
    (s.storeObservation pb limits (some o) m).2.Sound pb limits := by
  have hinv : (s.storeObservation pb limits (some o) m).2.Inv := h.inv.storeObservation (some o) m
  simp only [MemoryStore.storeObservation] at hinv ⊢
  split_ifs at hinv ⊢ with hdisabled hfull hswap
  · exact h
  · exact h
  · refine ⟨hinv, (EnvelopeMaker.WF.empty.storeObservation limits hpb o m).1,
      fun maker hmaker => ?_, h.holders, ?_⟩
    · rcases List.mem_append.mp hmaker with hmaker | hmaker
      · exact h.finalized maker hmaker
      · rw [List.mem_singleton.mp hmaker]
        exact h.current
    · exact (EnvelopeMaker.numBytes_storeObservation pb limits ({} : EnvelopeMaker M E U) (some o) m
        (Nat.zero_le _)).1
  · exact ⟨hinv, (h.current.storeObservation limits hpb o m).1, h.finalized, h.holders,
      (EnvelopeMaker.numBytes_storeObservation pb limits s.currentEnvelope (some o) m h.fits).1⟩

theorem MemoryStore.Sound.takeNextEnvelopeHolder (h : s.Sound pb limits)
    (hpb : Function.Injective pb.metadataString) (hpos : ∀ o, 0 < pb.byteSize (some o)) :
    (s.takeNextEnvelopeHolder limits).2.Sound pb limits := by
  obtain ⟨maker, htaken⟩ := takeNextEnvelopeHolder_taken limits hpb hpos h.current h.finalized
  refine ⟨h.inv.takeNextEnvelopeHolder.1, htaken.current,
    fun maker' hmaker => h.finalized maker' (htaken.finalized maker' hmaker),
    fun holder hholder => ?_, ?_⟩
  · rcases htaken.result with ⟨_, _, hholders⟩ | ⟨_, hholders⟩
    · exact h.holders holder (hholders ▸ hholder)
    · rw [hholders] at hholder
      rcases List.mem_append.mp hholder with hholder | hholder
      · exact h.holders holder hholder
      · rw [List.mem_singleton.mp hholder]
        exact htaken.wf
  · rcases currentEnvelope_takeNextEnvelopeHolder limits s with heq | heq
    · rw [heq]
      exact Nat.zero_le _
    · rw [heq]
      exact h.fits

theorem MemoryStore.Sound.returnEnvelopeHolder (h : s.Sound pb limits) (i : ℕ) :
    (s.returnEnvelopeHolder i).Sound pb limits := by
  have hinv := (h.inv.returnEnvelopeHolder i).1
  rw [MemoryStore.returnEnvelopeHolder] at hinv ⊢
  cases hholder : s.holders[i]? with
  | none => exact h
  | some holder =>
    rw [hholder] at hinv
    refine ⟨hinv, h.current, fun maker hmaker => ?_,
      fun holder' hholder' => h.holders holder' (List.mem_of_mem_eraseIdx hholder'), h.fits⟩
    rcases List.mem_append.mp hmaker with hmaker | hmaker
    · exact h.finalized maker hmaker
    · rw [List.mem_singleton.mp hmaker]
      exact h.holders holder (List.mem_of_getElem? hholder)

theorem MemoryStore.Sound.mergeWith (h : s.Sound pb limits)
    (hpb : Function.Injective pb.metadataString) (i j : ℕ) :
    (s.mergeWith i j).Sound pb limits := by
  have hinv := (h.inv.mergeWith i j).1
  rw [MemoryStore.mergeWith] at hinv ⊢
  cases hholder : s.holders[i]? with
  | none => exact h
  | some holder =>
    cases hother : s.holders[j]? with
    | none => exact h
    | some other =>
      rw [hholder, hother] at hinv
      dsimp only at hinv ⊢
      by_cases hij : i = j
      · rw [if_pos hij]
        exact h
      · rw [if_neg hij] at hinv ⊢
        refine ⟨hinv, h.current, h.finalized, fun holder' hholder' => ?_, h.fits⟩
        rcases List.mem_or_eq_of_mem_set (List.mem_of_mem_eraseIdx hholder') with hmem | rfl
        · exact h.holders holder' hmem
        · exact ((h.holders holder (List.mem_of_getElem? hholder)).mergeWith
            (h.holders other (List.mem_of_getElem? hother)) hpb).1

theorem MemoryStore.Sound.destroy (h : s.Sound pb limits) (i : ℕ) :
    MemoryStore.Sound pb limits { s with holders := s.holders.eraseIdx i } where
  inv := ⟨h.inv.finalizedSize, fun holder hholder =>
    h.inv.holders holder (List.mem_of_mem_eraseIdx hholder)⟩
  current := h.current
  finalized := h.finalized
  holders := fun holder hholder => h.holders holder (List.mem_of_mem_eraseIdx hholder)
  fits := h.fits

/-- Every operation keeps a store sound. -/
theorem MemoryOp.StoresSome.sound {op : MemoryOp M E U} (hop : op.StoresSome)
    (hpb : Function.Injective pb.metadataString) (hpos : ∀ o, 0 < pb.byteSize (some o))
    (h : s.Sound pb limits) : (op.apply pb limits s).Sound pb limits := by
  cases op with
  | storeObservation o m =>
    obtain ⟨o, rfl⟩ := Option.isSome_iff_exists.mp hop
    exact h.storeObservation hpb o m
  | takeNextEnvelopeHolder => exact h.takeNextEnvelopeHolder hpb hpos
  | returnEnvelopeHolder i => exact h.returnEnvelopeHolder i
  | mergeWith i j => exact h.mergeWith hpb i j
  | destroy i => exact h.destroy i
  | deleteData =>
    exact ⟨h.inv.deleteData, EnvelopeMaker.WF.empty, by rintro maker ⟨⟩, h.holders, Nat.zero_le _⟩
  | disable isDisabled =>
    exact ⟨⟨h.inv.finalizedSize, h.inv.holders⟩, h.current, h.finalized, h.holders, h.fits⟩

/-- The state after any operations is sound. -/
theorem MemoryStore.Sound.of_run (hpb : Function.Injective pb.metadataString)
    (hpos : ∀ o, 0 < pb.byteSize (some o)) {ops : List (MemoryOp M E U)}
    (hops : ∀ op ∈ ops, op.StoresSome) :
    (({} : MemoryStore M E U).run pb limits ops).Sound pb limits := by
  refine List.foldlRecOn ops _ MemoryStore.Sound.init fun s h op hop => ?_
  exact (hops op hop).sound hpb hpos h

/-! ### A turn of a pass -/

/-- A holder that is taken while none is outstanding: it is the only one, and has the
observations that are no longer in the store. -/
theorem MemoryStore.Sound.taken (h : s.Sound pb limits) (hpb : Function.Injective pb.metadataString)
    (hpos : ∀ o, 0 < pb.byteSize (some o)) (hholders : s.holders = [])
    (hsome : (s.takeNextEnvelopeHolder limits).1.isSome) :
    ∃ maker : EnvelopeMaker M E U, 0 < maker.numBytes ∧
      (s.takeNextEnvelopeHolder limits).2.holders = [maker] ∧
      (maker.pairs ++ (s.takeNextEnvelopeHolder limits).2.stored).Perm s.stored := by
  obtain ⟨maker, htaken⟩ := takeNextEnvelopeHolder_taken limits hpb hpos h.current h.finalized
  rcases htaken.result with ⟨hnone, _⟩ | ⟨_, hlist⟩
  · rw [hnone] at hsome
    exact absurd hsome (by simp)
  · rw [hholders, List.nil_append] at hlist
    refine ⟨maker, ?_, hlist, htaken.kept⟩
    exact (h.takeNextEnvelopeHolder hpb hpos).inv.holders maker (hlist ▸ List.mem_singleton_self _)

/-- A holder that is taken and returned. -/
theorem MemoryStore.Sound.returned (h : s.Sound pb limits)
    (hpb : Function.Injective pb.metadataString) (hpos : ∀ o, 0 < pb.byteSize (some o))
    (hholders : s.holders = []) (hsome : (s.takeNextEnvelopeHolder limits).1.isSome) :
    let r := (s.takeNextEnvelopeHolder limits).2.returnEnvelopeHolder 0
    (r.Sound pb limits ∧ r.holders = []) ∧ r.stored.Perm s.stored ∧ r.bytes = s.bytes := by
  intro r
  obtain ⟨maker, -, hlist, hstored⟩ := h.taken hpb hpos hholders hsome
  have hsound := (h.takeNextEnvelopeHolder hpb hpos).returnEnvelopeHolder 0
  have hbytes : (s.takeNextEnvelopeHolder limits).2.bytes = s.bytes :=
    h.inv.takeNextEnvelopeHolder.2.1
  have hreturned :=
    ((h.takeNextEnvelopeHolder hpb hpos).inv.returnEnvelopeHolder 0).2.trans hbytes
  have hr : r = { (s.takeNextEnvelopeHolder limits).2.addEnvelopeToSend maker with
      holders := [] } := by
    simp only [r, MemoryStore.returnEnvelopeHolder, hlist]
    rfl
  refine ⟨⟨hsound, by rw [hr]⟩, ?_, hreturned⟩
  have hadded : r.stored = (s.takeNextEnvelopeHolder limits).2.stored ++ maker.pairs := by
    rw [hr, MemoryStore.stored, MemoryStore.addEnvelopeToSend, List.flatMap_append,
      List.flatMap_singleton, ← List.append_assoc, MemoryStore.stored]
  rw [hadded]
  exact List.perm_append_comm.trans hstored

/-- A holder that is taken and destroyed. -/
theorem MemoryStore.Sound.destroyed (h : s.Sound pb limits)
    (hpb : Function.Injective pb.metadataString) (hpos : ∀ o, 0 < pb.byteSize (some o))
    (hholders : s.holders = []) (hsome : (s.takeNextEnvelopeHolder limits).1.isSome) :
    let t := (s.takeNextEnvelopeHolder limits).2
    let r := { t with holders := t.holders.eraseIdx 0 }
    (r.Sound pb limits ∧ r.holders = []) ∧
      (t.holders[0]?.elim [] EnvelopeMaker.pairs ++ r.stored).Perm s.stored ∧
      r.bytes < s.bytes := by
  intro t r
  obtain ⟨maker, hmaker, hlist, hstored⟩ := h.taken hpb hpos hholders hsome
  have hsound := (h.takeNextEnvelopeHolder hpb hpos).destroy 0
  have hbytes : t.bytes = s.bytes := h.inv.takeNextEnvelopeHolder.2.1
  have hempty : r.holders = [] := congrArg (List.eraseIdx · 0) hlist
  refine ⟨⟨hsound, hempty⟩, ?_, ?_⟩
  · rw [hlist]
    exact hstored
  · rw [MemoryStore.bytes, hlist, totalBytes_cons, totalBytes_nil] at hbytes
    rw [MemoryStore.bytes, hempty, totalBytes_nil, ← hbytes]
    exact Nat.add_lt_add_left hmaker _

/-- **The laws that a pass needs.** The weight is the number of bytes. -/
theorem MemoryStore.accounts (hpb : Function.Injective pb.metadataString)
    (hpos : ∀ o, 0 < pb.byteSize (some o)) :
    (MemoryStore.interface M E U limits).Accounts (fun _ => True)
      (fun s => s.Sound pb limits ∧ s.holders = []) MemoryStore.bytes where
  exhausted := by
    rintro _ s _ - ⟨h, -⟩ htake
    obtain ⟨hresult, rfl⟩ := Prod.mk.inj htake
    have hnone : (s.takeNextEnvelopeHolder limits).1 = none := Option.map_eq_none_iff.mp hresult
    obtain ⟨hfinalized, hcurrent⟩ := h.exhausted hnone
    have hstored : (s.takeNextEnvelopeHolder limits).2.stored = [] := by
      rw [MemoryStore.stored, hfinalized, hcurrent]
      rfl
    obtain ⟨maker, htaken⟩ := takeNextEnvelopeHolder_taken limits hpb hpos h.current h.finalized
    refine ⟨?_, hstored, ?_⟩
    · rcases htaken.result with ⟨_, hnil, _⟩ | ⟨hsome, _⟩
      · have hkept := htaken.kept
        rw [hnil, List.nil_append] at hkept
        exact List.perm_nil.mp (hkept.symm.trans (List.Perm.of_eq hstored))
      · rw [hsome] at hnone
        exact absurd hnone (by simp)
    · change (s.takeNextEnvelopeHolder limits).2.empty = true
      rw [MemoryStore.empty, hfinalized, hcurrent]
      rfl
  returned := by
    rintro _ s holder _ - ⟨h, hholders⟩ htake
    obtain ⟨hresult, rfl⟩ := Prod.mk.inj htake
    obtain ⟨maker, hsome, rfl⟩ := Option.map_eq_some_iff.mp hresult
    obtain ⟨hsound, hstored, hbytes⟩ := h.returned hpb hpos hholders (hsome ▸ rfl)
    rw [hholders]
    exact ⟨hsound, hstored, hbytes.le⟩
  destroyed := by
    rintro _ s holder _ - ⟨h, hholders⟩ htake
    obtain ⟨hresult, rfl⟩ := Prod.mk.inj htake
    obtain ⟨maker, hsome, rfl⟩ := Option.map_eq_some_iff.mp hresult
    rw [hholders]
    exact h.destroyed hpb hpos hholders (hsome ▸ rfl)

end Cobalt.ObservationStore
