import Cobalt.ObservationStore.SettledFiles
import Cobalt.Uploader.MemoryPass

/-!
# A pass over the file observation store

`TakeNextEnvelopeHolder` hands out the oldest finalized file that is not taken. If there is none,
the active file is finalized and handed out, unless it is empty. A holder that is returned leaves
the store as it was, so that the same file is taken next; a holder that is destroyed takes its file
with it. What a turn of a pass makes smaller is the number of files.

The file system does not fail, and a generated name is not in use.

## Main definitions

* `Store.interface`: the store, as a pass uses it.
* `Store.PassReady`: a store between two turns of a pass.

## Main results

* `Store.accounts`: the laws that a pass needs.
* `sendAllEnvelopes_passEnds`: a pass over each of the two stores.
-/

namespace Cobalt.ObservationStore

open Uploader (StoreInterface)

variable {M E U : Type}

section Definitions

variable (pb : Protobuf M E U) (encrypt : U → Option E)

/-- The observations in the store: those in finalized files that are not taken, and those in the
active file. -/
def Store.stored (s : Store M E U) : List (M × Observation E U) :=
  s.untaken.flatMap (s.contents pb) ++ observationsIn pb (s.activeFile.getD [])

/-- `Empty`. -/
def Store.empty (s : Store M E U) : Bool := s.size = 0

/-- The store, as `SendAllEnvelopes` uses it, on a file system that does not fail. A file name is
generated from a time and a random number. -/
def Store.interface : StoreInterface (Store M E U) (ℕ × ℕ) (M × Observation E U) where
  takeNextEnvelopeHolder naming s :=
    let s' := s.takeNextEnvelopeHolder (generateFilename naming.1 naming.2) {}
    (if s.holders.length < s'.holders.length then some s.holders.length else none, s')
  getEnvelope i s := s.getEnvelope pb encrypt i
  returnEnvelopeHolder i s := s.returnEnvelopeHolder i
  destroy i s := s.destroy i {}
  empty := Store.empty
  held i s := s.holders[i]?.elim [] fun holder => holder.fileNames.flatMap (s.contents pb)
  stored := Store.stored pb

end Definitions

variable {pb : Protobuf M E U} {encrypt : U → Option E} {s : Store M E U}

/-! ### A turn of a pass -/

theorem Store.mem_untaken {name : String} : name ∈ s.untaken ↔
    (s.disk.lookup name).isSome ∧ isFinalizedFileName name = true ∧ name ∉ s.filesTaken := by
  rw [Store.untaken, List.mem_filter, Store.listFinalizedFiles, Disk.mem_keys_filter, and_assoc,
    decide_eq_true_iff]

theorem Store.untaken_nodup (s : Store M E U) : s.untaken.Nodup :=
  (s.disk.keys_nodup.filter _).filter _

/-- The number of files that can still be taken, with the active file if it is not empty. -/
def Store.filesLeft (s : Store M E U) : ℕ := s.untaken.length + if s.byteCount = 0 then 0 else 1

/-- A store between two turns of a pass: no holder is outstanding, and the name that the active
file can get is not in use. -/
structure Store.PassReady (allowed : ℕ × ℕ → Prop) (s : Store M E U) : Prop where
  settled : s.Settled
  holders : s.holders = []
  available : s.byteCount = 0 ∨ ∀ naming, allowed naming → s.Available naming.1 naming.2

variable {allowed : ℕ × ℕ → Prop}

/-- Files that are taken are not on the disk. -/
theorem Store.PassReady.lookup_of_taken (h : s.PassReady allowed) {name : String}
    (hname : name ∈ s.filesTaken) : s.disk.lookup name = none := by
  by_contra hsome
  have howned := h.settled.taken name hname (Option.isSome_iff_ne_none.mpr hsome)
  rw [Store.owned, h.holders] at howned
  exact absurd howned List.not_mem_nil

theorem Store.stored_of_byteCount (hpb : pb.Lawful) (hzero : s.byteCount = 0) :
    s.stored pb = s.untaken.flatMap (s.contents pb) := by
  have hnil : s.activeFile.getD [] = [] := List.length_eq_zero_iff.mp hzero
  have hempty : observationsIn pb ([] : Bytes) = [] := observationsIn_encodeAll hpb []
  rw [Store.stored, hnil, hempty, List.append_nil]

/-- The active file is finalized when there is no other file: it is then the only one. -/
theorem Store.PassReady.finalized (h : s.PassReady allowed) (hpb : pb.Lawful)
    (hnone : s.untaken = []) (hpos : s.byteCount ≠ 0) {naming : ℕ × ℕ} (hnaming : allowed naming) :
    ∃ s₁ name, s.finalizeActiveFile (generateFilename naming.1 naming.2) {} = (true, s₁) ∧
      s₁.PassReady allowed ∧ s₁.stored pb = s.stored pb ∧ s₁.filesLeft = s.filesLeft ∧
      s₁.getOldestFinalizedFile = some name := by
  have hname := h.available.resolve_left hpos naming hnaming
  obtain ⟨bytes, hbytes⟩ : ∃ bytes, s.activeFile = some bytes := by
    cases hactive : s.activeFile with
    | none => exact absurd (by rw [Store.byteCount, hactive]; rfl) hpos
    | some bytes => exact ⟨bytes, rfl⟩
  have hne : bytes ≠ [] := by
    rintro rfl
    exact hpos (by rw [Store.byteCount, hbytes]; rfl)
  have hunder : s.disk.lookup kActiveFileName = some [] := by
    rcases h.settled.active with ⟨hclosed, _⟩ | ⟨_, hunder⟩
    · rw [hclosed] at hbytes
      exact absurd hbytes (by simp)
    · exact hunder
  obtain ⟨s₁, heq, hclosed, -, hholders, -, -, -, hnew, hother⟩ :=
    finalize_spec hbytes hne hunder hname.1.name
  have hsettled := h.settled.finalizeActiveFile hname
  have htaken := (holders_finalizeActiveFile s (generateFilename naming.1 naming.2) {}).2
  rw [heq] at hsettled htaken
  -- The new file is the only one that is not taken.
  have huntaken : s₁.untaken = [generateFilename naming.1 naming.2] := by
    refine List.perm_singleton.mp ((List.perm_ext_iff_of_nodup s₁.untaken_nodup
      (List.nodup_singleton _)).mpr fun name => ?_)
    rw [Store.mem_untaken, List.mem_singleton, htaken]
    constructor
    · rintro ⟨hsome, hfinalized, hnot⟩
      by_contra hdiff
      rw [hother name hfinalized hdiff] at hsome
      exact absurd (Store.mem_untaken.mpr ⟨hsome, hfinalized, hnot⟩) (by simp [hnone])
    · rintro rfl
      exact ⟨hnew ▸ rfl, hname.1.name, hname.2⟩
  have hzero : s₁.byteCount = 0 := by
    rw [Store.byteCount, hclosed]
    rfl
  obtain ⟨name, hoption⟩ := Option.isSome_iff_exists.mp
    (getOldestFinalizedFile_isSome (s := s₁) (hnew ▸ rfl) hname.1.name (htaken ▸ hname.2))
  refine ⟨s₁, name, heq, ⟨hsettled, hholders.trans h.holders, Or.inl hzero⟩, ?_, ?_, hoption⟩
  · rw [Store.stored_of_byteCount hpb hzero, huntaken, List.flatMap_singleton, Store.contents, hnew,
      Store.stored, hnone, hbytes]
    rfl
  · rw [Store.filesLeft, huntaken, if_pos hzero, Store.filesLeft, hnone, if_neg hpos]
    rfl

/-- The two outcomes of `TakeNextEnvelopeHolder`: there is nothing in the store, or a file is
taken, if necessary after the active file was finalized. -/
theorem Store.PassReady.takeNext_cases (h : s.PassReady allowed) (hpb : pb.Lawful)
    {naming : ℕ × ℕ} (hnaming : allowed naming) :
    (s.takeNextEnvelopeHolder (generateFilename naming.1 naming.2) {} = s ∧ s.untaken = [] ∧
      s.byteCount = 0) ∨
    ∃ (s₁ : Store M E U) (name : String),
      s.takeNextEnvelopeHolder (generateFilename naming.1 naming.2) {} = s₁.take name ∧
      s₁.PassReady allowed ∧ s₁.stored pb = s.stored pb ∧ s₁.filesLeft = s.filesLeft ∧
      s₁.getOldestFinalizedFile = some name := by
  rw [Store.takeNextEnvelopeHolder]
  cases hoption : s.getOldestFinalizedFile with
  | some name => exact Or.inr ⟨s, name, rfl, h, rfl, rfl, hoption⟩
  | none =>
    have hnone : s.untaken = [] := by
      refine List.eq_nil_iff_forall_not_mem.mpr fun name hmem => ?_
      obtain ⟨hsome, hfinalized, hnot⟩ := Store.mem_untaken.mp hmem
      have hisSome := getOldestFinalizedFile_isSome hsome hfinalized hnot
      rw [hoption] at hisSome
      exact absurd hisSome (by simp)
    dsimp only
    by_cases hzero : s.byteCount = 0
    · rw [if_pos hzero]
      exact Or.inl ⟨rfl, hnone, hzero⟩
    · obtain ⟨s₁, name, heq, hready, hstored, hleft, hoption₁⟩ :=
        h.finalized hpb hnone hzero hnaming
      refine Or.inr ⟨s₁, name, ?_, hready, hstored, hleft, hoption₁⟩
      rw [if_neg hzero, heq]
      dsimp only
      rw [hoption₁]

namespace Store.PassReady

variable {name : String}

/-- The state in which an envelope is sent: the file is taken and is in the only holder. -/
theorem sending (pb : Protobuf M E U) (encrypt : U → Option E) (hholders : s.holders = [])
    (name : String) :
    ∃ holder : FileEnvelopeHolder M E, holder.fileNames = [name] ∧
      (s.take name).getEnvelope pb encrypt 0 =
        { s with filesTaken := insert name s.filesTaken, holders := [holder] } := by
  refine ⟨{ fileNames := [name], envelope := some ((s.take name).envelopeOf pb encrypt
    { fileNames := [name] }) }, rfl, ?_⟩
  rw [Store.getEnvelope, Store.take, hholders]
  rfl

/-- A holder that is taken and returned leaves the store as it was. -/
theorem returned (h : s.PassReady allowed) (hname : s.getOldestFinalizedFile = some name) :
    ((s.take name).getEnvelope pb encrypt 0).returnEnvelopeHolder 0 = s := by
  have hfresh := (getOldestFinalizedFile_spec hname).2.2
  obtain ⟨holder, hnames, heq⟩ := sending pb encrypt h.holders name
  have htaken : insert name s.filesTaken \ [name].toFinset = s.filesTaken := by
    rw [List.toFinset_cons, List.toFinset_nil, insert_empty_eq, Finset.sdiff_singleton_eq_erase,
      Finset.erase_insert hfresh]
  have hholders := h.holders
  rw [heq, Store.returnEnvelopeHolder]
  simp only [List.getElem?_cons_zero, List.eraseIdx_cons_zero, hnames, htaken]
  rw [← hholders]

/-- A holder that is taken and destroyed takes its file with it. -/
theorem destroyed (h : s.PassReady allowed) (hname : s.getOldestFinalizedFile = some name) :
    let t := (s.take name).getEnvelope pb encrypt 0
    let r := t.destroy 0 {}
    r.PassReady allowed ∧
      (t.holders[0]?.elim [] (fun holder => holder.fileNames.flatMap (t.contents pb)) ++
        r.stored pb).Perm (s.stored pb) ∧
      r.filesLeft < s.filesLeft := by
  intro t r
  obtain ⟨hsome, hfinalized, hfresh⟩ := getOldestFinalizedFile_spec hname
  obtain ⟨holder, hnames, heq⟩ := sending pb encrypt h.holders name
  have hsettled : r.Settled := ((h.settled.take hname).getEnvelope 0).destroyHolder 0 fun _ => rfl
  have hholder : t.holders[0]? = some holder := by
    rw [show t = _ from heq]
    rfl
  obtain ⟨hholders, htaken, hactive, hlookup⟩ :
      r.holders = t.holders.eraseIdx 0 ∧ r.filesTaken = t.filesTaken ∧
        r.activeFile = t.activeFile ∧ ∀ name', r.disk.lookup name' =
          if name' ∈ holder.fileNames then none else t.disk.lookup name' :=
    @destroyHolder_eq M E U t (fun _ => false) (fun _ => rfl) 0 holder hholder
  rw [show t = _ from heq] at hholders htaken hactive hlookup
  simp only [hnames, List.mem_singleton] at hlookup
  have hcount : r.byteCount = s.byteCount := by
    rw [Store.byteCount, hactive, Store.byteCount]
  have huntaken : s.untaken.Perm (name :: r.untaken) := by
    have hnot : name ∉ r.untaken := fun hmem => by
      simp [Store.mem_untaken, hlookup] at hmem
    refine (List.perm_ext_iff_of_nodup s.untaken_nodup (r.untaken_nodup.cons hnot)).mpr
      fun name' => ?_
    rw [List.mem_cons, Store.mem_untaken, Store.mem_untaken, hlookup, htaken, Finset.mem_insert]
    by_cases hsame : name' = name
    · subst hsame
      simp [hsome, hfinalized, hfresh]
    · simp [hsame]
  have hcontents : r.untaken.flatMap (r.contents pb) = r.untaken.flatMap (s.contents pb) := by
    refine List.flatMap_congr fun name' hmem => ?_
    obtain ⟨hsome', -⟩ := Store.mem_untaken.mp hmem
    rw [Store.contents, hlookup, Store.contents]
    split_ifs with hsame
    · rw [hlookup, if_pos hsame] at hsome'
      exact absurd hsome' (by simp)
    · rfl
  refine ⟨⟨hsettled, hholders, ?_⟩, ?_, ?_⟩
  · rcases h.available with hzero | havailable
    · exact Or.inl (hcount.trans hzero)
    · refine Or.inr fun naming hnaming => ?_
      obtain ⟨⟨hmin, hmax, hlookup'⟩, hnot⟩ := havailable naming hnaming
      have hdiff : generateFilename naming.1 naming.2 ≠ name := by
        intro heq'
        rw [heq'] at hlookup'
        rw [hlookup'] at hsome
        exact absurd hsome (by simp)
      refine ⟨⟨hmin, hmax, ?_⟩, ?_⟩
      · rw [hlookup, if_neg hdiff, hlookup']
      · rw [htaken, Finset.mem_insert]
        exact not_or.mpr ⟨hdiff, hnot⟩
  · have hheld : holder.fileNames.flatMap (t.contents pb) = s.contents pb name := by
      rw [hnames, List.flatMap_singleton, show t = _ from heq]
      rfl
    rw [hholder, Option.elim_some, hheld, Store.stored, hcontents, hactive, ← List.append_assoc,
      Store.stored]
    exact (huntaken.flatMap_right _).symm.append_right _
  · rw [Store.filesLeft, hcount, Store.filesLeft, huntaken.length_eq, List.length_cons]
    omega

end Store.PassReady

/-- The next holder, as a pass gets it: there is none, or it is the only one. -/
theorem Store.PassReady.interface_cases (h : s.PassReady allowed) (hpb : pb.Lawful)
    {naming : ℕ × ℕ} (hnaming : allowed naming) :
    ((Store.interface pb encrypt).takeNextEnvelopeHolder naming s = (none, s) ∧ s.untaken = [] ∧
      s.byteCount = 0) ∨
    ∃ (s₁ : Store M E U) (name : String),
      (Store.interface pb encrypt).takeNextEnvelopeHolder naming s = (some 0, s₁.take name) ∧
      s₁.PassReady allowed ∧ s₁.stored pb = s.stored pb ∧ s₁.filesLeft = s.filesLeft ∧
      s₁.getOldestFinalizedFile = some name := by
  have hresult : (Store.interface pb encrypt).takeNextEnvelopeHolder naming s =
      (if 0 < (s.takeNextEnvelopeHolder
          (generateFilename naming.1 naming.2) {}).holders.length then some 0 else none,
        s.takeNextEnvelopeHolder (generateFilename naming.1 naming.2) {}) := by
    change (if s.holders.length < _ then some s.holders.length else none, _) = _
    rw [h.holders]
    rfl
  rw [hresult]
  rcases h.takeNext_cases hpb hnaming with ⟨heq, hrest⟩ | ⟨s₁, name, heq, hready, hrest⟩
  · refine Or.inl ⟨?_, hrest⟩
    rw [heq, h.holders]
    rfl
  · refine Or.inr ⟨s₁, name, ?_, hready, hrest⟩
    rw [heq, Store.take, hready.holders]
    rfl

/-- A holder that a pass gets is number 0, and has the oldest file. -/
theorem Store.PassReady.taken_of_interface (h : s.PassReady allowed) (hpb : pb.Lawful)
    {naming : ℕ × ℕ} (hnaming : allowed naming) {i : ℕ} {s' : Store M E U}
    (htake : (Store.interface pb encrypt).takeNextEnvelopeHolder naming s = (some i, s')) :
    ∃ (s₁ : Store M E U) (name : String), i = 0 ∧ s' = s₁.take name ∧ s₁.PassReady allowed ∧
      s₁.stored pb = s.stored pb ∧ s₁.filesLeft = s.filesLeft ∧
      s₁.getOldestFinalizedFile = some name := by
  rcases h.interface_cases hpb hnaming with ⟨heq, -⟩ | ⟨s₁, name, heq, hrest⟩
  · exact absurd (heq.symm.trans htake) (by simp)
  · obtain ⟨hi, hs'⟩ := Prod.mk.inj (heq.symm.trans htake)
    exact ⟨s₁, name, (Option.some.inj hi).symm, hs'.symm, hrest⟩

/-- A store without files is empty. -/
theorem Store.PassReady.empty (h : s.PassReady allowed) (hnone : s.untaken = [])
    (hzero : s.byteCount = 0) : s.empty = true := by
  have htotal : s.disk.totalSize isFinalizedFileName = 0 := by
    refine Disk.totalSize_eq_zero fun name hname => ?_
    by_cases htaken : name ∈ s.filesTaken
    · rw [h.lookup_of_taken htaken]
      rfl
    · cases hlookup : s.disk.lookup name with
      | none => rfl
      | some bytes =>
        have hmem := Store.mem_untaken.mpr ⟨hlookup ▸ rfl, hname, htaken⟩
        rw [hnone] at hmem
        exact absurd hmem List.not_mem_nil
  have hsize : s.size = 0 := by
    rw [Store.size, h.settled.accounted.counted, htotal, hzero]
  rw [Store.empty, hsize]
  rfl

/-- The laws that a pass needs. The weight is the number of files. -/
theorem Store.accounts (hpb : pb.Lawful) :
    (Store.interface pb encrypt).Accounts allowed (Store.PassReady allowed) Store.filesLeft where
  exhausted := by
    intro naming s s' hnaming h htake
    rcases h.interface_cases hpb hnaming with ⟨heq, hnone, hzero⟩ | ⟨s₁, name, heq, -⟩
    · obtain ⟨-, rfl⟩ := Prod.mk.inj (heq.symm.trans htake)
      have hstored : s.stored pb = [] := by
        rw [Store.stored_of_byteCount hpb hzero, hnone]
        rfl
      exact ⟨hstored, hstored, h.empty hnone hzero⟩
    · exact absurd (heq.symm.trans htake) (by simp)
  returned := by
    intro naming s i s' hnaming h htake
    obtain ⟨s₁, name, rfl, rfl, h₁, hstored, hleft, hname⟩ :=
      h.taken_of_interface hpb hnaming htake
    have hsame : ∀ r : Store M E U, r = s₁ → r.PassReady allowed ∧
        (r.stored pb).Perm (s.stored pb) ∧ r.filesLeft ≤ s.filesLeft := by
      rintro r rfl
      exact ⟨h₁, List.Perm.of_eq hstored, hleft.le⟩
    exact hsame _ (h₁.returned hname)
  destroyed := by
    intro naming s i s' hnaming h htake
    obtain ⟨s₁, name, rfl, rfl, h₁, hstored, hleft, hname⟩ :=
      h.taken_of_interface hpb hnaming htake
    obtain ⟨hready, hperm, hlt⟩ :=
      @Store.PassReady.destroyed M E U pb encrypt s₁ allowed name h₁ hname
    rw [hstored] at hperm
    rw [hleft] at hlt
    exact ⟨hready, hperm, hlt⟩

end Cobalt.ObservationStore

namespace Cobalt.Uploader

open ObservationStore

/-! ### Both stores -/

/-- **A pass over each of the two stores.** Let any operations on a `MemoryObservationStore` be
made, in which every stored observation has a field set and thus at least one byte, or any
operations in which nothing fails on a `FileObservationStore` that was built on any directory. Let
no holder be outstanding, and let an enabled manager run `SendAllEnvelopes`, with any results of the
sends and any callbacks that come meanwhile. The pass ends, every observation has been delivered
once or is in the store, and every callback has been invoked once, with `true` if and only if no
send has failed, and then the store is empty. -/
theorem sendAllEnvelopes_passEnds {M E U C : Type} {pb : Protobuf M E U} {encrypt : U → Option E}
    {limits : Limits} (hpb : pb.Lawful) (hpos : ∀ o, 0 < pb.byteSize (some o)) :
    (∀ (ops : List (MemoryOp M E U)) (turns : ℕ → Turn Unit C)
      (s : Manager (MemoryStore M E U) (Pair M E U) C),
      (∀ op ∈ ops, op.StoresSome) →
      s.observationStore = ({} : MemoryStore M E U).run pb limits ops →
      s.observationStore.holders = [] → s.isDisabled = false →
      PassEnds (MemoryStore.interface M E U limits) turns s) ∧
    (∀ (disk : Disk) (now random : ℕ) (turns : ℕ → Turn (ℕ × ℕ) C)
      (s : Manager (Store M E U) (M × Observation E U) C),
      ({ disk := disk } : Store M E U).Unused now random →
      Relation.ReflTransGen (StoreStep pb encrypt limits fun s op => op.Succeeds s)
        (Store.new disk (generateFilename now random) {}) s.observationStore →
      s.observationStore.holders = [] → s.isDisabled = false →
      (∀ turn, s.observationStore.Available (turns turn).naming.1 (turns turn).naming.2) →
      PassEnds (Store.interface pb encrypt) turns s) := by
  constructor
  · intro ops turns s hops hrun hholders henabled
    have hsound : s.observationStore.Sound pb limits :=
      hrun ▸ MemoryStore.Sound.of_run hpb.metadataString_injective hpos hops
    exact (MemoryStore.accounts hpb.metadataString_injective hpos).passEnds (fun _ => trivial)
      ⟨hsound, hholders⟩ henabled
  · intro disk now random turns s hnew hrun hholders henabled havailable
    have haccounts : (Store.interface pb encrypt).Accounts
        (fun naming => s.observationStore.Available naming.1 naming.2)
        (Store.PassReady fun naming => s.observationStore.Available naming.1 naming.2)
        Store.filesLeft :=
      Store.accounts hpb
    refine haccounts.passEnds havailable ?_ henabled
    exact ⟨Store.Settled.of_run hnew hrun, hholders, Or.inr fun _ hname => hname⟩

/-- A memory store with three envelopes, and a manager with one callback. -/
def threeEnvelopes : Manager (MemoryStore Bool Bool Bool) (Pair Bool Bool Bool) ℕ where
  observationStore := ({} : MemoryStore Bool Bool Bool).run flagProtobuf ⟨10, 7, 100⟩
    [.storeObservation (some (.encrypted true)) true,
      .storeObservation (some (.unencrypted true)) false,
      .storeObservation (some (.encrypted false)) true]
  sendCallbackQueue := [0]

/-- A file store with an observation in its active file, and a manager with one callback. -/
def oneFile : Manager (Store Bool Bool Bool) (Bool × Observation Bool Bool) ℕ where
  observationStore :=
    (StoreOp.storeObservation (some (.encrypted true)) true 0 kMinRandomNumber {}).apply
      flagProtobuf some ⟨100, 100, 100⟩ (.new ∅ (generateFilename 1 kMinRandomNumber) {})
  sendCallbackQueue := [0]

/-- The first send fails, and another callback comes in the second turn. -/
def firstSendFails {N : Type} (naming : N) (turn : ℕ) : Turn N ℕ where
  naming := naming
  sendFails := turn = 0
  requested := if turn = 1 then [1] else []

/-- Both passes deliver everything in spite of the failure: in the first one the three observations
are in other envelopes than before. -/
theorem sendAllEnvelopes_passEnds_firstSendFails :
    (threeEnvelopes.sendAllEnvelopes (MemoryStore.interface Bool Bool Bool ⟨10, 7, 100⟩)
        (firstSendFails ()) 20).map (fun s => (s.delivered, s.invoked)) =
      some ([(false, some (.unencrypted true)), (true, some (.encrypted true)),
        (true, some (.encrypted false))], [(0, false), (1, false)]) ∧
    PassEnds (MemoryStore.interface Bool Bool Bool ⟨10, 7, 100⟩) (firstSendFails ())
      threeEnvelopes ∧
    (oneFile.sendAllEnvelopes (Store.interface flagProtobuf some)
        (firstSendFails (0, kMinRandomNumber)) 20).map (fun s => (s.delivered, s.invoked)) =
      some ([(true, .encrypted true)], [(0, false), (1, false)]) ∧
    PassEnds (Store.interface flagProtobuf some) (firstSendFails (0, kMinRandomNumber))
      oneFile := by
  have hpass := @sendAllEnvelopes_passEnds Bool Bool Bool ℕ flagProtobuf some ⟨10, 7, 100⟩
    flagProtobuf_lawful flagProtobuf_sized.byteSize_pos
  have hpass' := @sendAllEnvelopes_passEnds Bool Bool Bool ℕ flagProtobuf some ⟨100, 100, 100⟩
    flagProtobuf_lawful flagProtobuf_sized.byteSize_pos
  refine ⟨by decide +kernel, ?_, by decide +kernel, ?_⟩
  · refine hpass.1 _ _ threeEnvelopes ?_ rfl (by decide +kernel) rfl
    simp [MemoryOp.StoresSome]
  · have havailable : oneFile.observationStore.Available 0 kMinRandomNumber :=
      ⟨⟨by decide, by decide, by decide +kernel⟩, by decide +kernel⟩
    refine hpass'.2 ∅ 1 kMinRandomNumber _ oneFile ⟨by decide, by decide, by decide +kernel⟩ ?_
      (by decide +kernel) rfl fun _ => havailable
    refine Relation.ReflTransGen.single
      ⟨.storeObservation (some (.encrypted true)) true 0 kMinRandomNumber {}, ?_, rfl⟩
    exact ⟨⟨⟨by decide, by decide, by decide +kernel⟩, by decide +kernel⟩, rfl⟩

end Cobalt.Uploader
