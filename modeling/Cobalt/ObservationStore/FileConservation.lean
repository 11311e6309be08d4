import Cobalt.ObservationStore.FileStoreInvariant

/-!
# Conservation of observations

In a run without failures, every observation that a `FileObservationStore` accepts is in exactly one
place: the active file, a finalized file that is not taken, or an outstanding holder. No two holders
own the same file, and the envelope of a holder lists the observations of its files.

The last part has a condition. `GetEnvelope` parses every record into the same message without
clearing it, so an unencrypted observation that comes right after another one is merged into it. The
envelope lists the observations as they were stored if this makes no difference.

## Main definitions

* `Op.Faultless`: the operations of a run without failures.
* `Store.places`: the observations that are in each place.
* `Store.Conserved`: the conservation law.

## Main results

* `conserved_of_run`: the law holds in every state that is reached by operations without failures
  that merge safely.
* `listed_merged`: without the condition an envelope lists an observation that was not stored.
-/

namespace Cobalt.ObservationStore

variable {M E U : Type} {pb : Protobuf M E U} {encrypt : U → Option E} {limits : Limits}
  {s : Store M E U}

/-! ### The law -/

/-- An operation in which nothing fails. A restart is orderly: there is no outstanding holder. -/
def Op.Faultless (s : Store M E U) : Op M E U → Prop
  | .storeObservation _ _ now random faults | .takeNextEnvelopeHolder now random faults =>
    s.NewName now random ∧ faults = {}
  | .returnEnvelopeHolder _ | .mergeWith _ _ | .getEnvelope _ => True
  | .destroy _ faults => faults = {}
  | .restart now random faults => s.NewName now random ∧ faults = {} ∧ s.holders = []

variable (pb encrypt)

/-- The observations that are written in a file. -/
def Store.contents (s : Store M E U) (name : String) : List (M × Observation E U) :=
  observationsIn pb ((s.disk.lookup name).getD [])

/-- The finalized files that are not taken. -/
def Store.untaken (s : Store M E U) : List String :=
  s.listFinalizedFiles.filter (· ∉ s.filesTaken)

/-- The observations in each place: the active file, the finalized files that are not taken, and the
outstanding holders. -/
def Store.places (s : Store M E U) : List (List (M × Observation E U)) :=
  observationsIn pb (s.activeFile.getD []) ::
    (s.untaken.map (s.contents pb) ++
      s.holders.map fun holder => holder.fileNames.flatMap (s.contents pb))

/-- The conservation law. The accepted observations are those that were in destroyed holders and
those that are in the places, no file has two owners, and the envelope of each holder has a batch
for each metadata and lists the observations of the holder. -/
structure Store.Conserved (s : Store M E U) : Prop where
  accepted : s.accepted.Perm (s.destroyed ++ (s.places pb).flatten)
  owned_nodup : s.owned.Nodup
  batches : ∀ holder ∈ s.holders,
    ((s.envelopeOf pb encrypt holder).map ObservationBatch.metaData).Nodup
  listed : ∀ holder ∈ s.holders, (listed (s.envelopeOf pb encrypt holder)).Perm
    ((holder.fileNames.flatMap (s.contents pb)).map fun p => (p.1, pb.toEncrypted encrypt p.2))

variable {pb encrypt}

/-! ### The law from the invariant -/

theorem Op.Faultless.admissible {op : Op M E U} (hop : op.Faultless s)
    (hsafe : op.MergesSafely pb limits s) : op.Admissible True pb limits s := by
  have hsurvives : s.Survives True pb {} := ⟨rfl, by simp⟩
  cases op with
  | storeObservation observation m now random faults =>
    obtain ⟨hnew, rfl⟩ := hop
    exact ⟨hnew, hsurvives, fun _ => hsafe⟩
  | takeNextEnvelopeHolder now random faults =>
    obtain ⟨hnew, rfl⟩ := hop
    exact ⟨hnew, hsurvives⟩
  | returnEnvelopeHolder i => trivial
  | mergeWith i j => trivial
  | getEnvelope i => trivial
  | destroy i faults =>
    obtain rfl : faults = {} := hop
    rfl
  | restart now random faults =>
    obtain ⟨hnew, rfl, hholders⟩ := hop
    exact ⟨hnew, hsurvives, hholders⟩

/-- A finalized file, in a run without failures. -/
theorem Store.Inv.intact (h : s.Inv True pb encrypt) {name : String} {bytes : Bytes}
    (hbytes : s.disk.lookup name = some bytes) (hne : name ≠ kActiveFileName) :
    ∃ records, bytes = encodeAll pb records ∧ Intact pb records ∧
      observationsOf none records = s.placedIn name := by
  obtain ⟨_, _, records, tail, rfl, hstart, hobs, hstrict⟩ := h.files name bytes hbytes hne
  obtain ⟨hsafe, rfl⟩ := hstrict trivial
  exact ⟨records, List.append_nil _, ⟨hsafe, hstart⟩, hobs⟩

theorem Store.Inv.contents_eq (h : s.Inv True pb encrypt) (hpb : pb.Lawful) {name : String}
    (hsome : (s.disk.lookup name).isSome) (hne : name ≠ kActiveFileName) :
    s.contents pb name = s.placedIn name := by
  obtain ⟨bytes, hbytes⟩ := Option.isSome_iff_exists.mp hsome
  obtain ⟨records, rfl, _, hobs⟩ := h.intact hbytes hne
  rw [Store.contents, hbytes, ← hobs]
  exact observationsIn_encodeAll hpb records

/-- Grouping a list by its first components. -/
theorem map_snd_perm_flatMap {α β : Type} [DecidableEq α] {l : List (α × β)} {keys : List α}
    (hnodup : keys.Nodup) (hkeys : ∀ p ∈ l, p.1 ∈ keys) :
    (l.map Prod.snd).Perm
      (keys.flatMap fun k => (l.filter fun p => p.1 = k).map Prod.snd) := by
  induction keys generalizing l with
  | nil =>
    have hnil : l = [] := List.eq_nil_iff_forall_not_mem.mpr fun p hp => by simpa using hkeys p hp
    simp [hnil]
  | cons k keys ih =>
    obtain ⟨hk, hnodup⟩ := List.nodup_cons.mp hnodup
    have hrest := ih (l := l.filter fun p => !decide (p.1 = k)) hnodup fun p hp => by
      obtain ⟨hp, hne⟩ := List.mem_filter.mp hp
      exact (List.mem_cons.mp (hkeys p hp)).resolve_left (by simpa using hne)
    have hfilter : ∀ k' ∈ keys, ((l.filter fun p => !decide (p.1 = k)).filter fun p => p.1 = k') =
        l.filter fun p => p.1 = k' := by
      intro k' hk'
      rw [List.filter_filter]
      refine List.filter_congr fun p _ => ?_
      have hne : k' ≠ k := fun heq => hk (heq ▸ hk')
      grind
    have hsplit := (List.filter_append_perm (fun p => decide (p.1 = k)) l).map Prod.snd
    rw [List.map_append] at hsplit
    rw [List.flatMap_cons]
    refine hsplit.symm.trans (List.Perm.append_left _ (hrest.trans (List.Perm.of_eq ?_)))
    exact List.flatMap_congr fun k' hk' => by rw [hfilter k' hk']

/-- The finalized files are those that are not taken and those that are owned. -/
theorem Store.Inv.files_perm {strict : Prop} (h : s.Inv strict pb encrypt) :
    s.listFinalizedFiles.Perm (s.untaken ++ s.owned) := by
  have hnodup : s.listFinalizedFiles.Nodup := s.disk.keys_nodup.filter _
  have hunion : (s.untaken ++ s.owned).Nodup := by
    refine List.nodup_append.mpr ⟨hnodup.filter _, h.owned_nodup, ?_⟩
    rintro name hmem _ howned rfl
    exact absurd (h.owned_taken name howned).1 (of_decide_eq_true (List.mem_filter.mp hmem).2)
  refine (List.perm_ext_iff_of_nodup hnodup hunion).mpr fun name => ?_
  rw [List.mem_append, Store.untaken, List.mem_filter]
  constructor
  · intro hmem
    by_cases htaken : name ∈ s.filesTaken
    · exact Or.inr (h.taken_owned name htaken (Disk.mem_keys_filter.mp hmem).1)
    · exact Or.inl ⟨hmem, decide_eq_true htaken⟩
  · rintro (hmem | howned)
    · exact hmem.1
    · obtain ⟨htaken, _, hsome⟩ := h.owned_taken name howned
      exact Disk.mem_keys_filter.mpr ⟨hsome, h.generated name (h.taken_generated name htaken)⟩

/-- Every accepted observation that was not in a destroyed holder is in one of the files. -/
theorem Store.Inv.placed_perm {strict : Prop} (h : s.Inv strict pb encrypt) :
    (s.placed.map Prod.snd).Perm (s.placedIn kActiveFileName ++
      (s.untaken.flatMap s.placedIn ++ s.owned.flatMap s.placedIn)) := by
  have hfiles := h.files_perm
  have hnodup : (kActiveFileName :: s.listFinalizedFiles).Nodup := by
    refine (s.disk.keys_nodup.filter _).cons fun hmem => ?_
    exact ne_kActiveFileName (Disk.mem_keys_filter.mp hmem).2 rfl
  have hkeys : ∀ p ∈ s.placed, p.1 ∈ kActiveFileName :: s.listFinalizedFiles := by
    intro p hp
    by_cases hne : p.1 = kActiveFileName
    · exact List.mem_cons.mpr (Or.inl hne)
    · have hsome := h.placed p hp hne
      obtain ⟨bytes, hbytes⟩ := Option.isSome_iff_exists.mp hsome
      exact List.mem_cons_of_mem _
        (Disk.mem_keys_filter.mpr ⟨hsome, (h.files p.1 bytes hbytes hne).1⟩)
  refine (map_snd_perm_flatMap hnodup hkeys).trans ?_
  rw [List.flatMap_cons, ← List.flatMap_append]
  exact (hfiles.flatMap_right _).append_left _

/-- The law follows from the invariant. -/
theorem Store.Inv.conserved_places (h : s.Inv True pb encrypt) (hpb : pb.Lawful) :
    s.Conserved pb encrypt := by
  have howned (name : String) (hmem : name ∈ s.owned) : s.contents pb name = s.placedIn name :=
    h.contents_eq hpb (h.owned_taken name hmem).2.2 (h.owned_taken name hmem).2.1
  have huntaken (name : String) (hmem : name ∈ s.untaken) :
      s.contents pb name = s.placedIn name := by
    obtain ⟨hsome, hname⟩ := Disk.mem_keys_filter.mp (List.mem_filter.mp hmem).1
    exact h.contents_eq hpb hsome (ne_kActiveFileName hname)
  have hlisted (holder : FileEnvelopeHolder M E) (hholder : holder ∈ s.holders) :
      ((s.envelopeOf pb encrypt holder).map ObservationBatch.metaData).Nodup ∧
      (ObservationStore.listed (s.envelopeOf pb encrypt holder)).Perm
        ((holder.fileNames.flatMap (s.contents pb)).map fun p =>
          (p.1, pb.toEncrypted encrypt p.2)) := by
    have henvelope : s.envelopeOf pb encrypt holder =
        (readFiles pb encrypt s.disk holder.fileNames).2.envelope := by
      rw [Store.envelopeOf]
      cases hcached : holder.envelope with
      | none => rfl
      | some envelope => exact h.cached holder hholder envelope hcached
    -- The records of a file are those that are parsed from it.
    have hfile (name : String) (hmem : name ∈ holder.fileNames) :
        s.disk.lookup name = some (encodeAll pb (recordsIn pb ((s.disk.lookup name).getD []))) ∧
          Intact pb (recordsIn pb ((s.disk.lookup name).getD [])) := by
      obtain ⟨_, hne, hsome⟩ := h.owned_taken name (List.mem_flatMap.mpr ⟨holder, hholder, hmem⟩)
      obtain ⟨bytes, hbytes⟩ := Option.isSome_iff_exists.mp hsome
      obtain ⟨records, rfl, hintact, _⟩ := h.intact hbytes hne
      rw [hbytes, Option.getD_some, recordsIn_encodeAll hpb]
      exact ⟨rfl, hintact⟩
    obtain ⟨_, hbatches, hperm⟩ := readFiles_spec encrypt hpb (fun name hmem => (hfile name hmem).1)
      fun name hmem => (hfile name hmem).2
    rw [henvelope]
    exact ⟨hbatches, hperm⟩
  exact {
    accepted := by
      refine h.conserved.trans (h.placed_perm.append_left _ |>.trans (List.Perm.of_eq ?_))
      rw [Store.places, List.flatten_cons, List.flatten_append, ← List.flatMap_def,
        h.observationsIn_active hpb, List.flatMap_congr huntaken, ← List.flatMap_def,
        ← List.flatMap_assoc, ← List.flatMap_congr howned]
      rfl
    owned_nodup := h.owned_nodup
    batches := fun holder hholder => (hlisted holder hholder).1
    listed := fun holder hholder => (hlisted holder hholder).2 }

/-- **Conservation.** In every state that a run without failures reaches from an empty directory,
with an encrypter that succeeds, the conservation law holds, provided that every unencrypted
observation that is written right after another one can be parsed into it. -/
theorem conserved_of_run (hpb : pb.Lawful) (enc : U → E)
    (hrun : Relation.ReflTransGen (OpStep pb (fun u => some (enc u)) limits fun s op =>
      op.Faultless s ∧ op.MergesSafely pb limits s) {} s) :
    s.Conserved pb fun u => some (enc u) :=
  (Store.Inv.of_run hpb (fun _ _ hop => hop.1.admissible hop.2) hrun).conserved_places hpb

/-! ### Messages with one field -/

/-- The records of messages each of which has one field, with the value 0 or 1: a `metric_id`, a
`key_index`, and the `event_code` of a `numeric_event`. -/
def parseFlags : Bytes → List (Option (Contents Bool Bool Bool)) × Bool
  | [] => ([], true)
  | 2 :: 10 :: 0 :: bytes => (some (.metaData false) :: (parseFlags bytes).1, (parseFlags bytes).2)
  | 4 :: 10 :: 2 :: 24 :: 1 :: bytes =>
    (some (.metaData true) :: (parseFlags bytes).1, (parseFlags bytes).2)
  | 2 :: 18 :: 0 :: bytes =>
    (some (.encryptedObservation false) :: (parseFlags bytes).1, (parseFlags bytes).2)
  | 4 :: 18 :: 2 :: 32 :: 1 :: bytes =>
    (some (.encryptedObservation true) :: (parseFlags bytes).1, (parseFlags bytes).2)
  | 4 :: 26 :: 2 :: 10 :: 0 :: bytes =>
    (some (.unencryptedObservation false) :: (parseFlags bytes).1, (parseFlags bytes).2)
  | 6 :: 26 :: 4 :: 10 :: 2 :: 8 :: 1 :: bytes =>
    (some (.unencryptedObservation true) :: (parseFlags bytes).1, (parseFlags bytes).2)
  | _ => ([], false)

@[inherit_doc parseFlags]
def serializeFlags : Contents Bool Bool Bool → Bytes
  | .metaData false => [2, 10, 0]
  | .metaData true => [4, 10, 2, 24, 1]
  | .encryptedObservation false => [2, 18, 0]
  | .encryptedObservation true => [4, 18, 2, 32, 1]
  | .unencryptedObservation false => [4, 26, 2, 10, 0]
  | .unencryptedObservation true => [6, 26, 4, 10, 2, 8, 1]

/-- The library for these messages. A field that is 0 is not written, so that merging keeps the
other value. -/
def flagProtobuf : Protobuf Bool Bool Bool where
  serializeDelimited := serializeFlags
  parseDelimited := parseFlags
  metadataString m := if m then [24, 1] else []
  byteSize o := (o.map fun o => (serializeFlags o.contents).length - 1).getD 0
  mergeMetadata := or
  mergeEncrypted := or
  mergeUnencrypted := or
  noEncrypted := false

theorem flagProtobuf_lawful : flagProtobuf.Lawful where
  serializeDelimited_ne_nil := by
    rintro (m | e | u)
    · cases m <;> decide
    · cases e <;> decide
    · cases u <;> decide
  parseDelimited_nil := rfl
  parseDelimited_append := by
    rintro (m | e | u) bytes
    · cases m <;> rfl
    · cases e <;> rfl
    · cases u <;> rfl
  metadataString_injective := by
    intro m m'
    cases m <;> cases m' <;> simp [flagProtobuf]
  mergeEncrypted_noEncrypted := by decide

/-- A state after some operations on a store for these messages. -/
def applyFlags (op : Op Bool Bool Bool) (s : Store Bool Bool Bool) : Store Bool Bool Bool :=
  op.apply flagProtobuf some ⟨100, 100, 100⟩ s

/-- An observation is stored, with metadata that are always the same. -/
def storeFlag (o : Observation Bool Bool) : Op Bool Bool Bool :=
  .storeObservation (some o) true 0 kMinRandomNumber {}

/-- A holder is taken. -/
def takeFlags : Op Bool Bool Bool := .takeNextEnvelopeHolder 0 kMinRandomNumber {}

/-- An observation is lost. The second of two unencrypted observations, which has the event code
0, is merged into the first one when it is read, and the envelope lists the first one twice. -/
theorem listed_merged :
    let s₁ := applyFlags (storeFlag (.unencrypted true)) {}
    let s₂ := applyFlags (storeFlag (.unencrypted false)) s₁
    let s := applyFlags takeFlags s₂
    (storeFlag (.unencrypted true)).Faultless {} ∧ (storeFlag (.unencrypted false)).Faultless s₁ ∧
      takeFlags.Faultless s₂ ∧
      s.accepted = [(true, .unencrypted true), (true, .unencrypted false)] ∧
      s.holders.map (fun holder => listed (s.envelopeOf flagProtobuf some holder)) =
        [[(true, true), (true, true)]] ∧
      ¬ s.Conserved flagProtobuf some := by
  intro s₁ s₂ s
  have hlisted : s.holders.map (fun holder => listed (s.envelopeOf flagProtobuf some holder)) =
      [[(true, true), (true, true)]] := by decide +kernel
  refine ⟨⟨⟨by decide, by decide, by decide +kernel⟩, rfl⟩,
    ⟨⟨by decide, by decide, by decide +kernel⟩, rfl⟩,
    ⟨⟨by decide, by decide, by decide +kernel⟩, rfl⟩, by decide +kernel, hlisted, fun h => ?_⟩
  have hstored : s.holders.map (fun holder =>
      (holder.fileNames.flatMap (s.contents flagProtobuf)).map fun p =>
        (p.1, flagProtobuf.toEncrypted some p.2)) = [[(true, true), (true, false)]] := by
    decide +kernel
  obtain ⟨holder, hholder⟩ : ∃ holder, s.holders = [holder] :=
    List.length_eq_one_iff.mp (by decide +kernel)
  have hperm := h.listed holder (by rw [hholder]; exact List.mem_cons_self)
  rw [hholder, List.map_cons] at hlisted hstored
  rw [(List.cons.inj hlisted).1, (List.cons.inj hstored).1] at hperm
  exact absurd hperm (by decide)

/-- The other way round, the second observation is read as it was stored. -/
theorem conserved_of_run_merged :
    let s₁ := applyFlags (storeFlag (.unencrypted false)) {}
    let s₂ := applyFlags (storeFlag (.unencrypted true)) s₁
    let s := applyFlags takeFlags s₂
    s.accepted = [(true, .unencrypted false), (true, .unencrypted true)] ∧
      s.Conserved flagProtobuf fun u => some u := by
  intro s₁ s₂ s
  refine ⟨by decide +kernel, ?_⟩
  have hfirst : (storeFlag (.unencrypted false)).Faultless ({} : Store Bool Bool Bool) :=
    ⟨⟨by decide, by decide, by decide +kernel⟩, rfl⟩
  have hsafe : (storeFlag (.unencrypted false)).MergesSafely flagProtobuf ⟨100, 100, 100⟩ {} := by
    rintro - - u - hlast
    have hempty : recordsIn flagProtobuf [] = [] := recordsIn_encodeAll flagProtobuf_lawful []
    rw [Option.getD_none, hempty] at hlast
    exact absurd hlast (by simp)
  have hsecond : (storeFlag (.unencrypted true)).Faultless s₁ :=
    ⟨⟨by decide, by decide, by decide +kernel⟩, rfl⟩
  have htake : takeFlags.Faultless s₂ := ⟨⟨by decide, by decide, by decide +kernel⟩, rfl⟩
  have hrun : Relation.ReflTransGen (OpStep flagProtobuf (fun u => some u) ⟨100, 100, 100⟩
      fun s op => op.Faultless s ∧ op.MergesSafely flagProtobuf ⟨100, 100, 100⟩ s) {} s :=
    ((Relation.ReflTransGen.single ⟨_, ⟨hfirst, hsafe⟩, rfl⟩).tail
      ⟨_, ⟨hsecond, fun _ _ u _ _ => Bool.or_true u⟩, rfl⟩).tail ⟨_, ⟨htake, trivial⟩, rfl⟩
  exact conserved_of_run flagProtobuf_lawful (fun u => u) hrun

end Cobalt.ObservationStore
