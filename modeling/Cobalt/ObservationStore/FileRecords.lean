import Cobalt.Lib.Disk
import Cobalt.Lib.Loop
import Mathlib.Data.List.Chain
import Mathlib.Data.List.Perm.Basic
import Mathlib.Data.List.ReduceOption
import Mathlib.Data.List.TakeWhile

/-!
# The records in the files of an observation store

A file of a `FileObservationStore` is a sequence of delimited records. A record holds metadata, or
an observation, encrypted or not, which belongs to the metadata before it. `GetEnvelope` reads the
records of several files and sorts the observations into batches by their metadata.

The protocol buffer library is a parameter. It parses a record by merging it into the message that
is given to it, and `GetEnvelope` gives it the same message for every record. An unencrypted
observation is still in this message when the next record is parsed.

## Main definitions

* `Protobuf`: what is used of the protocol buffer library.
* `readRecord`, `readFile`, `readFiles`: the loops of `GetEnvelope`.
* `observationsIn`: the observations that are written in a file, each with its metadata.
* `MergeSafe`: parsing each unencrypted observation of a list into the one before it gives the
  observation itself.

## Main results

* `readFile_format`: reading a file that has the format of the store adds the observations of its
  records to the batches of their metadata, and goes on if and only if the file is intact.
* `readFile_spec`: reading a file that starts with metadata and is `MergeSafe` adds its observations
  to the batches of their metadata.
-/

namespace Cobalt.ObservationStore

/-! ### Messages -/

/-- An observation in a store, encrypted or not. A `StoredObservation` is one of these or has no
field set. -/
inductive Observation (E U : Type)
  | encrypted (e : E)
  | unencrypted (u : U)
  deriving DecidableEq, Repr

/-- The contents of a `FileObservationStoreRecord`, of which at most one field is set. -/
inductive Contents (M E U : Type)
  | metaData (m : M)
  | encryptedObservation (e : E)
  | unencryptedObservation (u : U)
  deriving DecidableEq, Repr

/-- An `ObservationBatch`. -/
structure ObservationBatch (M E : Type) where
  metaData : M
  encryptedObservation : List E := []
  deriving DecidableEq, Repr

/-- An `Envelope`. -/
abbrev Envelope (M E : Type) : Type := List (ObservationBatch M E)

/-- What is used of the protocol buffer library, for messages `ObservationMetadata`,
`EncryptedMessage` and `Observation2`. -/
structure Protobuf (M E U : Type) where
  /-- `SerializeDelimitedToZeroCopyStream`. -/
  serializeDelimited : Contents M E U → Bytes
  /-- The records that `ParseDelimitedFromZeroCopyStream` parses from a stream up to its first
  failure, and whether it then is at a clean end of the file. -/
  parseDelimited : Bytes → List (Option (Contents M E U)) × Bool
  /-- `SerializeAsString`. -/
  metadataString : M → Bytes
  /-- `ByteSizeLong` of a `StoredObservation`. -/
  byteSize : Option (Observation E U) → ℕ
  /-- `MergeFrom`, for each of the three messages. -/
  mergeMetadata : M → M → M
  mergeEncrypted : E → E → E
  mergeUnencrypted : U → U → U
  /-- An `EncryptedMessage` with no field set. -/
  noEncrypted : E

/-- The documented behaviour of the library. -/
structure Protobuf.Lawful {M E U : Type} (pb : Protobuf M E U) : Prop where
  serializeDelimited_ne_nil : ∀ c, pb.serializeDelimited c ≠ []
  parseDelimited_nil : pb.parseDelimited [] = ([], true)
  parseDelimited_append : ∀ c bytes, pb.parseDelimited (pb.serializeDelimited c ++ bytes) =
    (some c :: (pb.parseDelimited bytes).1, (pb.parseDelimited bytes).2)
  metadataString_injective : Function.Injective pb.metadataString
  mergeEncrypted_noEncrypted : ∀ e, pb.mergeEncrypted pb.noEncrypted e = e

section Reading

variable {M E U : Type} (pb : Protobuf M E U) (encrypt : U → Option E)

/-- The record `stored` after another record was parsed into it: fields that are set in both are
merged, and a field that is set replaces the other ones of the `oneof`. -/
def Protobuf.merge : Option (Contents M E U) → Option (Contents M E U) → Option (Contents M E U)
  | stored, none => stored
  | some (.metaData m), some (.metaData m') => some (.metaData (pb.mergeMetadata m m'))
  | some (.encryptedObservation e), some (.encryptedObservation e') =>
    some (.encryptedObservation (pb.mergeEncrypted e e'))
  | some (.unencryptedObservation u), some (.unencryptedObservation u') =>
    some (.unencryptedObservation (pb.mergeUnencrypted u u'))
  | _, some c => some c

/-! ### Reading an envelope -/

/-- The local variables of `GetEnvelope`. The current batch is `none` while the pointer is not
initialized; `batch_map` has an entry for each batch of the envelope. -/
structure Reading (M E U : Type) where
  stored : Option (Contents M E U) := none
  currentBatch : Option ℕ := none
  envelope : Envelope M E := []

/-- How a loop of `GetEnvelope` ends. -/
inductive ReadStatus
  | ok
  | corrupted
  | undefinedBehavior
  deriving DecidableEq, Repr

/-- An observation is added to the current batch. -/
def Reading.addEncryptedObservation (s : Reading M E U) (e : E) : ReadStatus × Reading M E U :=
  match s.currentBatch with
  | none => (.undefinedBehavior, s)
  | some i =>
    (.ok, { s with
      envelope := s.envelope.modify i fun batch =>
        { batch with encryptedObservation := batch.encryptedObservation ++ [e] } })

/-- The batch of some metadata becomes the current one; it is added if there is none. -/
def Reading.setMetadata (s : Reading M E U) (m : M) : Reading M E U :=
  match s.envelope.findIdx? fun batch => pb.metadataString batch.metaData = pb.metadataString m with
  | some i => { s with currentBatch := some i }
  | none =>
    { s with currentBatch := some s.envelope.length, envelope := s.envelope ++ [{ metaData := m }] }

/-- The body of the loop over the records of a file. -/
def readRecord (record : Option (Contents M E U)) (s : Reading M E U) :
    ReadStatus × Reading M E U :=
  match pb.merge s.stored record with
  | some (.metaData m) => (.ok, { s.setMetadata pb m with stored := none })
  | some (.encryptedObservation e) =>
    { s with stored := some (.encryptedObservation pb.noEncrypted) }.addEncryptedObservation e
  | some (.unencryptedObservation u) =>
    { s with stored := some (.unencryptedObservation u) }.addEncryptedObservation
      ((encrypt u).getD pb.noEncrypted)
  | none => (.corrupted, s)

/-- The body of the loop over the files. A file that cannot be opened is skipped. -/
def readFile (disk : Disk) (fileName : String) (s : Reading M E U) : ReadStatus × Reading M E U :=
  match disk.lookup fileName with
  | none => (.ok, s)
  | some bytes =>
    let r := Loop.runAll .ok (readRecord pb encrypt) (pb.parseDelimited bytes).1 s
    if r.1 = .ok ∧ (pb.parseDelimited bytes).2 = false then (.corrupted, r.2) else r

/-- The loop over the files. -/
def readFiles (disk : Disk) (fileNames : List String) : ReadStatus × Reading M E U :=
  Loop.runAll .ok (readFile pb encrypt disk) fileNames {}

/-! ### What is written in a file -/

/-- The metadata that holds after some records. -/
def lastMetadata : Option M → List (Contents M E U) → Option M
  | current, [] => current
  | _, .metaData m :: records => lastMetadata (some m) records
  | current, _ :: records => lastMetadata current records

/-- The observations in some records, each with the metadata before it. -/
def observationsOf : Option M → List (Contents M E U) → List (M × Observation E U)
  | _, [] => []
  | _, .metaData m :: records => observationsOf (some m) records
  | some m, .encryptedObservation e :: records =>
    (m, .encrypted e) :: observationsOf (some m) records
  | some m, .unencryptedObservation u :: records =>
    (m, .unencrypted u) :: observationsOf (some m) records
  | none, _ :: records => observationsOf none records

/-- The records in a file, up to the first one that is not set. -/
def recordsIn (bytes : Bytes) : List (Contents M E U) :=
  ((pb.parseDelimited bytes).1.takeWhile Option.isSome).reduceOption

/-- The observations that are written in a file. -/
def observationsIn (bytes : Bytes) : List (M × Observation E U) :=
  observationsOf none (recordsIn pb bytes)

/-- The bytes of some records. -/
def encodeAll (records : List (Contents M E U)) : Bytes := records.flatMap pb.serializeDelimited

/-- Parsing each unencrypted observation of a list of records into the one right before it gives the
observation itself. -/
def MergeSafe (records : List (Contents M E U)) : Prop :=
  records.IsChain fun c c' => ∀ u u', c = .unencryptedObservation u →
    c' = .unencryptedObservation u' → pb.mergeUnencrypted u u' = u'

/-- The first record, if there is one, is metadata. -/
def StartsWithMetadata (records : List (Contents M E U)) : Prop :=
  ∀ c ∈ records.head?, ∃ m, c = .metaData m

/-- The observations of an envelope, each with the metadata of its batch. -/
def listed (envelope : Envelope M E) : List (M × E) :=
  envelope.flatMap fun batch => batch.encryptedObservation.map fun e => (batch.metaData, e)

/-- What becomes of an observation in an envelope. -/
def Protobuf.toEncrypted : Observation E U → E
  | .encrypted e => e
  | .unencrypted u => (encrypt u).getD pb.noEncrypted

end Reading

/-! ### Records and bytes -/

section Records

variable {M E U : Type} {pb : Protobuf M E U}

theorem lastMetadata_append (current : Option M) (l l' : List (Contents M E U)) :
    lastMetadata current (l ++ l') = lastMetadata (lastMetadata current l) l' := by
  induction l generalizing current with
  | nil => rfl
  | cons c l ih => cases c <;> exact ih _

theorem observationsOf_append (current : Option M) (l l' : List (Contents M E U)) :
    observationsOf current (l ++ l') =
      observationsOf current l ++ observationsOf (lastMetadata current l) l' := by
  induction l generalizing current with
  | nil => rfl
  | cons c l ih =>
    cases c with
    | metaData m => simpa [observationsOf, lastMetadata] using ih (some m)
    | encryptedObservation e =>
      cases current <;> simpa [observationsOf, lastMetadata] using ih _
    | unencryptedObservation u =>
      cases current <;> simpa [observationsOf, lastMetadata] using ih _

theorem encodeAll_append (l l' : List (Contents M E U)) :
    encodeAll pb (l ++ l') = encodeAll pb l ++ encodeAll pb l' :=
  List.flatMap_append

theorem encodeAll_singleton (c : Contents M E U) : encodeAll pb [c] = pb.serializeDelimited c := by
  simp [encodeAll]

/-- Parsing a file gives the records that were written, and then what is in the rest. -/
theorem parseDelimited_encodeAll (hpb : pb.Lawful) (records : List (Contents M E U))
    (rest : Bytes) :
    pb.parseDelimited (encodeAll pb records ++ rest) =
      (records.map some ++ (pb.parseDelimited rest).1, (pb.parseDelimited rest).2) := by
  induction records with
  | nil => rfl
  | cons c records ih =>
    have hcons : encodeAll pb (c :: records) ++ rest =
        pb.serializeDelimited c ++ (encodeAll pb records ++ rest) := by
      rw [encodeAll, List.flatMap_cons, List.append_assoc, encodeAll]
    rw [hcons, hpb.parseDelimited_append, ih]
    rfl

theorem recordsIn_encodeAll_append (hpb : pb.Lawful) (records : List (Contents M E U))
    (rest : Bytes) : recordsIn pb (encodeAll pb records ++ rest) = records ++ recordsIn pb rest := by
  rw [recordsIn, parseDelimited_encodeAll hpb, recordsIn]
  induction records with
  | nil => rfl
  | cons c records ih =>
    simpa only [List.map_cons, List.cons_append, List.takeWhile_cons, Option.isSome_some,
      ↓reduceIte, List.reduceOption_cons_of_some, List.cons.injEq, true_and] using ih

theorem recordsIn_encodeAll (hpb : pb.Lawful) (records : List (Contents M E U)) :
    recordsIn pb (encodeAll pb records) = records := by
  have h := recordsIn_encodeAll_append hpb records []
  rw [List.append_nil] at h
  rw [h, recordsIn, hpb.parseDelimited_nil]
  exact List.append_nil records

theorem observationsIn_encodeAll (hpb : pb.Lawful) (records : List (Contents M E U)) :
    observationsIn pb (encodeAll pb records) = observationsOf none records := by
  rw [observationsIn, recordsIn_encodeAll hpb]

end Records

/-! ### What `GetEnvelope` lists -/

section Listed

variable {M E U : Type} {pb : Protobuf M E U} (encrypt : U → Option E)

/-- Adding an observation to a batch. -/
theorem listed_modify {envelope : Envelope M E} {i : ℕ} {batch : ObservationBatch M E}
    (h : envelope[i]? = some batch) (e : E) :
    (listed (envelope.modify i fun batch =>
      { batch with encryptedObservation := batch.encryptedObservation ++ [e] })).Perm
      (listed envelope ++ [(batch.metaData, e)]) := by
  induction envelope generalizing i with
  | nil => simp at h
  | cons first rest ih =>
    cases i with
    | zero =>
      obtain rfl : first = batch := by simpa using h
      simp only [List.modify_zero_cons, listed, List.flatMap_cons, List.map_append, List.map_cons,
        List.map_nil, List.append_assoc]
      exact (List.perm_append_comm).append_left _
    | succ i =>
      have hrest := ih (i := i) (by simpa using h)
      simpa only [List.modify_succ_cons, listed, List.flatMap_cons, List.append_assoc] using
        hrest.append_left _

theorem map_metaData_modify (envelope : Envelope M E) (i : ℕ) (e : E) :
    (envelope.modify i fun batch =>
      { batch with encryptedObservation := batch.encryptedObservation ++ [e] }).map
      ObservationBatch.metaData = envelope.map ObservationBatch.metaData := by
  refine List.ext_getElem? fun j => ?_
  simp only [List.getElem?_map, List.getElem?_modify]
  cases envelope[j]? with
  | none => rfl
  | some batch => split_ifs <;> rfl

/-- While reading: the batches have different metadata, the current batch is that of the current
metadata, and nothing that was read is left in the record except an unencrypted observation. -/
structure Reading.Inv (pb : Protobuf M E U) (s : Reading M E U) (current : Option M) : Prop where
  distinct : (s.envelope.map ObservationBatch.metaData).Nodup
  stored_ne : ∀ m, s.stored ≠ some (.metaData m)
  stored_encrypted : ∀ e, s.stored = some (.encryptedObservation e) → e = pb.noEncrypted
  current : ∀ m, current = some m → ∃ i batch, s.currentBatch = some i ∧
    s.envelope[i]? = some batch ∧ batch.metaData = m

namespace Reading.Inv

variable {s : Reading M E U} {current : Option M}

/-- Metadata is read: its batch becomes the current one. -/
theorem setMetadata (hpb : pb.Lawful) (h : s.Inv pb current) (m : M) :
    Reading.Inv pb { s.setMetadata pb m with stored := none } (some m) ∧
      listed (s.setMetadata pb m).envelope = listed s.envelope := by
  rw [Reading.setMetadata]
  cases hfind : s.envelope.findIdx? fun batch =>
      pb.metadataString batch.metaData = pb.metadataString m with
  | some i =>
    obtain ⟨hlt, heq, _⟩ := List.findIdx?_eq_some_iff_getElem.mp hfind
    refine ⟨⟨h.distinct, by simp, by simp, ?_⟩, rfl⟩
    rintro _ ⟨⟩
    exact ⟨i, s.envelope[i], rfl, List.getElem?_eq_getElem hlt,
      hpb.metadataString_injective (by simpa using heq)⟩
  | none =>
    refine ⟨⟨?_, by simp, by simp, ?_⟩, by simp [listed]⟩
    · have hnew : ∀ batch ∈ s.envelope, batch.metaData ≠ m := by
        intro batch hbatch heq
        have hne := List.findIdx?_eq_none_iff.mp hfind batch hbatch
        simp [heq] at hne
      rw [List.map_append, List.nodup_append]
      refine ⟨h.distinct, by simp, ?_⟩
      simpa using hnew
    · rintro _ ⟨⟩
      exact ⟨s.envelope.length, { metaData := m }, rfl, by simp, rfl⟩

/-- An observation is added to the current batch. -/
theorem addEncryptedObservation {m : M} (h : s.Inv pb (some m)) (e : E)
    (stored : Option (Contents M E U)) (hne : ∀ m, stored ≠ some (.metaData m))
    (hencrypted : ∀ e, stored = some (.encryptedObservation e) → e = pb.noEncrypted) :
    let r := { s with stored := stored }.addEncryptedObservation e
    r.1 = .ok ∧ r.2.stored = stored ∧ r.2.Inv pb (some m) ∧
      (listed r.2.envelope).Perm (listed s.envelope ++ [(m, e)]) := by
  obtain ⟨i, batch, hi, hbatch, rfl⟩ := h.current m rfl
  dsimp only
  rw [Reading.addEncryptedObservation, hi]
  refine ⟨rfl, rfl, ⟨?_, hne, hencrypted, ?_⟩, listed_modify hbatch e⟩
  · rw [map_metaData_modify]
    exact h.distinct
  · rintro _ ⟨⟩
    exact ⟨i, { batch with encryptedObservation := batch.encryptedObservation ++ [e] }, rfl,
      by rw [List.getElem?_modify_eq, hbatch]; rfl, rfl⟩

/-- One record. Metadata starts or resumes its batch, and an observation is added to the batch
of the current metadata, provided that parsing it into an unencrypted observation that is left in
the record gives the observation itself. -/
theorem readRecord (hpb : pb.Lawful) (h : s.Inv pb current) {c : Contents M E U}
    (hcurrent : current = none → ∃ m, c = .metaData m)
    (hsafe : ∀ u u', s.stored = some (.unencryptedObservation u) → c = .unencryptedObservation u' →
      pb.mergeUnencrypted u u' = u') :
    let r := readRecord pb encrypt (some c) s
    r.1 = .ok ∧ r.2.Inv pb (lastMetadata current [c]) ∧
      (∀ u, r.2.stored = some (.unencryptedObservation u) → c = .unencryptedObservation u) ∧
      (listed r.2.envelope).Perm (listed s.envelope ++
        (observationsOf current [c]).map fun p => (p.1, pb.toEncrypted encrypt p.2)) := by
  have hmerge : pb.merge s.stored (some c) = some c := by
    rcases hstored : s.stored with _ | (m | e | u) <;> rcases c with m' | e' | u' <;>
      simp only [Protobuf.merge]
    · exact absurd hstored (h.stored_ne m)
    · rw [h.stored_encrypted e hstored, hpb.mergeEncrypted_noEncrypted]
    · rw [hsafe u u' hstored rfl]
  dsimp only
  rw [ObservationStore.readRecord, hmerge]
  cases c with
  | metaData m =>
    obtain ⟨hinv, hlisted⟩ := h.setMetadata hpb m
    refine ⟨rfl, hinv, by simp, ?_⟩
    simp only [observationsOf, List.map_nil, List.append_nil, hlisted, List.Perm.refl]
  | encryptedObservation e =>
    obtain _ | m := current
    · exact absurd (hcurrent rfl) (by simp)
    obtain ⟨hok, hstored, hinv, hlisted⟩ := h.addEncryptedObservation e
      (some (.encryptedObservation pb.noEncrypted)) (by simp) (by simp +contextual)
    exact ⟨hok, hinv, by simp [hstored], hlisted⟩
  | unencryptedObservation u =>
    obtain _ | m := current
    · exact absurd (hcurrent rfl) (by simp)
    obtain ⟨hok, hstored, hinv, hlisted⟩ := h.addEncryptedObservation
      ((encrypt u).getD pb.noEncrypted) (some (.unencryptedObservation u)) (by simp) (by simp)
    exact ⟨hok, hinv, by simp [hstored], hlisted⟩

/-- The records of a file are sorted into the batches of their metadata. -/
theorem runAll_readRecord (hpb : pb.Lawful) {records : List (Contents M E U)}
    (hmerge : MergeSafe pb records) (h : s.Inv pb current)
    (hcurrent : current = none → StartsWithMetadata records)
    (hsafe : ∀ u u', s.stored = some (.unencryptedObservation u) →
      records.head? = some (.unencryptedObservation u') → pb.mergeUnencrypted u u' = u') :
    let r := Loop.runAll .ok (ObservationStore.readRecord pb encrypt) (records.map some) s
    r.1 = .ok ∧ r.2.Inv pb (lastMetadata current records) ∧
      (listed r.2.envelope).Perm (listed s.envelope ++
        (observationsOf current records).map fun p => (p.1, pb.toEncrypted encrypt p.2)) := by
  induction records generalizing s current with
  | nil => exact ⟨rfl, h, by simp [observationsOf]⟩
  | cons c records ih =>
    obtain ⟨hok, hinv, hstored, hlisted⟩ := h.readRecord encrypt hpb
      (fun hnone => hcurrent hnone c rfl) fun u u' hu hc => hsafe u u' hu (congrArg some hc)
    dsimp only at hok hinv hstored hlisted ⊢
    rw [List.map_cons, Loop.runAll_cons_of_ok hok]
    have hcons := List.isChain_cons.mp hmerge
    have hlast : lastMetadata current (c :: records) =
        lastMetadata (lastMetadata current [c]) records :=
      lastMetadata_append current [c] records
    have hobs : observationsOf current (c :: records) =
        observationsOf current [c] ++ observationsOf (lastMetadata current [c]) records :=
      observationsOf_append current [c] records
    have hsome : lastMetadata current [c] ≠ none := by
      cases current with
      | none =>
        obtain ⟨m, rfl⟩ := hcurrent rfl c rfl
        simp [lastMetadata]
      | some m => cases c <;> simp [lastMetadata]
    obtain ⟨hok', hinv', hlisted'⟩ := ih hcons.2 hinv (fun hnone => absurd hnone hsome)
      fun u u' hu hhead => hcons.1 _ hhead u u' (hstored u hu) rfl
    refine ⟨hok', hlast ▸ hinv', hlisted'.trans ?_⟩
    rw [hobs, List.map_append, ← List.append_assoc]
    exact hlisted.append_right _

end Reading.Inv

/-- The records of a file, as the store writes them. -/
structure Intact (pb : Protobuf M E U) (records : List (Contents M E U)) : Prop where
  mergeSafe : MergeSafe pb records
  startsWithMetadata : StartsWithMetadata records

/-- The format of a file: its records, up to the first one that has no field set, are those that
the store writes, and that one, if there is one, comes right after metadata. -/
structure FileFormat (pb : Protobuf M E U) (bytes : Bytes) : Prop where
  intact : Intact pb (recordsIn pb bytes)
  unset : (pb.parseDelimited bytes).1.dropWhile Option.isSome ≠ [] →
    ∃ m, (recordsIn pb bytes).getLast? = some (.metaData m)

/-- All records of a file can be parsed, up to a clean end of the file, and have a field set. -/
def isIntact (pb : Protobuf M E U) (bytes : Bytes) : Bool :=
  (pb.parseDelimited bytes).2 && (pb.parseDelimited bytes).1.all Option.isSome

theorem parseDelimited_eq_append (bytes : Bytes) :
    (pb.parseDelimited bytes).1 = (recordsIn pb bytes).map some ++
      (pb.parseDelimited bytes).1.dropWhile Option.isSome := by
  have hsome : ∀ l : List (Option (Contents M E U)), (∀ c ∈ l, c.isSome) →
      l.reduceOption.map some = l := by
    intro l
    induction l with
    | nil => exact fun _ => rfl
    | cons c l ih =>
      intro h
      obtain ⟨a, rfl⟩ := Option.isSome_iff_exists.mp (h c List.mem_cons_self)
      rw [List.reduceOption_cons_of_some, List.map_cons,
        ih fun b hb => h b (List.mem_cons_of_mem _ hb)]
  rw [recordsIn, hsome _ fun c hc => List.mem_takeWhile_imp hc, List.takeWhile_append_dropWhile]

/-- Nothing is left in the record after metadata. -/
theorem stored_of_getLast? {records : List (Contents M E U)} {s : Reading M E U} {m : M}
    (hok : (Loop.runAll .ok (readRecord pb encrypt) (records.map some) s).1 = .ok)
    (hlast : records.getLast? = some (.metaData m)) :
    (Loop.runAll .ok (readRecord pb encrypt) (records.map some) s).2.stored = none := by
  obtain ⟨init, rfl⟩ := List.getLast?_eq_some_iff.mp hlast
  rw [List.map_append, List.map_singleton] at hok ⊢
  obtain ⟨_, _, heq⟩ := Loop.runAll_append_cons_of_ok hok
  rw [heq, Loop.runAll_nil]
  generalize (Loop.runAll .ok (readRecord pb encrypt) (init.map some) s).2 = t
  rcases hstored : t.stored with _ | (m' | e | u) <;> simp only [readRecord, hstored, Protobuf.merge]

/-- **One file**: its observations are added to the batches of their metadata, and the loop goes on
after it if and only if it is intact. -/
theorem readFile_format (hpb : pb.Lawful) {disk : Disk} {fileName : String} {bytes : Bytes}
    (hdisk : disk.lookup fileName = some bytes) (hformat : FileFormat pb bytes)
    {s : Reading M E U} (h : s.Inv pb none) :
    let r := readFile pb encrypt disk fileName s
    r.1 = (if isIntact pb bytes then .ok else .corrupted) ∧ r.2.Inv pb none ∧
      (listed r.2.envelope).Perm (listed s.envelope ++
        (observationsIn pb bytes).map fun p => (p.1, pb.toEncrypted encrypt p.2)) := by
  obtain ⟨hok, hinv, hlisted⟩ := h.runAll_readRecord encrypt hpb hformat.intact.mergeSafe
    (fun _ => hformat.intact.startsWithMetadata) fun u u' _ hhead => by
      obtain ⟨m, hm⟩ := hformat.intact.startsWithMetadata _ hhead
      cases hm
  have hinv' := Reading.Inv.mk hinv.distinct hinv.stored_ne hinv.stored_encrypted
    (fun m hm => absurd hm (by simp) : ∀ m : M, none = some m → _)
  dsimp only at hok hinv' hlisted ⊢
  have hstored (m : M) := @stored_of_getLast? M E U pb encrypt _ _ m hok
  set r := Loop.runAll .ok (readRecord pb encrypt) ((recordsIn pb bytes).map some) s with hr
  have hparse := @parseDelimited_eq_append M E U pb bytes
  have hrun : Loop.runAll .ok (readRecord pb encrypt) (pb.parseDelimited bytes).1 s =
      Loop.runAll .ok (readRecord pb encrypt)
        ((pb.parseDelimited bytes).1.dropWhile Option.isSome) r.2 := by
    conv_lhs => rw [hparse]
    rw [Loop.runAll_append, ← hr, if_pos hok]
  rw [readFile, hdisk]
  dsimp only
  rw [hrun]
  cases hrest : (pb.parseDelimited bytes).1.dropWhile Option.isSome with
  | nil =>
    have hall : (pb.parseDelimited bytes).1.all Option.isSome = true := by
      rw [hparse, hrest]
      simp
    rw [Loop.runAll_nil, isIntact, hall, Bool.and_true]
    cases (pb.parseDelimited bytes).2 <;> exact ⟨rfl, hinv', hlisted⟩
  | cons c rest =>
    have hnone : c = none := by
      have := List.head?_dropWhile_not Option.isSome (pb.parseDelimited bytes).1
      rw [hrest] at this
      simpa using this
    subst hnone
    obtain ⟨m, hlast⟩ := hformat.unset (by rw [hrest]; exact List.cons_ne_nil _ _)
    have hstop : readRecord pb encrypt none r.2 = (.corrupted, r.2) := by
      simp only [readRecord, hstored m hlast, Protobuf.merge]
    have hall : (pb.parseDelimited bytes).1.all Option.isSome = false := by
      rw [hparse, hrest]
      simp
    rw [Loop.runAll_cons_of_ne (by rw [hstop]; simp), hstop, isIntact, hall, Bool.and_false]
    exact ⟨rfl, hinv', hlisted⟩

/-- A file with intact records is read to its end, and its observations are added to the batches
of their metadata. -/
theorem readFile_spec (hpb : pb.Lawful) {disk : Disk} {fileName : String}
    {records : List (Contents M E U)} (hdisk : disk.lookup fileName = some (encodeAll pb records))
    (hintact : Intact pb records) {s : Reading M E U} (h : s.Inv pb none) :
    let r := readFile pb encrypt disk fileName s
    r.1 = .ok ∧ r.2.Inv pb none ∧
      (listed r.2.envelope).Perm (listed s.envelope ++
        (observationsOf none records).map fun p => (p.1, pb.toEncrypted encrypt p.2)) := by
  have hparse : pb.parseDelimited (encodeAll pb records) = (records.map some, true) := by
    have happend := parseDelimited_encodeAll hpb records []
    rwa [List.append_nil, hpb.parseDelimited_nil, List.append_nil] at happend
  have hformat : FileFormat pb (encodeAll pb records) := by
    refine ⟨(recordsIn_encodeAll hpb records).symm ▸ hintact, fun hne => absurd ?_ hne⟩
    rw [hparse, List.dropWhile_eq_nil_iff]
    simp
  have hread := readFile_format encrypt hpb hdisk hformat h
  rw [observationsIn_encodeAll hpb, isIntact, hparse] at hread
  simpa using hread

theorem runAll_readFile (hpb : pb.Lawful) {disk : Disk} {fileNames : List String}
    {records : String → List (Contents M E U)}
    (hdisk : ∀ fileName ∈ fileNames, disk.lookup fileName = some (encodeAll pb (records fileName)))
    (hintact : ∀ fileName ∈ fileNames, Intact pb (records fileName)) {s : Reading M E U}
    (h : s.Inv pb none) :
    let r := Loop.runAll .ok (readFile pb encrypt disk) fileNames s
    r.1 = .ok ∧ r.2.Inv pb none ∧
      (listed r.2.envelope).Perm (listed s.envelope ++ (fileNames.flatMap fun fileName =>
        observationsOf none (records fileName)).map fun p => (p.1, pb.toEncrypted encrypt p.2)) := by
  induction fileNames generalizing s with
  | nil => exact ⟨rfl, h, by simp⟩
  | cons fileName fileNames ih =>
    obtain ⟨hok, hinv, hlisted⟩ := readFile_spec encrypt hpb (hdisk fileName List.mem_cons_self)
      (hintact fileName List.mem_cons_self) h
    obtain ⟨hok', hinv', hlisted'⟩ := ih (fun name hname => hdisk name (List.mem_cons_of_mem _ hname))
      (fun name hname => hintact name (List.mem_cons_of_mem _ hname)) hinv
    dsimp only
    rw [Loop.runAll_cons_of_ok hok]
    refine ⟨hok', hinv', hlisted'.trans ?_⟩
    rw [List.flatMap_cons, List.map_append, ← List.append_assoc]
    exact hlisted.append_right _

/-- Several files with intact records: the envelope lists the observations of all of them, each
under its own metadata, and its batches have different metadata. -/
theorem readFiles_spec (hpb : pb.Lawful) {disk : Disk} {fileNames : List String}
    {records : String → List (Contents M E U)}
    (hdisk : ∀ fileName ∈ fileNames, disk.lookup fileName = some (encodeAll pb (records fileName)))
    (hintact : ∀ fileName ∈ fileNames, Intact pb (records fileName)) :
    let r := readFiles pb encrypt disk fileNames
    r.1 = .ok ∧ (r.2.envelope.map ObservationBatch.metaData).Nodup ∧
      (listed r.2.envelope).Perm ((fileNames.flatMap fun fileName =>
        observationsOf none (records fileName)).map fun p => (p.1, pb.toEncrypted encrypt p.2)) := by
  have hstart : Reading.Inv pb {} none := ⟨by simp, by simp, by simp, by simp⟩
  obtain ⟨hok, hinv, hlisted⟩ := runAll_readFile encrypt hpb hdisk hintact hstart
  exact ⟨hok, hinv.distinct, hlisted⟩

end Listed

end Cobalt.ObservationStore
