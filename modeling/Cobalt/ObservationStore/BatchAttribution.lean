import Cobalt.ObservationStore.FileConservation

/-!
# The batch that an observation is added to

`GetEnvelope` does not initialize its pointer to the current batch, and it does not reset it between
files. An observation record at the start of a file is added through the pointer that the files
before it have left, or through one that was never set. So is a record at the start of a file that
has no field set, while the observation of the record before it is still in the message that records
are parsed into.

Here the loops of `GetEnvelope` are run with a record of whether the pointer was set in the file at
hand, and of whether an observation was added while it was not.

## Main definitions

* `trackRecord`, `trackFile`, `trackFiles`: the loops with that record.
* `AttributesOwn`: every observation is added to a batch that was set in its own file.
* `StartsSafely`: how the files that are reached have to start.

## Main results

* `reading_trackFiles`: the record does not change what is read.
* `attributesOwn_iff`: for which contents of the files the property holds.
-/

namespace Cobalt.ObservationStore

section Tracking

variable {M E U : Type} (pb : Protobuf M E U) (encrypt : U → Option E)

/-- The local variables of `GetEnvelope`, whether a metadata record of the file at hand has set the
current batch, and whether an observation was added while none had. -/
structure Tracked (M E U : Type) where
  reading : Reading M E U := {}
  setInFile : Bool := false
  misattributed : Bool := false

/-- `readRecord`, with the record of what it does. -/
def trackRecord (record : Option (Contents M E U)) (s : Tracked M E U) :
    ReadStatus × Tracked M E U :=
  let r := readRecord pb encrypt record s.reading
  match pb.merge s.reading.stored record with
  | some (.metaData _) => (r.1, { s with reading := r.2, setInFile := true })
  | some _ => (r.1, { s with
      reading := r.2
      misattributed := s.misattributed || !s.setInFile })
  | none => (r.1, { s with reading := r.2 })

/-- `readFile`, with the record of what it does. -/
def trackFile (disk : Disk) (fileName : String) (s : Tracked M E U) :
    ReadStatus × Tracked M E U :=
  match disk.lookup fileName with
  | none => (.ok, s)
  | some bytes =>
    let r := Loop.runAll .ok (trackRecord pb encrypt) (pb.parseDelimited bytes).1
      { s with setInFile := false }
    if r.1 = .ok ∧ (pb.parseDelimited bytes).2 = false then (.corrupted, r.2) else r

/-- `readFiles`, with the record of what it does. -/
def trackFiles (disk : Disk) (fileNames : List String) : ReadStatus × Tracked M E U :=
  Loop.runAll .ok (trackFile pb encrypt disk) fileNames {}

/-- Every observation is added to a batch of its own file. No observation is added through a
pointer that no metadata record of the same file has set, and none through a pointer that is not
initialized. -/
def AttributesOwn (disk : Disk) (fileNames : List String) : Prop :=
  (trackFiles pb encrypt disk fileNames).2.misattributed = false ∧
    (trackFiles pb encrypt disk fileNames).1 ≠ .undefinedBehavior

/-! ### The condition -/

/-- Whether an observation is left in the message after some records, or `none` when a record that
leaves nothing set stops the loop. -/
def leftAfter : Bool → List (Option (Contents M E U)) → Option Bool
  | left, [] => some left
  | _, some (.metaData _) :: records => leftAfter false records
  | _, some _ :: records => leftAfter true records
  | true, none :: records => leftAfter true records
  | false, none :: _ => none

/-- How the files have to start that are reached, given whether an observation is left in the
message before them: with metadata, or with a record that has no field set while nothing is left, or
with no record. A file is the records that are parsed, and whether its end is clean. -/
def StartsSafely : Bool → List (List (Option (Contents M E U)) × Bool) → Prop
  | _, [] => True
  | left, ([], clean) :: files => clean = true → StartsSafely left files
  | _, (some (.metaData _) :: records, clean) :: files =>
    ∀ left, leftAfter false records = some left → clean = true → StartsSafely left files
  | left, (none :: _, _) :: _ => left = false
  | _, (some _ :: _, _) :: _ => False

/-- The files that can be opened, as they are parsed. -/
def parsedFiles (disk : Disk) (fileNames : List String) :
    List (List (Option (Contents M E U)) × Bool) :=
  fileNames.filterMap fun fileName => (disk.lookup fileName).map pb.parseDelimited

end Tracking

section Attribution

variable {M E U : Type} {pb : Protobuf M E U} {encrypt : U → Option E} {s : Tracked M E U}

/-! ### The record does not change what is read -/

theorem reading_trackRecord (record : Option (Contents M E U)) (s : Tracked M E U) :
    ((trackRecord pb encrypt record s).1, (trackRecord pb encrypt record s).2.reading) =
      readRecord pb encrypt record s.reading := by
  rw [trackRecord]
  split <;> rfl

theorem reading_trackFile (disk : Disk) (fileName : String) (s : Tracked M E U) :
    ((trackFile pb encrypt disk fileName s).1, (trackFile pb encrypt disk fileName s).2.reading) =
      readFile pb encrypt disk fileName s.reading := by
  rw [trackFile, readFile]
  cases disk.lookup fileName with
  | none => rfl
  | some bytes =>
    have hloop : ((Loop.runAll .ok (trackRecord pb encrypt) (pb.parseDelimited bytes).1
          { s with setInFile := false }).1,
        (Loop.runAll .ok (trackRecord pb encrypt) (pb.parseDelimited bytes).1
          { s with setInFile := false }).2.reading) =
        Loop.runAll .ok (readRecord pb encrypt) (pb.parseDelimited bytes).1 s.reading :=
      Loop.runAll_view (fun record _ s => reading_trackRecord record s) _
    dsimp only
    rw [← hloop]
    split_ifs <;> rfl

/-- The record does not change what is read. -/
theorem reading_trackFiles (disk : Disk) (fileNames : List String) :
    ((trackFiles pb encrypt disk fileNames).1, (trackFiles pb encrypt disk fileNames).2.reading) =
      readFiles pb encrypt disk fileNames :=
  Loop.runAll_view (fun fileName _ s => reading_trackFile disk fileName s) {}

/-! ### One record -/

/-- What holds between records: no metadata is left in the message, and the pointer is set where the
file has set it. -/
@[mk_iff]
structure Tracked.Inv (s : Tracked M E U) : Prop where
  stored_ne : ∀ m, s.reading.stored ≠ some (.metaData m)
  current : s.setInFile = true → s.reading.currentBatch ≠ none

/-- An observation is left in the message. -/
def Tracked.left (s : Tracked M E U) : Bool := s.reading.stored.isSome

theorem merge_metaData (h : s.Inv) (m : M) :
    pb.merge s.reading.stored (some (.metaData m)) = some (.metaData m) := by
  rcases hstored : s.reading.stored with _ | (m' | e | u)
  · rfl
  · exact absurd hstored (h.stored_ne m')
  · rfl
  · rfl

/-- A metadata record sets the batch, and is taken out of the message. -/
theorem trackRecord_metaData (h : s.Inv) (m : M) :
    let r := trackRecord pb encrypt (some (.metaData m)) s
    r.1 = .ok ∧ r.2.Inv ∧ r.2.left = false ∧ r.2.setInFile = true ∧
      r.2.misattributed = s.misattributed := by
  have hset : (s.reading.setMetadata pb m).currentBatch ≠ none := by
    rw [Reading.setMetadata]
    split <;> simp
  dsimp only
  rw [trackRecord, readRecord, merge_metaData h m]
  exact ⟨rfl, ⟨by simp, fun _ => hset⟩, rfl, rfl, rfl⟩

/-- An observation that is in the message after a record is added to the current batch. -/
theorem trackRecord_observation {record : Option (Contents M E U)} {c : Contents M E U}
    (hmerge : pb.merge s.reading.stored record = some c) (hne : ∀ m, c ≠ .metaData m) :
    let r := trackRecord pb encrypt record s
    r.2.misattributed = (s.misattributed || !s.setInFile) ∧
      (s.Inv → s.setInFile = true →
        r.1 = .ok ∧ r.2.Inv ∧ r.2.left = true ∧ r.2.setInFile = true) := by
  dsimp only
  rw [trackRecord, readRecord, hmerge]
  cases c with
  | metaData m => exact absurd rfl (hne m)
  | encryptedObservation e =>
    refine ⟨rfl, fun h hset => ?_⟩
    obtain ⟨i, hi⟩ := Option.ne_none_iff_exists'.mp (h.current hset)
    simp [Reading.addEncryptedObservation, hi, hset, Tracked.left, Tracked.inv_iff]
  | unencryptedObservation u =>
    refine ⟨rfl, fun h hset => ?_⟩
    obtain ⟨i, hi⟩ := Option.ne_none_iff_exists'.mp (h.current hset)
    simp [Reading.addEncryptedObservation, hi, hset, Tracked.left, Tracked.inv_iff]

/-- An observation that was added to a batch of another file stays so. -/
theorem misattributed_trackRecord (record : Option (Contents M E U)) (s : Tracked M E U)
    (h : s.misattributed = true) : (trackRecord pb encrypt record s).2.misattributed = true := by
  rw [trackRecord]
  split <;> simp [h]

theorem misattributed_runAll_trackRecord (records : List (Option (Contents M E U)))
    (s : Tracked M E U) (h : s.misattributed = true) :
    (Loop.runAll .ok (trackRecord pb encrypt) records s).2.misattributed = true :=
  Loop.runAll_rel (R := fun s s' : Tracked M E U =>
      s.misattributed = true → s'.misattributed = true)
    (fun _ hs => hs) (fun _ _ _ hst htu hs => htu (hst hs))
    (fun record _ s hs => misattributed_trackRecord record s hs) s h

theorem misattributed_trackFile {disk : Disk} (fileName : String) (s : Tracked M E U)
    (h : s.misattributed = true) :
    (trackFile pb encrypt disk fileName s).2.misattributed = true := by
  rw [trackFile]
  cases disk.lookup fileName with
  | none => exact h
  | some bytes =>
    dsimp only
    split_ifs <;> exact misattributed_runAll_trackRecord _ _ h

theorem misattributed_runAll_trackFile {disk : Disk} (fileNames : List String) (s : Tracked M E U)
    (h : s.misattributed = true) :
    (Loop.runAll .ok (trackFile pb encrypt disk) fileNames s).2.misattributed = true :=
  Loop.runAll_rel (R := fun s s' : Tracked M E U =>
      s.misattributed = true → s'.misattributed = true)
    (fun _ hs => hs) (fun _ _ _ hst htu hs => htu (hst hs))
    (fun fileName _ s hs => misattributed_trackFile fileName s hs) s h

/-! ### The records after metadata -/

/-- A step of `leftAfter` for a record by which an observation is in the message. -/
theorem leftAfter_observation {record : Option (Contents M E U)} {c : Contents M E U}
    {records : List (Option (Contents M E U))} (h : s.Inv)
    (hmerge : pb.merge s.reading.stored record = some c) (hne : ∀ m, c ≠ .metaData m) :
    leftAfter s.left (record :: records) = leftAfter true records := by
  rcases record with _ | (m | e | u)
  · have hleft : s.left = true := by
      rw [Tracked.left]
      rcases hstored : s.reading.stored with _ | c'
      · rw [hstored] at hmerge
        cases hmerge
      · rfl
    rw [hleft, leftAfter]
  · rw [merge_metaData h m] at hmerge
    cases hmerge
    exact absurd rfl (hne m)
  · rw [leftAfter]
    simp
  · rw [leftAfter]
    simp

/-- An observation that is parsed into the message is in it, whatever was in it before. -/
theorem merge_observation (stored : Option (Contents M E U)) {c : Contents M E U}
    (hne : ∀ m, c ≠ .metaData m) :
    ∃ c', pb.merge stored (some c) = some c' ∧ ∀ m, c' ≠ .metaData m := by
  unfold Protobuf.merge
  split
  · next heq => cases heq
  · next m m' heq =>
    cases heq
    exact absurd rfl (hne m')
  · exact ⟨_, rfl, by simp⟩
  · exact ⟨_, rfl, by simp⟩
  · next heq =>
    cases heq
    exact ⟨c, rfl, hne⟩

/-- What a record does to the message: it is metadata, it leaves an observation in the message,
or it leaves nothing set. -/
theorem merge_cases (h : s.Inv) (record : Option (Contents M E U)) :
    (∃ m, record = some (.metaData m)) ∨
    (∃ c, pb.merge s.reading.stored record = some c ∧ ∀ m, c ≠ .metaData m) ∨
    (record = none ∧ s.reading.stored = none) := by
  rcases record with _ | c
  · cases hstored : s.reading.stored with
    | none => exact .inr (.inr ⟨rfl, rfl⟩)
    | some c =>
      refine .inr (.inl ⟨c, rfl, fun m hm => ?_⟩)
      exact h.stored_ne m (hstored.trans (congrArg some hm))
  · by_cases hmeta : ∃ m, c = .metaData m
    · obtain ⟨m, rfl⟩ := hmeta
      exact .inl ⟨m, rfl⟩
    · push Not at hmeta
      exact .inr (.inl (merge_observation s.reading.stored hmeta))

/-- A record that leaves nothing set ends the loops. -/
theorem trackRecord_none (hstored : s.reading.stored = none) :
    trackRecord pb encrypt none s = (.corrupted, s) := by
  rw [trackRecord, readRecord, hstored]
  rfl

/-- The records of a file after its batch is set add observations to batches of this file
only. -/
theorem runAll_trackRecord (records : List (Option (Contents M E U))) (h : s.Inv)
    (hset : s.setInFile = true) :
    let r := Loop.runAll .ok (trackRecord pb encrypt) records s
    r.2.misattributed = s.misattributed ∧ r.1 ≠ .undefinedBehavior ∧
      (leftAfter s.left records = none → r.1 ≠ .ok) ∧
      ∀ left, leftAfter s.left records = some left → r.1 = .ok ∧ r.2.Inv ∧ r.2.left = left := by
  induction records generalizing s with
  | nil =>
    refine ⟨rfl, by simp, by simp [leftAfter], fun left hleft => ⟨rfl, h, ?_⟩⟩
    exact Option.some.inj hleft
  | cons record records ih =>
    rcases @merge_cases M E U pb s h record with ⟨m, rfl⟩ | ⟨c, hmerge, hne⟩ | ⟨rfl, hstored⟩
    · obtain ⟨hok, hinv, hleft, hset', hmis⟩ := @trackRecord_metaData M E U pb encrypt s h m
      have hrest := ih hinv hset'
      dsimp only at hok hinv hleft hset' hmis hrest ⊢
      rw [Loop.runAll_cons_of_ok hok, ← hmis]
      rw [hleft] at hrest
      exact hrest
    · obtain ⟨hmis, hkeep⟩ := @trackRecord_observation M E U pb encrypt s record c hmerge hne
      obtain ⟨hok, hinv, hleft, hset'⟩ := hkeep h hset
      have hrest := ih hinv hset'
      dsimp only at hmis hok hinv hleft hset' hrest ⊢
      rw [hset, Bool.not_true, Bool.or_false] at hmis
      rw [Loop.runAll_cons_of_ok hok, leftAfter_observation h hmerge hne, ← hmis]
      rw [hleft] at hrest
      exact hrest
    · have hleft : s.left = false := by rw [Tracked.left, hstored, Option.isSome_none]
      have hstop := @trackRecord_none M E U pb encrypt s hstored
      dsimp only
      rw [Loop.runAll_cons_of_ne (by rw [hstop]; simp), hstop, hleft, leftAfter]
      simp

/-! ### The files -/

/-- At the start of a file the batch is not set. -/
theorem Tracked.Inv.startFile (h : s.Inv) : Tracked.Inv { s with setInFile := false } :=
  ⟨h.stored_ne, fun hset => by cases hset⟩

/-- An observation at the start of a file is added to a batch of another one. -/
theorem misattributed_of_observation {record : Option (Contents M E U)} {c : Contents M E U}
    (records : List (Option (Contents M E U)))
    (hmerge : pb.merge s.reading.stored record = some c) (hne : ∀ m, c ≠ .metaData m) :
    (Loop.runAll .ok (trackRecord pb encrypt) (record :: records)
      { s with setInFile := false }).2.misattributed = true := by
  have hfirst := (@trackRecord_observation M E U pb encrypt { s with setInFile := false } record c
    hmerge hne).1
  dsimp only at hfirst
  rw [Bool.not_false, Bool.or_true] at hfirst
  rw [Loop.runAll]
  split_ifs
  · exact misattributed_runAll_trackRecord _ _ hfirst
  · exact hfirst

/-- The loop over the files from a file on after which an observation is in the wrong batch. -/
theorem not_runAll_trackFile {disk : Disk} {fileName : String} (fileNames : List String)
    (h : (trackFile pb encrypt disk fileName s).2.misattributed = true) :
    (Loop.runAll .ok (trackFile pb encrypt disk) (fileName :: fileNames) s).2.misattributed =
      true := by
  rw [Loop.runAll]
  split_ifs
  · exact misattributed_runAll_trackFile _ _ h
  · exact h

theorem trackFile_eq {disk : Disk} {fileName : String} {bytes : Bytes}
    {records : List (Option (Contents M E U))} {clean : Bool}
    (hlookup : disk.lookup fileName = some bytes)
    (hparse : pb.parseDelimited bytes = (records, clean)) :
    trackFile pb encrypt disk fileName s =
      if (Loop.runAll .ok (trackRecord pb encrypt) records { s with setInFile := false }).1 = .ok ∧
          clean = false then
        (.corrupted,
          (Loop.runAll .ok (trackRecord pb encrypt) records { s with setInFile := false }).2)
      else Loop.runAll .ok (trackRecord pb encrypt) records { s with setInFile := false } := by
  simp only [trackFile, hlookup, hparse]

/-- A file that starts with metadata. The loop over the files goes on after it if its records
leave something set and its end is clean. -/
theorem trackFile_metaData {disk : Disk} {fileName : String} {bytes : Bytes} {m : M}
    {records : List (Option (Contents M E U))} {clean : Bool} (h : s.Inv)
    (hlookup : disk.lookup fileName = some bytes)
    (hparse : pb.parseDelimited bytes = (some (.metaData m) :: records, clean)) :
    let r := trackFile pb encrypt disk fileName s
    r.2.misattributed = s.misattributed ∧ r.1 ≠ .undefinedBehavior ∧
      ((leftAfter false records = none ∨ clean = false) → r.1 ≠ .ok) ∧
      ∀ left, leftAfter false records = some left → clean = true →
        r.1 = .ok ∧ r.2.Inv ∧ r.2.left = left := by
  obtain ⟨hok, hinv, hleft, hset, hmis⟩ :=
    @trackRecord_metaData M E U pb encrypt { s with setInFile := false } h.startFile m
  obtain ⟨hmis', hdefined, hstop, hcontinue⟩ :=
    @runAll_trackRecord M E U pb encrypt _ records hinv hset
  rw [hleft] at hstop hcontinue
  dsimp only at hok hmis ⊢
  rw [trackFile_eq hlookup hparse, Loop.runAll_cons_of_ok hok]
  split_ifs with hclean
  · refine ⟨hmis'.trans hmis, by simp, by simp, fun left _ htrue => ?_⟩
    rw [hclean.2] at htrue
    cases htrue
  · refine ⟨hmis'.trans hmis, hdefined, ?_, fun left hafter _ => hcontinue left hafter⟩
    rintro (hnone | hfalse)
    · exact hstop hnone
    · exact fun hok' => hclean ⟨hok', hfalse⟩

/-- A file that starts otherwise: an observation is in the wrong batch after it if its first
record leaves one in the message, and else the loops end. -/
theorem trackFile_cons {disk : Disk} {fileName : String} {bytes : Bytes}
    {record : Option (Contents M E U)} {records : List (Option (Contents M E U))} {clean : Bool}
    (h : s.Inv) (hlookup : disk.lookup fileName = some bytes)
    (hparse : pb.parseDelimited bytes = (record :: records, clean))
    (hne : ∀ m, record ≠ some (.metaData m)) :
    ((record = none ∧ s.left = false) ∧
      trackFile pb encrypt disk fileName s = (.corrupted, { s with setInFile := false })) ∨
    (¬ (record = none ∧ s.left = false) ∧
      (trackFile pb encrypt disk fileName s).2.misattributed = true) := by
  rw [trackFile_eq hlookup hparse]
  rcases @merge_cases M E U pb s h record with ⟨m, hm⟩ | ⟨c, hmerge, hc⟩ | ⟨rfl, hstored⟩
  · exact absurd hm (hne m)
  · refine .inr ⟨?_, ?_⟩
    · rintro ⟨rfl, hleft⟩
      rw [Tracked.left, Option.isSome_eq_false_iff, Option.isNone_iff_eq_none] at hleft
      rw [hleft] at hmerge
      cases hmerge
    · split_ifs <;> exact misattributed_of_observation records hmerge hc
  · refine .inl ⟨⟨rfl, by rw [Tracked.left, hstored, Option.isSome_none]⟩, ?_⟩
    have hstop := @trackRecord_none M E U pb encrypt { s with setInFile := false } hstored
    rw [Loop.runAll_cons_of_ne (by rw [hstop]; simp), hstop, if_neg (by simp)]

theorem trackFile_nil {disk : Disk} {fileName : String} {bytes : Bytes} {clean : Bool}
    (hlookup : disk.lookup fileName = some bytes)
    (hparse : pb.parseDelimited bytes = ([], clean)) :
    trackFile pb encrypt disk fileName s =
      if clean = false then (.corrupted, { s with setInFile := false })
      else (.ok, { s with setInFile := false }) := by
  rw [trackFile_eq hlookup hparse]
  simp

theorem parsedFiles_cons_of_none {disk : Disk} {fileName : String} {fileNames : List String}
    (hlookup : disk.lookup fileName = none) :
    parsedFiles pb disk (fileName :: fileNames) = parsedFiles pb disk fileNames := by
  rw [parsedFiles, List.filterMap_cons_none (by rw [hlookup]; rfl), parsedFiles]

theorem parsedFiles_cons_of_some {disk : Disk} {fileName : String} {fileNames : List String}
    {bytes : Bytes} (hlookup : disk.lookup fileName = some bytes) :
    parsedFiles pb disk (fileName :: fileNames) =
      pb.parseDelimited bytes :: parsedFiles pb disk fileNames := by
  rw [parsedFiles, List.filterMap_cons_some (by rw [hlookup]; rfl), parsedFiles]

theorem startsSafely_cons_of_ne {left clean : Bool} {record : Option (Contents M E U)}
    {records : List (Option (Contents M E U))} (hne : ∀ m, record ≠ some (.metaData m))
    (files : List (List (Option (Contents M E U)) × Bool)) :
    StartsSafely left ((record :: records, clean) :: files) ↔ record = none ∧ left = false := by
  rcases record with _ | (m | e | u)
  · simp [StartsSafely]
  · exact absurd rfl (hne m)
  · simp [StartsSafely]
  · simp [StartsSafely]

/-- The files. The property holds from a state in which no observation was added to a batch of
another file, if and only if the files start safely. -/
theorem runAll_trackFile {disk : Disk} (fileNames : List String) (h : s.Inv)
    (hmis : s.misattributed = false) :
    ((Loop.runAll .ok (trackFile pb encrypt disk) fileNames s).2.misattributed = false ∧
        (Loop.runAll .ok (trackFile pb encrypt disk) fileNames s).1 ≠ .undefinedBehavior) ↔
      StartsSafely s.left (parsedFiles pb disk fileNames) := by
  induction fileNames generalizing s with
  | nil =>
    rw [Loop.runAll_nil]
    exact iff_of_true ⟨hmis, by simp⟩ trivial
  | cons fileName fileNames ih =>
    cases hlookup : disk.lookup fileName with
    | none =>
      have hfile : trackFile pb encrypt disk fileName s = (.ok, s) := by rw [trackFile, hlookup]
      rw [Loop.runAll_cons_of_ok (by rw [hfile]), hfile, parsedFiles_cons_of_none hlookup]
      exact ih h hmis
    | some bytes =>
      rw [parsedFiles_cons_of_some hlookup]
      rcases hparse : pb.parseDelimited bytes with ⟨records, clean⟩
      rcases records with _ | ⟨record, records⟩
      · have hfile := @trackFile_nil M E U pb encrypt s disk fileName bytes clean hlookup hparse
        cases clean with
        | false =>
          rw [if_pos rfl] at hfile
          rw [Loop.runAll_cons_of_ne (by rw [hfile]; simp), hfile]
          exact iff_of_true ⟨hmis, by simp⟩ fun hclean => by cases hclean
        | true =>
          rw [if_neg (by simp)] at hfile
          rw [Loop.runAll_cons_of_ok (by rw [hfile]), hfile, ih h.startFile hmis]
          exact ⟨fun hsafe _ => hsafe, fun hsafe => hsafe rfl⟩
      by_cases hmeta : ∃ m, record = some (.metaData m)
      · obtain ⟨m, rfl⟩ := hmeta
        obtain ⟨hmis', hdefined, hstop, hcontinue⟩ :=
          @trackFile_metaData M E U pb encrypt s disk fileName bytes m records clean h hlookup
            hparse
        by_cases hend : leftAfter false records = none ∨ clean = false
        · rw [Loop.runAll_cons_of_ne (hstop hend)]
          refine iff_of_true ⟨hmis'.trans hmis, hdefined⟩ fun left hleft hclean => ?_
          rcases hend with hnone | hfalse
          · rw [hnone] at hleft
            cases hleft
          · rw [hfalse] at hclean
            cases hclean
        · push Not at hend
          obtain ⟨left, hleft⟩ := Option.ne_none_iff_exists'.mp hend.1
          have hclean : clean = true := Bool.eq_true_of_not_eq_false hend.2
          obtain ⟨hok, hinv, hleft'⟩ := hcontinue left hleft hclean
          rw [Loop.runAll_cons_of_ok hok, ih hinv (hmis'.trans hmis), hleft']
          refine ⟨fun hsafe left' hafter _ => ?_, fun hsafe => hsafe left hleft hclean⟩
          rw [hleft] at hafter
          cases hafter
          exact hsafe
      · push Not at hmeta
        rw [startsSafely_cons_of_ne hmeta]
        rcases @trackFile_cons M E U pb encrypt s disk fileName bytes record records clean h hlookup
          hparse hmeta with ⟨hstart, hfile⟩ | ⟨hstart, hwrong⟩
        · rw [Loop.runAll_cons_of_ne (by rw [hfile]; simp), hfile]
          exact iff_of_true ⟨hmis, by simp⟩ hstart
        · refine iff_of_false (fun hall => ?_) hstart
          rw [not_runAll_trackFile fileNames hwrong] at hall
          exact absurd hall.1 (by simp)

/-- **The batch of an observation.** Every observation is added to a batch of its own file if and
only if the files that are reached start safely. -/
theorem attributesOwn_iff (pb : Protobuf M E U) (encrypt : U → Option E) (disk : Disk)
    (fileNames : List String) :
    AttributesOwn pb encrypt disk fileNames ↔
      StartsSafely false (parsedFiles pb disk fileNames) :=
  runAll_trackFile fileNames ⟨by simp, by simp⟩ rfl

end Attribution

/-- A file with an observation under its metadata, and one whose metadata record is lost. -/
def damagedFiles : Disk :=
  AList.insert "1" (encodeAll flagProtobuf [.metaData true, .encryptedObservation true])
    (AList.insert "2" (encodeAll flagProtobuf [.encryptedObservation true]) ∅)

/-- The observation of the second file is added to the batch of the first one. Where the second
file is read alone, the pointer is not initialized. -/
theorem not_attributesOwn_damagedFiles :
    ¬ AttributesOwn flagProtobuf some damagedFiles ["1", "2"] ∧
      listed (readFiles flagProtobuf some damagedFiles ["1", "2"]).2.envelope =
        [(true, true), (true, true)] ∧
      (readFiles flagProtobuf some damagedFiles ["2"]).1 = .undefinedBehavior :=
  ⟨fun h => absurd h.1 (by decide +kernel), by decide +kernel, by decide +kernel⟩

end Cobalt.ObservationStore
