import Cobalt.ObservationStore.FileConservation
import Mathlib.Data.List.Perm.Subperm

/-!
# Envelopes of holders with corrupt files

`GetEnvelope` goes through the files of a holder in the order of their names. A file that cannot be
opened is passed over. After a file that ends in a corrupt record the loop over the files is left,
and the files after it are not read, although the holder deletes them when it is destroyed.

## Main definitions

* `isCorruptFile`, `intactObservations`: the corrupt files of a holder, and the observations in its
  intact ones.
* `ContainsIntact`: the envelope contains the observations of all intact files.

## Main results

* `readFiles_perm`: the observations in an envelope are those of the files up to the first corrupt
  one.
* `containsIntact_iff`: the envelope contains the observations of all intact files if and only if
  they can be encrypted and those in files after the first corrupt one are also in that one.
-/

namespace Cobalt.ObservationStore

section Files

variable {M E U : Type} (pb : Protobuf M E U) (encrypt : U → Option E) (disk : Disk)

/-- The file can be opened and is intact. -/
def isIntactFile (name : String) : Bool := (disk.lookup name).any (isIntact pb)

/-- The file can be opened and is not intact. -/
def isCorruptFile (name : String) : Bool := (disk.lookup name).any fun bytes => !isIntact pb bytes

/-- The observations that are written in a file, none if it cannot be opened. -/
def fileObservations (name : String) : List (M × Observation E U) :=
  ((disk.lookup name).map (observationsIn pb)).getD []

/-- The observations that are written in the intact files of a list. -/
def intactObservations (names : List String) : List (M × Observation E U) :=
  (names.filter (isIntactFile pb disk)).flatMap (fileObservations pb disk)

/-- An entry of an envelope is what an observation becomes that can be encrypted. -/
def Carries (p : M × Observation E U) (entry : M × E) : Prop :=
  entry.1 = p.1 ∧ match p.2 with
    | .encrypted e => entry.2 = e
    | .unencrypted u => encrypt u = some entry.2

/-- An observation that is encrypted or can be. -/
def CanEncrypt : Observation E U → Prop
  | .encrypted _ => True
  | .unencrypted u => (encrypt u).isSome

/-- The opened files of a list have the format of the store. -/
def FilesFormat (names : List String) : Prop :=
  ∀ name ∈ names, ∀ bytes, disk.lookup name = some bytes → FileFormat pb bytes

/-- The envelope of a holder contains every observation of every intact file that the holder
owns: it is read without undefined behavior, and among its entries there is one for each of these
observations. The holder has not read its envelope yet, as after `MergeWith`. -/
def ContainsIntact (s : Store M E U) (names : List String) : Prop :=
  (readFiles pb encrypt s.disk names).1 ≠ .undefinedBehavior ∧
  ∃ entries, List.Forall₂ (Carries encrypt) (intactObservations pb s.disk names) entries ∧
    entries.Subperm (listed (s.envelopeOf pb encrypt { fileNames := names }))

end Files

section Reading

variable {M E U : Type} {pb : Protobuf M E U} (encrypt : U → Option E) {disk : Disk}

/-- What an observation becomes in an envelope, with its metadata. -/
def Protobuf.entry (pb : Protobuf M E U) (encrypt : U → Option E) (p : M × Observation E U) :
    M × E :=
  (p.1, pb.toEncrypted encrypt p.2)

/-- The files that are read: those up to the first corrupt one. -/
def filesRead (pb : Protobuf M E U) (disk : Disk) : List String → List String
  | [] => []
  | name :: names => name :: if isCorruptFile pb disk name then [] else filesRead pb disk names

/-- One file of the loop. A file that cannot be opened is passed over, an intact one is read,
and a corrupt one is read up to its corrupt record and ends the loop. -/
theorem readFile_cases (hpb : pb.Lawful) {name : String}
    (hformat : ∀ bytes, disk.lookup name = some bytes → FileFormat pb bytes)
    {s : Reading M E U} (h : s.Inv pb none) :
    let r := readFile pb encrypt disk name s
    r.1 = (if isCorruptFile pb disk name then .corrupted else .ok) ∧ r.2.Inv pb none ∧
      (listed r.2.envelope).Perm (listed s.envelope ++
        (fileObservations pb disk name).map (pb.entry encrypt)) := by
  cases hlookup : disk.lookup name with
  | none =>
    simp only [readFile, isCorruptFile, fileObservations, hlookup]
    exact ⟨rfl, h, by simp⟩
  | some bytes =>
    have hread := readFile_format encrypt hpb hlookup (hformat bytes hlookup) h
    simp only [isCorruptFile, fileObservations, hlookup, Option.any_some, Option.map_some,
      Option.getD_some]
    cases hintact : isIntact pb bytes <;> rw [hintact] at hread <;> exact hread

/-- The loop over the files. -/
theorem runAll_readFile_cases (hpb : pb.Lawful) {names : List String}
    (hformat : FilesFormat pb disk names) {s : Reading M E U} (h : s.Inv pb none) :
    let r := Loop.runAll .ok (readFile pb encrypt disk) names s
    r.1 ≠ .undefinedBehavior ∧
      (listed r.2.envelope).Perm (listed s.envelope ++
        ((filesRead pb disk names).flatMap (fileObservations pb disk)).map (pb.entry encrypt)) := by
  induction names generalizing s with
  | nil => exact ⟨by simp, by simp [filesRead]⟩
  | cons name names ih =>
    obtain ⟨hstatus, hinv, hlisted⟩ :=
      readFile_cases encrypt hpb (hformat name List.mem_cons_self) h
    dsimp only at hstatus hinv hlisted ⊢
    by_cases hcorrupt : isCorruptFile pb disk name = true
    · rw [if_pos hcorrupt] at hstatus
      rw [Loop.runAll_cons_of_ne (by rw [hstatus]; simp), filesRead, if_pos hcorrupt, hstatus]
      refine ⟨by simp, ?_⟩
      rwa [List.flatMap_singleton]
    · rw [if_neg hcorrupt] at hstatus
      obtain ⟨hne, hlisted'⟩ := ih (fun n hn => hformat n (List.mem_cons_of_mem _ hn)) hinv
      rw [Loop.runAll_cons_of_ok hstatus, filesRead, if_neg hcorrupt]
      refine ⟨hne, hlisted'.trans ?_⟩
      rw [List.flatMap_cons, List.map_append, ← List.append_assoc]
      exact hlisted.append_right _

/-- The entries of an envelope are those of the observations in the files up to the first
corrupt one. -/
theorem readFiles_perm (hpb : pb.Lawful) {names : List String}
    (hformat : FilesFormat pb disk names) :
    (readFiles pb encrypt disk names).1 ≠ .undefinedBehavior ∧
      (listed (readFiles pb encrypt disk names).2.envelope).Perm
        (((filesRead pb disk names).flatMap (fileObservations pb disk)).map
          (pb.entry encrypt)) := by
  have hstart : Reading.Inv pb ({} : Reading M E U) none := ⟨by simp, by simp, by simp, by simp⟩
  exact runAll_readFile_cases encrypt hpb hformat hstart

/-! ### The first corrupt file -/

theorem filesRead_append {before after : List String} {name : String}
    (hbefore : ∀ n ∈ before, isCorruptFile pb disk n = false)
    (hcorrupt : isCorruptFile pb disk name = true) :
    filesRead pb disk (before ++ name :: after) = before ++ [name] := by
  induction before with
  | nil => simp only [List.nil_append, filesRead, hcorrupt, ↓reduceIte]
  | cons n before ih =>
    have hn := hbefore n List.mem_cons_self
    have hrest := ih fun n' hn' => hbefore n' (List.mem_cons_of_mem _ hn')
    simp only [List.cons_append, filesRead, hn, hrest, Bool.false_eq_true, ↓reduceIte]

/-- All files are read, or there is a first corrupt one. -/
theorem filesRead_eq_or (pb : Protobuf M E U) (disk : Disk) (names : List String) :
    ((∀ n ∈ names, isCorruptFile pb disk n = false) ∧ filesRead pb disk names = names) ∨
    ∃ before name after, names = before ++ name :: after ∧
      (∀ n ∈ before, isCorruptFile pb disk n = false) ∧ isCorruptFile pb disk name = true := by
  induction names with
  | nil => exact Or.inl ⟨by simp, rfl⟩
  | cons n names ih =>
    cases hn : isCorruptFile pb disk n with
    | true => exact Or.inr ⟨[], n, names, rfl, by simp, hn⟩
    | false =>
      rcases ih with ⟨hall, heq⟩ | ⟨before, name, after, rfl, hbefore, hcorrupt⟩
      · exact Or.inl ⟨List.forall_mem_cons.mpr ⟨hn, hall⟩, by simp [filesRead, hn, heq]⟩
      · exact Or.inr ⟨n :: before, name, after, rfl, List.forall_mem_cons.mpr ⟨hn, hbefore⟩, hcorrupt⟩

/-- Files none of which is corrupt are intact or have no observations. -/
theorem flatMap_fileObservations {names : List String}
    (h : ∀ n ∈ names, isCorruptFile pb disk n = false) :
    names.flatMap (fileObservations pb disk) = intactObservations pb disk names := by
  induction names with
  | nil => rfl
  | cons n names ih =>
    obtain ⟨hn, hrest⟩ := List.forall_mem_cons.mp h
    rw [List.flatMap_cons, ih hrest, intactObservations, intactObservations, List.filter_cons]
    cases hlookup : disk.lookup n with
    | none => simp [fileObservations, isIntactFile, hlookup]
    | some bytes =>
      have hintact : isIntactFile pb disk n = true := by
        simpa [isIntactFile, isCorruptFile, hlookup] using hn
      rw [if_pos hintact, List.flatMap_cons]

theorem intactObservations_append (names names' : List String) :
    intactObservations pb disk (names ++ names') =
      intactObservations pb disk names ++ intactObservations pb disk names' := by
  rw [intactObservations, List.filter_append, List.flatMap_append]
  rfl

theorem intactObservations_cons_of_corrupt {name : String} {names : List String}
    (h : isCorruptFile pb disk name = true) :
    intactObservations pb disk (name :: names) = intactObservations pb disk names := by
  have hintact : ¬ isIntactFile pb disk name = true := by
    cases hlookup : disk.lookup name with
    | none => simp [isIntactFile, hlookup]
    | some bytes => simpa [isIntactFile, isCorruptFile, hlookup] using h
  rw [intactObservations, List.filter_cons_of_neg hintact]
  rfl

/-- The entries for some observations, which all can be encrypted. -/
theorem forall₂_carries_iff {l : List (M × Observation E U)} {entries : List (M × E)} :
    List.Forall₂ (Carries encrypt) l entries ↔
      (∀ p ∈ l, CanEncrypt encrypt p.2) ∧ entries = l.map (pb.entry encrypt) := by
  have hone (p : M × Observation E U) (entry : M × E) :
      Carries encrypt p entry ↔ CanEncrypt encrypt p.2 ∧ entry = pb.entry encrypt p := by
    obtain ⟨m, o⟩ := p
    obtain ⟨m', e'⟩ := entry
    cases o with
    | encrypted e => simp [Carries, CanEncrypt, Protobuf.entry, Protobuf.toEncrypted]
    | unencrypted u =>
      cases hu : encrypt u with
      | none => simp [Carries, CanEncrypt, hu]
      | some e =>
        simp [Carries, CanEncrypt, Protobuf.entry, Protobuf.toEncrypted, hu, eq_comm]
  induction l generalizing entries with
  | nil => simp
  | cons p l ih =>
    rw [List.forall₂_cons_left_iff, List.map_cons, List.forall_mem_cons]
    simp only [ih, hone]
    constructor
    · rintro ⟨_, _, ⟨hp, rfl⟩, ⟨hl, rfl⟩, rfl⟩
      exact ⟨⟨hp, hl⟩, rfl⟩
    · rintro ⟨⟨hp, hl⟩, rfl⟩
      exact ⟨_, _, ⟨hp, rfl⟩, ⟨hl, rfl⟩, rfl⟩

end Reading

/-- **When an envelope contains the observations of all intact files**: if and only if these can be
encrypted, and those in files after the first corrupt one are also in that one, before its corrupt
record. -/
theorem containsIntact_iff {M E U : Type} {pb : Protobuf M E U} (hpb : pb.Lawful)
    (encrypt : U → Option E) (s : Store M E U) (names : List String)
    (hformat : FilesFormat pb s.disk names) :
    ContainsIntact pb encrypt s names ↔
      (∀ p ∈ intactObservations pb s.disk names, CanEncrypt encrypt p.2) ∧
      ∀ before name after, names = before ++ name :: after →
        (∀ n ∈ before, isCorruptFile pb s.disk n = false) → isCorruptFile pb s.disk name = true →
        ((intactObservations pb s.disk after).map (pb.entry encrypt)).Subperm
          ((fileObservations pb s.disk name).map (pb.entry encrypt)) := by
  obtain ⟨hne, hperm⟩ := readFiles_perm encrypt hpb hformat
  have henvelope : s.envelopeOf pb encrypt { fileNames := names } =
      (readFiles pb encrypt s.disk names).2.envelope := rfl
  have hentries : ContainsIntact pb encrypt s names ↔
      (∀ p ∈ intactObservations pb s.disk names, CanEncrypt encrypt p.2) ∧
      ((intactObservations pb s.disk names).map (pb.entry encrypt)).Subperm
        (((filesRead pb s.disk names).flatMap (fileObservations pb s.disk)).map
          (pb.entry encrypt)) := by
    rw [ContainsIntact, henvelope, and_iff_right hne]
    simp only [@forall₂_carries_iff M E U pb encrypt, hperm.subperm_left]
    exact ⟨fun ⟨_, ⟨hall, heq⟩, hsub⟩ => ⟨hall, heq ▸ hsub⟩,
      fun ⟨hall, hsub⟩ => ⟨_, ⟨hall, rfl⟩, hsub⟩⟩
  -- cut at the first corrupt file, the observations before it are the same on both sides
  have hcut : ∀ before name after, names = before ++ name :: after →
      (∀ n ∈ before, isCorruptFile pb s.disk n = false) → isCorruptFile pb s.disk name = true →
      (((intactObservations pb s.disk names).map (pb.entry encrypt)).Subperm
        (((filesRead pb s.disk names).flatMap (fileObservations pb s.disk)).map
          (pb.entry encrypt)) ↔
      ((intactObservations pb s.disk after).map (pb.entry encrypt)).Subperm
        ((fileObservations pb s.disk name).map (pb.entry encrypt))) := by
    rintro before name after rfl hbefore hcorrupt
    rw [filesRead_append hbefore hcorrupt, intactObservations_append,
      intactObservations_cons_of_corrupt hcorrupt, List.flatMap_append,
      flatMap_fileObservations hbefore, List.flatMap_singleton, List.map_append, List.map_append,
      List.subperm_append_left]
  rw [hentries]
  refine and_congr_right fun _ => ⟨fun h before name after heq hbefore hcorrupt =>
    (hcut before name after heq hbefore hcorrupt).mp h, fun h => ?_⟩
  rcases filesRead_eq_or pb s.disk names with ⟨hall, heq⟩ | ⟨before, name, after, heq, hbefore, hcorrupt⟩
  · rw [heq, flatMap_fileObservations hall]
  · exact (hcut before name after heq hbefore hcorrupt).mpr (h before name after heq hbefore hcorrupt)

/-! ### Two files with messages of one field -/

/-- A file with metadata and an encrypted observation. -/
def intactFlags : Bytes := encodeAll flagProtobuf [.metaData true, .encryptedObservation true]

/-- A file in which the record of the observation is truncated. -/
def truncatedFlags : Bytes := intactFlags.take 8

/-- The name of a file that was finalized at some time. -/
def flagName (now : ℕ) : String := generateFilename now kMinRandomNumber

/-- A directory with a file of each of the two kinds. -/
def flagFiles (intact truncated : ℕ) : Store Bool Bool Bool where
  disk := AList.insert (flagName truncated) truncatedFlags
    (AList.insert (flagName intact) intactFlags ∅)

theorem fileFormat_flags {bytes : Bytes} (h : bytes = intactFlags ∨ bytes = truncatedFlags) :
    FileFormat flagProtobuf bytes := by
  have hintact : ∀ l : List (Contents Bool Bool Bool),
      l = [.metaData true, .encryptedObservation true] ∨ l = [.metaData true] →
      Intact flagProtobuf l := by
    rintro _ (rfl | rfl)
    · exact ⟨by simp [MergeSafe], by simp [StartsWithMetadata]⟩
    · exact ⟨by simp [MergeSafe], by simp [StartsWithMetadata]⟩
  rcases h with rfl | rfl
  · exact ⟨hintact _ (Or.inl rfl), fun hne => absurd rfl hne⟩
  · exact ⟨hintact _ (Or.inr rfl), fun hne => absurd rfl hne⟩

theorem filesFormat_flagFiles (intact truncated : ℕ) (names : List String) :
    FilesFormat flagProtobuf (flagFiles intact truncated).disk names := by
  intro name _ bytes hlookup
  rw [flagFiles, ProtoMap.lookup_insert_eq_ite, ProtoMap.lookup_insert_eq_ite] at hlookup
  split_ifs at hlookup
  · exact fileFormat_flags (Or.inr (Option.some.inj hlookup).symm)
  · exact fileFormat_flags (Or.inl (Option.some.inj hlookup).symm)
  · exact absurd hlookup (by simp)

/-- An intact file, one that does not exist, and a truncated one: the envelope contains the
observation of the intact file. -/
theorem containsIntact_of_truncated_last :
    FilesFormat flagProtobuf (flagFiles 1 3).disk [flagName 1, flagName 2, flagName 3] ∧
    ContainsIntact flagProtobuf some (flagFiles 1 3) [flagName 1, flagName 2, flagName 3] := by
  have hformat := filesFormat_flagFiles 1 3 [flagName 1, flagName 2, flagName 3]
  refine ⟨hformat, (containsIntact_iff flagProtobuf_lawful some _ _ hformat).mpr ⟨?_, ?_⟩⟩
  · rintro ⟨m, o⟩ _
    cases o <;> simp [CanEncrypt]
  · intro before name after heq hbefore hcorrupt
    have hfirst : isCorruptFile flagProtobuf (flagFiles 1 3).disk (flagName 1) = false := by
      decide +kernel
    have hsecond : isCorruptFile flagProtobuf (flagFiles 1 3).disk (flagName 2) = false := by
      decide +kernel
    rcases before with _ | ⟨x, _ | ⟨y, _ | ⟨z, before⟩⟩⟩
    · obtain ⟨rfl, _⟩ := List.cons.inj heq
      exact absurd hcorrupt (by rw [hfirst]; simp)
    · obtain ⟨_, htail⟩ := List.cons.inj heq
      obtain ⟨rfl, _⟩ := List.cons.inj htail
      exact absurd hcorrupt (by rw [hsecond]; simp)
    · obtain ⟨_, _, _, rfl⟩ : flagName 1 = x ∧ flagName 2 = y ∧ flagName 3 = name ∧ after = [] := by
        simpa using heq
      exact List.nil_subperm
    · have hlength := congrArg List.length heq
      simp at hlength

/-- Observations are left out. The truncated file comes first, and the intact one is not
read. -/
theorem not_containsIntact_of_truncated_first :
    ¬ ContainsIntact flagProtobuf some (flagFiles 2 1) [flagName 1, flagName 2] := by
  rintro ⟨-, entries, hcarries, hsub⟩
  have hone : (intactObservations flagProtobuf (flagFiles 2 1).disk
      [flagName 1, flagName 2]).length = 1 := by decide +kernel
  have hnone : (listed ((flagFiles 2 1).envelopeOf flagProtobuf some
      { fileNames := [flagName 1, flagName 2] })).length = 0 := by decide +kernel
  have hlength := hcarries.length_eq
  have hle := hsub.length_le
  omega

end Cobalt.ObservationStore
