import Cobalt.Lib.Directory
import Cobalt.Lib.MachineInt
import Cobalt.Lib.Separated
import Cobalt.Util.ConsistentProtoStore

/-!
# The storage of the local aggregates

Version 1.1 of the local aggregation keeps one aggregate for each metric, in a file of its own that
is written through a `ConsistentProtoStore`. A new storage finds the files by walking over the
directories: the names of the customer, the project and the metric have to be numbers.

A `ConsistentProtoStore` can hold its message in an override file alone. The walk does not find such
a message, because the name of the override file is no number.

## Main definitions

* `initializePersistentStore`, `loadData`, `construct`: how a new storage is made.
* `saveMetricAggregate`: writing the aggregate of one metric.
* `Step`: what happens to a storage between crashes.

## Main results

* `lookup_construct`: what a new storage holds for a metric.
* `loads_before_or_after`: what is loaded after a call that is cut short.
* `loads_neither`: a crash after which the aggregate of a metric is gone.
-/

namespace Cobalt.LocalAggregation11

open Util

/-! ### The storage -/

/-- A metric of the registry: the ids of the customer, of the project and of the metric itself. -/
abbrev MetricKey : Type := ℕ × ℕ × ℕ

/-- The projects of the registry, with the metrics of each. -/
structure ProjectContextFactory where
  listProjects : List (ℕ × ℕ)
  listMetrics : ℕ → ℕ → List ℕ
  listProjects_lt : ∀ project ∈ listProjects, project.1 < U32.size ∧ project.2 < U32.size
  listMetrics_lt : ∀ customerId projectId, ∀ metricId ∈ listMetrics customerId projectId,
    metricId < U32.size

/-- All metrics of the registry. -/
def ProjectContextFactory.metrics (factory : ProjectContextFactory) : List MetricKey :=
  factory.listProjects.flatMap fun (customerId, projectId) =>
    (factory.listMetrics customerId projectId).map fun metricId => (customerId, projectId, metricId)

/-- What is relied on of `absl::SimpleAtoi` for the type `uint32_t`: it reads back decimal numbers,
its results are in range, and it rejects what has other characters than digits, signs and space. -/
structure AtoiLaws (simpleAtoi : String → Option ℕ) : Prop where
  decimal : ∀ n < U32.size, simpleAtoi (toString n) = some n
  lt : ∀ name n, simpleAtoi name = some n → n < U32.size
  chars : ∀ name n, simpleAtoi name = some n → '/' ∉ name.toList ∧ '.' ∉ name.toList

/-- The file of a metric. -/
def filename (baseDirectory : String) : MetricKey → String
  | (customerId, projectId, metricId) => baseDirectory ++ "/" ++ toString customerId ++ "/" ++
      toString projectId ++ "/" ++ toString metricId

/-- The serialization of aggregates, and what is left in a message when it cannot be parsed. -/
structure AggregateCodec (M : Type) extends Codec M where
  /-- The message that `ParseFromZeroCopyStream` leaves when it fails. -/
  parsedBeforeError : Bytes → M

section Storage

variable {M : Type} [Inhabited M] (simpleAtoi : String → Option ℕ)
  (contents : Option Bytes → Bytes → Bytes) (codec : AggregateCodec M) (factory : ProjectContextFactory)
  (baseDirectory : String)

/-- The files that are read by `LoadData`, in this order, with the metrics they are read for. -/
def filesToLoad (disk : Disk) : List (MetricKey × String) :=
  (disk.listFiles baseDirectory).flatMap fun customerFolder =>
    let customerDir := baseDirectory ++ "/" ++ customerFolder
    match simpleAtoi customerFolder with
    | none => []
    | some customerId =>
      (disk.listFiles customerDir).flatMap fun projectFolder =>
        let projectDir := customerDir ++ "/" ++ projectFolder
        match simpleAtoi projectFolder with
        | none => []
        | some projectId =>
          if (customerId, projectId) ∈ factory.listProjects then
            (disk.listFiles projectDir).filterMap fun metricFile =>
              (simpleAtoi metricFile).map fun metricId =>
                ((customerId, projectId, metricId), projectDir ++ "/" ++ metricFile)
          else []

/-- `ConsistentProtoStore::Read` into an aggregate. A message that is parsed is cleared first, so a
file that cannot be parsed leaves what was parsed before the error. The aggregate stays as it is if
there is no file. -/
def readInto (path : String) (disk : Disk) (aggregate : M) : M :=
  match read codec.toCodec path disk with
  | .ok m => m
  | .error _ =>
    match disk.lookup path, disk.lookup (path ++ kOverrideSuffix) with
    | some bytes, _ | none, some bytes => codec.parsedBeforeError bytes
    | none, none => aggregate

/-- One file is read into the aggregate of its metric. -/
def loadFile (disk : Disk) (aggregates : ProtoMap MetricKey M) (file : MetricKey × String) :
    ProtoMap MetricKey M :=
  aggregates.update file.1 default (readInto codec file.2 disk)

/-- `LoadData`. -/
def loadData (disk : Disk) (aggregates : ProtoMap MetricKey M) : ProtoMap MetricKey M :=
  (filesToLoad simpleAtoi factory baseDirectory disk).foldl (loadFile codec disk) aggregates

/-- `InitializePersistentStore`: every metric of the registry has an aggregate, which is empty. The
directories that are made here have no files. -/
def initializePersistentStore (aggregates : ProtoMap MetricKey M) : ProtoMap MetricKey M :=
  factory.metrics.foldl (fun aggregates key =>
    if (aggregates.lookup key).isNone then aggregates.insert key default else aggregates) aggregates

/-- The aggregates of a newly constructed storage. -/
def construct (disk : Disk) : ProtoMap MetricKey M :=
  loadData simpleAtoi codec factory baseDirectory disk (initializePersistentStore factory ∅)

/-- A storage, and the disk it is on. -/
structure Storage (M : Type) where
  aggregates : ProtoMap MetricKey M
  disk : Disk

/-- `SaveMetricAggregate`. -/
def saveMetricAggregate (storage : Storage M) (key : MetricKey) (script : Script) :
    Result × Storage M :=
  match storage.aggregates.lookup key with
  | some aggregate =>
    let r := write contents codec.toCodec script (filename baseDirectory key) aggregate
      { disk := storage.disk }
    (r.1, { storage with disk := r.2.disk })
  | none => (.error ⟨.NOT_FOUND, "No matching metric aggregate found"⟩, storage)

/-- What happens to a storage before the crash: an aggregate is modified through the pointer that
`GetMetricAggregate` returns, one is saved, or the process ends and a new storage is constructed. -/
inductive Step : Storage M → Storage M → Prop
  | modify {storage : Storage M} {key : MetricKey} (h : (storage.aggregates.lookup key).isSome)
      (aggregate : M) :
      Step storage { storage with aggregates := storage.aggregates.insert key aggregate }
  | save {storage storage' : Storage M} {key : MetricKey} {script : Script}
      (h : saveMetricAggregate contents codec baseDirectory storage key script = (.ok, storage')) :
      Step storage storage'
  | restart (storage : Storage M) :
      Step storage
        { storage with aggregates := construct simpleAtoi codec factory baseDirectory storage.disk }

end Storage

/-! ### The names of the files -/

/-- What follows the name of the file of a metric in the names of the files of its store. -/
def storeSuffixes : List String := ["", kTmpSuffix, kOverrideSuffix]

section Names

variable {simpleAtoi : String → Option ℕ} (hatoi : AtoiLaws simpleAtoi)
  {factory : ProjectContextFactory} {baseDirectory : String}

theorem toList_filename (key : MetricKey) :
    (filename baseDirectory key).toList = baseDirectory.toList ++ '/' ::
      ((toString key.1).toList ++ '/' :: ((toString key.2.1).toList ++ '/' ::
        (toString key.2.2).toList)) := by
  obtain ⟨customerId, projectId, metricId⟩ := key
  simp [filename]

/-- The ids of a metric of the registry are of type `uint32_t`, and its project is registered. -/
theorem lt_of_mem_metrics {key : MetricKey} (h : key ∈ factory.metrics) :
    key.1 < U32.size ∧ key.2.1 < U32.size ∧ key.2.2 < U32.size ∧
      (key.1, key.2.1) ∈ factory.listProjects := by
  obtain ⟨⟨customerId, projectId⟩, hproject, hmem⟩ := List.mem_flatMap.mp h
  obtain ⟨metricId, hmetric, rfl⟩ := List.mem_map.mp hmem
  exact ⟨(factory.listProjects_lt _ hproject).1, (factory.listProjects_lt _ hproject).2,
    factory.listMetrics_lt _ _ _ hmetric, hproject⟩

include hatoi

theorem AtoiLaws.toString_chars {n : ℕ} (hn : n < U32.size) :
    '/' ∉ (toString n).toList ∧ '.' ∉ (toString n).toList :=
  hatoi.chars _ n (hatoi.decimal n hn)

theorem AtoiLaws.toString_inj {n n' : ℕ} (hn : n < U32.size) (hn' : n' < U32.size)
    (h : (toString n).toList = (toString n').toList) : n = n' := by
  have hread := hatoi.decimal n hn
  rw [String.toList_inj.mp h, hatoi.decimal n' hn'] at hread
  exact (Option.some.inj hread).symm

/-- A path below the directory of a project that is the file of a metric, with some suffix,
names the customer and the project of the metric. -/
theorem parts_of_filename {key : MetricKey} (hkey : key ∈ factory.metrics) {suffix : String}
    {customerFolder projectFolder : String} {rest : List Char}
    (hcustomer : '/' ∉ customerFolder.toList) (hproject : '/' ∉ projectFolder.toList)
    (h : baseDirectory ++ "/" ++ customerFolder ++ "/" ++ projectFolder ++ "/" ++
      String.ofList rest = filename baseDirectory key ++ suffix) :
    customerFolder = toString key.1 ∧ projectFolder = toString key.2.1 ∧
      rest = (toString key.2.2).toList ++ suffix.toList := by
  obtain ⟨hlt₁, hlt₂, _⟩ := lt_of_mem_metrics hkey
  have hlist := congrArg String.toList h
  simp only [String.toList_append, toList_filename, String.toList_ofList, List.append_assoc,
    List.cons_append] at hlist
  have hbase := List.append_cancel_left hlist
  obtain ⟨hfirst, hbase⟩ := Separated.append_inj_of_first hcustomer (hatoi.toString_chars hlt₁).1
    (List.cons.inj hbase).2
  obtain ⟨hsecond, hrest⟩ := Separated.append_inj_of_first hproject
    (hatoi.toString_chars hlt₂).1 hbase
  exact ⟨String.toList_inj.mp hfirst, String.toList_inj.mp hsecond, hrest⟩

omit hatoi in
theorem takeWhile_suffix {suffix : String} (hsuffix : suffix ∈ storeSuffixes) {digits : List Char}
    (hdigits : '.' ∉ digits) :
    (digits ++ suffix.toList).takeWhile (· ≠ '.') = digits := by
  have hnil : suffix.toList.takeWhile (· ≠ '.') = [] := by
    simp only [storeSuffixes, List.mem_cons, List.not_mem_nil, or_false] at hsuffix
    rcases hsuffix with rfl | rfl | rfl <;> rfl
  rw [List.takeWhile_append_of_pos, hnil, List.append_nil]
  intro c hc
  exact decide_eq_true fun heq => hdigits (heq ▸ hc)

omit hatoi in
theorem takeWhile_slash {suffix : String} (hsuffix : suffix ∈ storeSuffixes) {digits : List Char}
    (hdigits : '/' ∉ digits) :
    (digits ++ suffix.toList).takeWhile (· ≠ '/') = digits ++ suffix.toList := by
  refine List.takeWhile_eq_self_iff.mpr fun c hc => decide_eq_true ?_
  rintro rfl
  rcases List.mem_append.mp hc with hc | hc
  · exact hdigits hc
  · simp only [storeSuffixes, List.mem_cons, List.not_mem_nil, or_false] at hsuffix
    rcases hsuffix with rfl | rfl | rfl <;> exact absurd hc (by decide)

omit hatoi in
theorem takeWhile_slash_cons {digits rest : List Char} (hdigits : '/' ∉ digits) :
    (digits ++ '/' :: rest).takeWhile (· ≠ '/') = digits := by
  rw [List.takeWhile_append_of_pos]
  · simp
  · intro c hc
    exact decide_eq_true fun heq => hdigits (heq ▸ hc)

/-- The files of two stores are different. -/
theorem filename_append_inj {key key' : MetricKey} (hkey : key ∈ factory.metrics)
    (hkey' : key' ∈ factory.metrics) {suffix suffix' : String} (hsuffix : suffix ∈ storeSuffixes)
    (hsuffix' : suffix' ∈ storeSuffixes)
    (h : filename baseDirectory key ++ suffix = filename baseDirectory key' ++ suffix') :
    key = key' := by
  obtain ⟨hlt₁, hlt₂, hlt₃, _⟩ := lt_of_mem_metrics hkey
  obtain ⟨hlt₁', hlt₂', hlt₃', _⟩ := lt_of_mem_metrics hkey'
  have hpath : baseDirectory ++ "/" ++ toString key.1 ++ "/" ++ toString key.2.1 ++ "/" ++
      String.ofList ((toString key.2.2).toList ++ suffix.toList) =
        filename baseDirectory key' ++ suffix' := by
    rw [← h, ← String.toList_inj]
    simp [filename]
  obtain ⟨hfirst, hsecond, hrest⟩ := parts_of_filename hatoi hkey'
    (hatoi.toString_chars hlt₁).1 (hatoi.toString_chars hlt₂).1 hpath
  have hthird := congrArg (List.takeWhile (· ≠ '.')) hrest
  rw [takeWhile_suffix hsuffix (hatoi.toString_chars hlt₃).2,
    takeWhile_suffix hsuffix' (hatoi.toString_chars hlt₃').2] at hthird
  exact Prod.ext (hatoi.toString_inj hlt₁ hlt₁' (congrArg _ hfirst))
    (Prod.ext (hatoi.toString_inj hlt₂ hlt₂' (congrArg _ hsecond))
      (hatoi.toString_inj hlt₃ hlt₃' hthird))

end Names

/-! ### What a new storage loads -/

section Load

variable {M : Type} [Inhabited M] {simpleAtoi : String → Option ℕ} (hatoi : AtoiLaws simpleAtoi)
  {codec : AggregateCodec M} {factory : ProjectContextFactory} {baseDirectory : String} {disk : Disk}

/-- All files below the directory belong to the store of some metric. -/
def OnlyStores (factory : ProjectContextFactory) (baseDirectory : String) (disk : Disk) : Prop :=
  ∀ name, (disk.lookup name).isSome → ∃ key ∈ factory.metrics, ∃ suffix ∈ storeSuffixes,
    name = filename baseDirectory key ++ suffix

include hatoi in
/-- A name of a file with a suffix is not read as a metric id. -/
theorem suffix_eq_empty {suffix : String} (hsuffix : suffix ∈ storeSuffixes) {l : List Char}
    {metricId : ℕ} (h : simpleAtoi (String.ofList (l ++ suffix.toList)) = some metricId) :
    suffix = "" := by
  have hchars := (hatoi.chars _ _ h).2
  simp only [storeSuffixes, List.mem_cons, List.not_mem_nil, or_false] at hsuffix
  rcases hsuffix with rfl | rfl | rfl
  · rfl
  · exact absurd hchars (by simp [kTmpSuffix])
  · exact absurd hchars (by simp [kOverrideSuffix])

include hatoi in
/-- A file that the walk over the directories finds is the primary file of a metric. -/
theorem of_mem_filesToLoad (hdisk : OnlyStores factory baseDirectory disk) {key : MetricKey}
    {path : String} (h : (key, path) ∈ filesToLoad simpleAtoi factory baseDirectory disk) :
    key ∈ factory.metrics ∧ path = filename baseDirectory key ∧ (disk.lookup path).isSome := by
  obtain ⟨customerFolder, _, h⟩ := List.mem_flatMap.mp h
  dsimp only at h
  split at h
  · exact absurd h List.not_mem_nil
  rename_i customerId hcustomerId
  obtain ⟨projectFolder, _, h⟩ := List.mem_flatMap.mp h
  split at h
  · exact absurd h List.not_mem_nil
  rename_i projectId hprojectId
  split_ifs at h with hproject
  · obtain ⟨metricFile, hmetricFile, hmetric⟩ := List.mem_filterMap.mp h
    obtain ⟨metricId, hmetricId, heq⟩ := Option.map_eq_some_iff.mp hmetric
    obtain ⟨rfl, rfl⟩ := Prod.mk.inj heq
    obtain ⟨rest, hsome, rfl⟩ := Disk.mem_listFiles.mp hmetricFile
    obtain ⟨key, hkey, suffix, hsuffix, hname⟩ := hdisk _ hsome
    obtain ⟨rfl, rfl, rfl⟩ := parts_of_filename hatoi hkey (hatoi.chars _ _ hcustomerId).1
      (hatoi.chars _ _ hprojectId).1 hname
    obtain ⟨hlt₁, hlt₂, hlt₃, _⟩ := lt_of_mem_metrics hkey
    have hslash := takeWhile_slash hsuffix (hatoi.toString_chars hlt₃).1
    rw [hslash] at hmetricId ⊢
    obtain rfl := suffix_eq_empty hatoi hsuffix hmetricId
    have hdigits : String.ofList ((toString key.2.2).toList ++ "".toList) = toString key.2.2 := by
      rw [String.toList_empty, List.append_nil, String.ofList_toList]
    rw [hdigits] at hmetricId ⊢
    -- the ids that are read are those of the metric
    rw [hatoi.decimal _ hlt₁] at hcustomerId
    rw [hatoi.decimal _ hlt₂] at hprojectId
    rw [hatoi.decimal _ hlt₃] at hmetricId
    obtain rfl := Option.some.inj hcustomerId
    obtain rfl := Option.some.inj hprojectId
    obtain rfl := Option.some.inj hmetricId
    rw [hdigits] at hsome
    exact ⟨hkey, rfl, hsome⟩
  · exact absurd h List.not_mem_nil

include hatoi in
/-- The walk over the directories finds the primary file of a metric. -/
theorem mem_filesToLoad_of_isSome {key : MetricKey} (hkey : key ∈ factory.metrics)
    (hsome : (disk.lookup (filename baseDirectory key)).isSome) :
    (key, filename baseDirectory key) ∈ filesToLoad simpleAtoi factory baseDirectory disk := by
  obtain ⟨hlt₁, hlt₂, hlt₃, hproject⟩ := lt_of_mem_metrics hkey
  obtain ⟨customerId, projectId, metricId⟩ := key
  refine List.mem_flatMap.mpr ⟨toString customerId, Disk.mem_listFiles.mpr
    ⟨(toString customerId).toList ++ '/' :: ((toString projectId).toList ++ '/' ::
      (toString metricId).toList), ?_, ?_⟩, ?_⟩
  · convert hsome using 3
    rw [← String.toList_inj]
    simp [filename]
  · rw [takeWhile_slash_cons (hatoi.toString_chars hlt₁).1, String.ofList_toList]
  rw [hatoi.decimal _ hlt₁]
  refine List.mem_flatMap.mpr ⟨toString projectId, Disk.mem_listFiles.mpr
    ⟨(toString projectId).toList ++ '/' :: (toString metricId).toList, ?_, ?_⟩, ?_⟩
  · convert hsome using 3
    rw [← String.toList_inj]
    simp [filename]
  · rw [takeWhile_slash_cons (hatoi.toString_chars hlt₂).1, String.ofList_toList]
  rw [hatoi.decimal _ hlt₂]
  dsimp only
  rw [if_pos hproject]
  refine List.mem_filterMap.mpr ⟨toString metricId, Disk.mem_listFiles.mpr
    ⟨(toString metricId).toList, ?_, ?_⟩, ?_⟩
  · convert hsome using 3
    rw [String.ofList_toList]
    rfl
  · rw [List.takeWhile_eq_self_iff.mpr, String.ofList_toList]
    exact fun c hc => decide_eq_true fun heq => (hatoi.toString_chars hlt₃).1 (heq ▸ hc)
  · rw [hatoi.decimal _ hlt₃]
    rfl

include hatoi in
/-- The walk over the directories finds the primary files. -/
theorem mem_filesToLoad (hdisk : OnlyStores factory baseDirectory disk) {key : MetricKey}
    {path : String} : (key, path) ∈ filesToLoad simpleAtoi factory baseDirectory disk ↔
      key ∈ factory.metrics ∧ path = filename baseDirectory key ∧ (disk.lookup path).isSome := by
  constructor
  · exact of_mem_filesToLoad hatoi hdisk
  · rintro ⟨hkey, rfl, hsome⟩
    exact mem_filesToLoad_of_isSome hatoi hkey hsome

omit [Inhabited M] in
theorem readInto_readInto (path : String) (aggregate : M) :
    readInto codec path disk (readInto codec path disk aggregate) =
      readInto codec path disk aggregate := by
  unfold readInto
  cases read codec.toCodec path disk with
  | ok m => rfl
  | error e =>
    cases disk.lookup path with
    | some bytes => rfl
    | none => cases disk.lookup (path ++ kOverrideSuffix) <;> rfl

omit [Inhabited M] in
theorem readInto_of_holds (hcodec : codec.Lawful) {path : String} {aggregate : M}
    (h : Holds codec.toCodec path disk (some aggregate)) (old : M) :
    readInto codec path disk old = aggregate := by
  rw [readInto, h.read_eq hcodec]
  rfl

/-- Reading the files. If the files for a metric are all the same, reading it once is enough. -/
theorem lookup_foldl_loadFile {key : MetricKey} {path : String} (files : List (MetricKey × String))
    (hfiles : ∀ file ∈ files, file.1 = key → file.2 = path) (aggregates : ProtoMap MetricKey M) :
    (files.foldl (loadFile codec disk) aggregates).lookup key =
      if (key, path) ∈ files then
        some (readInto codec path disk ((aggregates.lookup key).getD default))
      else aggregates.lookup key := by
  induction files generalizing aggregates with
  | nil => simp
  | cons file files ih =>
    rw [List.foldl_cons, ih (fun file h => hfiles file (List.mem_cons_of_mem _ h)), loadFile,
      ProtoMap.lookup_update]
    by_cases hkey : key = file.1
    · have hpath := hfiles file List.mem_cons_self hkey.symm
      obtain rfl : file = (key, path) := Prod.ext hkey.symm hpath
      simp [readInto_readInto]
    · have hne : (key, path) ≠ file := fun heq => hkey (congrArg Prod.fst heq)
      simp [hkey, hne]

theorem lookup_initializePersistentStore (key : MetricKey) :
    (initializePersistentStore factory (∅ : ProtoMap MetricKey M)).lookup key =
      if key ∈ factory.metrics then some default else none := by
  have hfold (keys : List MetricKey) (aggregates : ProtoMap MetricKey M) :
      (keys.foldl (fun aggregates key => if (aggregates.lookup key).isNone then
        aggregates.insert key default else aggregates) aggregates).lookup key =
      (aggregates.lookup key).or (if key ∈ keys then some default else none) := by
    induction keys generalizing aggregates with
    | nil => simp
    | cons key' keys ih =>
      rw [List.foldl_cons, ih]
      by_cases hkey : key = key'
      · subst hkey
        cases hlookup : aggregates.lookup key with
        | none => simp
        | some aggregate => simp [hlookup]
      · split_ifs with hnone <;> simp_all
  rw [initializePersistentStore, hfold]
  simp

include hatoi in
/-- What a new storage holds. The aggregate of a metric is what is read, if there is a primary
file, and else it is empty. -/
theorem lookup_construct (hdisk : OnlyStores factory baseDirectory disk) (key : MetricKey) :
    (construct simpleAtoi codec factory baseDirectory disk).lookup key =
      if key ∈ factory.metrics then
        some (if (disk.lookup (filename baseDirectory key)).isSome then
          readInto codec (filename baseDirectory key) disk default else default)
      else none := by
  have hfiles : ∀ file ∈ filesToLoad simpleAtoi factory baseDirectory disk, file.1 = key →
      file.2 = filename baseDirectory key := by
    rintro ⟨key', path⟩ hfile rfl
    exact ((mem_filesToLoad hatoi hdisk).mp hfile).2.1
  rw [construct, loadData, lookup_foldl_loadFile _ hfiles, lookup_initializePersistentStore]
  simp only [mem_filesToLoad hatoi hdisk]
  by_cases hkey : key ∈ factory.metrics
  · by_cases hsome : (disk.lookup (filename baseDirectory key)).isSome <;> simp [hkey, hsome]
  · simp [hkey]

include hatoi in
theorem mem_metrics_of_construct (hdisk : OnlyStores factory baseDirectory disk) {key : MetricKey}
    (h : ((construct simpleAtoi codec factory baseDirectory disk).lookup key).isSome) :
    key ∈ factory.metrics := by
  rw [lookup_construct hatoi hdisk] at h
  by_contra hkey
  rw [if_neg hkey] at h
  exact absurd h (by simp)

end Load

/-! ### Calls that are not cut short -/

section Runs

variable {M : Type} [Inhabited M] {simpleAtoi : String → Option ℕ} (hatoi : AtoiLaws simpleAtoi)
  {contents : Option Bytes → Bytes → Bytes} {codec : AggregateCodec M} {factory : ProjectContextFactory}
  {baseDirectory : String}

/-- A storage between two calls: it has the metrics of the registry, and all files are primary files
with an aggregate. -/
structure Settled (codec : AggregateCodec M) (factory : ProjectContextFactory) (baseDirectory : String)
    (storage : Storage M) : Prop where
  metrics : ∀ key, (storage.aggregates.lookup key).isSome → key ∈ factory.metrics
  files : ∀ name bytes, storage.disk.lookup name = some bytes → ∃ key ∈ factory.metrics,
    name = filename baseDirectory key ∧ ∃ aggregate, bytes = codec.serialize aggregate

omit [Inhabited M] in
theorem Settled.onlyStores {storage : Storage M} (h : Settled codec factory baseDirectory storage) :
    OnlyStores factory baseDirectory storage.disk := by
  intro name hsome
  obtain ⟨bytes, hbytes⟩ := Option.isSome_iff_exists.mp hsome
  obtain ⟨key, hkey, rfl, _⟩ := h.files name bytes hbytes
  exact ⟨key, hkey, "", List.mem_cons_self, (String.append_empty ..).symm⟩

omit [Inhabited M] in
/-- A store has no other files than the primary file. -/
theorem Settled.lookup_suffix (hatoi : AtoiLaws simpleAtoi) {storage : Storage M}
    (h : Settled codec factory baseDirectory storage) {key : MetricKey} (hkey : key ∈ factory.metrics)
    {suffix : String} (hsuffix : suffix ∈ storeSuffixes) (hne : suffix ≠ "") :
    storage.disk.lookup (filename baseDirectory key ++ suffix) = none := by
  by_contra hsome
  obtain ⟨bytes, hbytes⟩ := Option.ne_none_iff_exists'.mp hsome
  obtain ⟨key', hkey', hname, _⟩ := h.files _ bytes hbytes
  have hname' : filename baseDirectory key ++ suffix = filename baseDirectory key' ++ "" := by
    rw [hname, String.append_empty]
  obtain rfl := filename_append_inj hatoi hkey hkey' hsuffix List.mem_cons_self hname'
  have hlist := congrArg String.toList hname'
  rw [String.toList_append, String.toList_append] at hlist
  exact hne (String.toList_inj.mp (List.append_cancel_left hlist))

include hatoi in
/-- Calls that are not cut short leave the storage settled. -/
theorem Step.settled (hcontents : ∀ bytes, contents none bytes = bytes) {storage storage' : Storage M}
    (hstep : Step simpleAtoi contents codec factory baseDirectory storage storage')
    (h : Settled codec factory baseDirectory storage) :
    Settled codec factory baseDirectory storage' := by
  cases hstep with
  | modify hkey aggregate =>
    refine ⟨fun key hsome => ?_, h.files⟩
    dsimp only at hsome
    rw [ProtoMap.lookup_insert_eq_ite] at hsome
    split_ifs at hsome with heq
    · exact heq ▸ h.metrics _ hkey
    · exact h.metrics key hsome
  | restart =>
    exact ⟨fun key hsome => mem_metrics_of_construct hatoi h.onlyStores hsome, h.files⟩
  | @save _ key script hsave =>
    rw [saveMetricAggregate] at hsave
    split at hsave
    · rename_i aggregate hlookup
      have hkey := h.metrics key (by rw [hlookup]; rfl)
      dsimp only at hsave
      obtain ⟨hok, rfl⟩ := Prod.mk.inj hsave
      obtain ⟨hoverride, hprimary, htmp⟩ := write_ok_disk contents codec.toCodec script
        (filename baseDirectory key) aggregate { disk := storage.disk } hok
      refine ⟨h.metrics, fun name bytes hbytes => ?_⟩
      by_cases hname : name = filename baseDirectory key
      · rw [hname, hprimary, h.lookup_suffix hatoi hkey (by decide) (by decide), hcontents] at hbytes
        exact ⟨key, hkey, hname, aggregate, (Option.some.inj hbytes).symm⟩
      · have hne {suffix : String} (hnone : (write contents codec.toCodec script (filename baseDirectory key)
            aggregate { disk := storage.disk }).2.disk.lookup
              (filename baseDirectory key ++ suffix) = none) :
            name ≠ filename baseDirectory key ++ suffix := by
          rintro rfl
          exact absurd (hnone.symm.trans hbytes) (by simp)
        rw [write_lookup_of_ne _ _ _ _ _ _ hname (hne htmp) (hne hoverride)] at hbytes
        exact h.files name bytes hbytes
    · exact absurd (Prod.mk.inj hsave).1 (by simp)

/-! ### The call that is cut short -/

omit [Inhabited M] in
include hatoi in
/-- A call for one metric leaves the files of all others as they are. -/
theorem lookup_write_of_ne {disk : Disk} {key key' : MetricKey} (hkey : key ∈ factory.metrics)
    (hkey' : key' ∈ factory.metrics) (hne : key' ≠ key) {suffix : String}
    (hsuffix : suffix ∈ storeSuffixes) (script : Script) (aggregate : M) :
    (write contents codec.toCodec script (filename baseDirectory key) aggregate
        { disk := disk }).2.disk.lookup (filename baseDirectory key' ++ suffix) =
      disk.lookup (filename baseDirectory key' ++ suffix) := by
  have hfile {suffix' : String} (hsuffix' : suffix' ∈ storeSuffixes) :
      filename baseDirectory key' ++ suffix ≠ filename baseDirectory key ++ suffix' := fun heq =>
    hne (filename_append_inj hatoi hkey' hkey hsuffix hsuffix' heq)
  have hprimary : filename baseDirectory key' ++ suffix ≠ filename baseDirectory key ++ "" :=
    hfile (by decide)
  rw [String.append_empty] at hprimary
  exact write_lookup_of_ne _ _ _ _ _ _ hprimary (hfile (by decide)) (hfile (by decide))

omit [Inhabited M] in
/-- The files after a call, however it ends, belong to stores. -/
theorem OnlyStores.write {disk : Disk} (h : OnlyStores factory baseDirectory disk) {key : MetricKey}
    (hkey : key ∈ factory.metrics) (script : Script) (aggregate : M) :
    OnlyStores factory baseDirectory (write contents codec.toCodec script (filename baseDirectory key)
      aggregate { disk := disk }).2.disk := by
  intro name hsome
  by_cases hprimary : name = filename baseDirectory key
  · exact ⟨key, hkey, "", by decide, by rw [String.append_empty, hprimary]⟩
  by_cases htmp : name = filename baseDirectory key ++ kTmpSuffix
  · exact ⟨key, hkey, _, by decide, htmp⟩
  by_cases hoverride : name = filename baseDirectory key ++ kOverrideSuffix
  · exact ⟨key, hkey, _, by decide, hoverride⟩
  rw [write_lookup_of_ne _ _ _ _ _ _ hprimary htmp hoverride] at hsome
  exact h name hsome

include hatoi in
/-- A call for another metric does not change what is loaded. -/
theorem lookup_construct_write_of_ne {disk : Disk} (h : OnlyStores factory baseDirectory disk)
    {key key' : MetricKey} (hkey : key ∈ factory.metrics) (hne : key' ≠ key) (script : Script)
    (aggregate : M) :
    (construct simpleAtoi codec factory baseDirectory (write contents codec.toCodec script
        (filename baseDirectory key) aggregate { disk := disk }).2.disk).lookup key' =
      (construct simpleAtoi codec factory baseDirectory disk).lookup key' := by
  rw [lookup_construct hatoi (h.write hkey script aggregate), lookup_construct hatoi h]
  by_cases hkey' : key' ∈ factory.metrics
  · have hoverride : (write contents codec.toCodec script (filename baseDirectory key) aggregate
          { disk := disk }).2.disk.lookup (filename baseDirectory key' ++ kOverrideSuffix) =
        disk.lookup (filename baseDirectory key' ++ kOverrideSuffix) :=
      lookup_write_of_ne hatoi hkey hkey' hne (by decide) script aggregate
    have hprimary : (write contents codec.toCodec script (filename baseDirectory key) aggregate
          { disk := disk }).2.disk.lookup (filename baseDirectory key' ++ "") =
        disk.lookup (filename baseDirectory key' ++ "") :=
      lookup_write_of_ne hatoi hkey hkey' hne (by decide) script aggregate
    rw [String.append_empty] at hprimary
    rw [readInto, read_congr codec.toCodec _ hoverride hprimary, hoverride, hprimary, readInto]
  · rw [if_neg hkey', if_neg hkey']

include hatoi in
/-- The metric that is saved. What is loaded for it is the aggregate from before the call or the
new one, unless the call has deleted the primary file and not moved the override file. Then nothing
is loaded. -/
theorem lookup_construct_write (hcodec : codec.Lawful) (hcontents : ∀ bytes, contents none bytes = bytes)
    {storage : Storage M} (h : Settled codec factory baseDirectory storage) {key : MetricKey}
    (hkey : key ∈ factory.metrics) (script : Script) (aggregate : M) :
    let load := fun disk => (construct simpleAtoi codec factory baseDirectory disk).lookup key
    let disk := (write contents codec.toCodec script (filename baseDirectory key) aggregate
      { disk := storage.disk }).2.disk
    if (storage.disk.lookup (filename baseDirectory key)).isSome ∧ script.DropsPrimary then
      load disk = some default
    else load disk = load storage.disk ∨ load disk = some aggregate := by
  have hoverride := h.lookup_suffix hatoi hkey (by decide : kOverrideSuffix ∈ _) (by decide)
  have htmp := h.lookup_suffix hatoi hkey (by decide : kTmpSuffix ∈ _) (by decide)
  have hnone := write_primary_eq_none_iff contents codec.toCodec script (filename baseDirectory key) aggregate
    (s := { disk := storage.disk }) hoverride
  have hfresh : contents (storage.disk.lookup (filename baseDirectory key ++ kTmpSuffix))
      (codec.serialize aggregate) = codec.serialize aggregate := by rw [htmp, hcontents]
  have hwrite {value : Option M}
      (hvalue : Holds codec.toCodec (filename baseDirectory key) storage.disk value) :=
    holds_write_cases hvalue script aggregate hfresh
  dsimp only
  rw [lookup_construct hatoi (h.onlyStores.write hkey script aggregate),
    lookup_construct hatoi h.onlyStores, if_pos hkey, if_pos hkey]
  generalize (write contents codec.toCodec script (filename baseDirectory key) aggregate
    { disk := storage.disk }).2.disk = disk at *
  cases hprimary : storage.disk.lookup (filename baseDirectory key) with
  | none =>
    -- nothing was stored before
    rw [if_neg (by simp)]
    have hempty : Holds codec.toCodec (filename baseDirectory key) storage.disk none := ⟨hoverride, hprimary⟩
    rcases hwrite hempty with hholds | hholds
    · refine Or.inl ?_
      rw [hholds.2]
      rfl
    · by_cases hsome : (disk.lookup (filename baseDirectory key)).isSome
      · rw [if_pos hsome, readInto_of_holds hcodec hholds]
        exact Or.inr rfl
      · rw [if_neg hsome]
        exact Or.inl rfl
  | some bytes =>
    obtain ⟨_, _, _, before, rfl⟩ := h.files _ _ hprimary
    have hbefore : Holds codec.toCodec (filename baseDirectory key) storage.disk (some before) :=
      Or.inr ⟨hoverride, hprimary⟩
    have hnone' := hnone (by rw [hprimary]; rfl)
    simp only [Option.isSome_some, true_and, if_true]
    rw [readInto_of_holds hcodec hbefore]
    by_cases hdrops : script.DropsPrimary
    · rw [if_pos hdrops, hnone'.mpr hdrops]
      rfl
    · rw [if_neg hdrops, if_pos (Option.isSome_iff_ne_none.mpr fun heq => hdrops (hnone'.mp heq))]
      rcases hwrite hbefore with hholds | hholds
      · exact Or.inl (by rw [readInto_of_holds hcodec hholds])
      · exact Or.inr (by rw [readInto_of_holds hcodec hholds])

include hatoi in
theorem settled_of_run (hcontents : ∀ bytes, contents none bytes = bytes) {storage : Storage M}
    (hrun : Relation.ReflTransGen (Step simpleAtoi contents codec factory baseDirectory)
      ⟨construct simpleAtoi codec factory baseDirectory ∅, ∅⟩ storage) :
    Settled codec factory baseDirectory storage := by
  induction hrun with
  | refl =>
    have hempty : OnlyStores factory baseDirectory ∅ := fun name hsome => absurd hsome (by simp)
    refine ⟨fun key hsome => ?_, fun name bytes h => absurd h (by simp)⟩
    dsimp only at hsome
    exact mem_metrics_of_construct hatoi hempty hsome
  | tail _ hstep ih => exact hstep.settled hatoi hcontents ih

/-- **A call that is cut short.** After any calls on an empty directory that have not been cut
short, and one that is, a new storage has for every metric the aggregate from before the last call
or from after it, unless the last call has deleted the primary file and not moved the override file:
then it has the empty aggregate. A later call for another metric does not change this. -/
theorem loads_before_or_after (hatoi : AtoiLaws simpleAtoi) (hcodec : codec.Lawful)
    (hcontents : ∀ bytes, contents none bytes = bytes) {storage : Storage M}
    (hrun : Relation.ReflTransGen (Step simpleAtoi contents codec factory baseDirectory)
      ⟨construct simpleAtoi codec factory baseDirectory ∅, ∅⟩ storage)
    {key : MetricKey} {aggregate : M} (hkey : storage.aggregates.lookup key = some aggregate)
    (script : Script) :
    let load := construct simpleAtoi codec factory baseDirectory
    let disk := (saveMetricAggregate contents codec baseDirectory storage key script).2.disk
    ((∀ key', (load disk).lookup key' = (load storage.disk).lookup key' ∨
        key' = key ∧ (load disk).lookup key' = some aggregate) ↔
      ¬ ((storage.disk.lookup (filename baseDirectory key)).isSome ∧ script.DropsPrimary) ∨
        (load storage.disk).lookup key = some default ∨ aggregate = default) ∧
    ∀ later : Storage M, later.disk = disk →
      (∀ key', (later.aggregates.lookup key').isSome → ((load disk).lookup key').isSome) →
      ∀ key₁ key₂ script', key₁ ≠ key₂ →
        (load (saveMetricAggregate contents codec baseDirectory later key₂ script').2.disk).lookup key₁ =
          (load disk).lookup key₁ := by
  have hsettled := settled_of_run hatoi hcontents hrun
  have hmetric := hsettled.metrics key (by rw [hkey]; rfl)
  have hsave : (saveMetricAggregate contents codec baseDirectory storage key script).2.disk =
      (write contents codec.toCodec script (filename baseDirectory key) aggregate
        { disk := storage.disk }).2.disk := by
    rw [saveMetricAggregate, hkey]
  have hstores : OnlyStores factory baseDirectory (write contents codec.toCodec script
      (filename baseDirectory key) aggregate { disk := storage.disk }).2.disk :=
    hsettled.onlyStores.write hmetric script aggregate
  have hself := lookup_construct_write hatoi hcodec hcontents hsettled hmetric script aggregate
  have hother {key' : MetricKey} (hne : key' ≠ key) :
      (construct simpleAtoi codec factory baseDirectory (write contents codec.toCodec script
        (filename baseDirectory key) aggregate { disk := storage.disk }).2.disk).lookup key' = _ :=
    lookup_construct_write_of_ne hatoi hsettled.onlyStores hmetric hne script aggregate
  dsimp only at hself ⊢
  rw [hsave]
  refine ⟨⟨fun h => ?_, fun h key' => ?_⟩, ?_⟩
  · by_cases hdrops : (storage.disk.lookup (filename baseDirectory key)).isSome ∧
        script.DropsPrimary
    · rw [if_pos hdrops] at hself
      rcases h key with heq | ⟨-, heq⟩
      · exact Or.inr (Or.inl (heq.symm.trans hself))
      · exact Or.inr (Or.inr (Option.some.inj (heq.symm.trans hself)))
    · exact Or.inl hdrops
  · by_cases hne : key' = key
    · subst hne
      by_cases hdrops : (storage.disk.lookup (filename baseDirectory key')).isSome ∧
          script.DropsPrimary
      · rw [if_pos hdrops] at hself
        rcases h with h | heq | rfl
        · exact absurd hdrops h
        · exact Or.inl (hself.trans heq.symm)
        · exact Or.inr ⟨rfl, hself⟩
      · rw [if_neg hdrops] at hself
        exact hself.imp_right fun heq => ⟨rfl, heq⟩
    · exact Or.inl (hother hne)
  · intro later hlater hmetrics key₁ key₂ script' hne
    rw [saveMetricAggregate]
    split
    · rename_i aggregate' haggregate'
      have hmetric₂ := mem_metrics_of_construct hatoi hstores
        (hmetrics key₂ (by rw [haggregate']; rfl))
      rw [hlater]
      exact lookup_construct_write_of_ne hatoi hstores hmetric₂ hne script' aggregate'
    · rw [hlater]

end Runs

/-! ### A storage with two metrics -/

/-- Decimal numbers of type `uint32_t`, without a sign or space around them. -/
def decimalAtoi (name : String) : Option ℕ :=
  if name.toList ≠ [] ∧ name.toList.all Char.isDigit ∧
      Nat.ofDigitChars 10 name.toList 0 < U32.size then
    some (Nat.ofDigitChars 10 name.toList 0)
  else none

theorem decimalAtoi_laws : AtoiLaws decimalAtoi where
  decimal n hn := by
    have hdigits : (toString n).toList = Nat.toDigits 10 n := by simp
    have hall : (Nat.toDigits 10 n).all Char.isDigit := List.all_eq_true.mpr fun c hc =>
      Nat.isDigit_of_mem_toDigits (by decide) (by decide) hc
    rw [decimalAtoi, hdigits, if_pos ⟨by simp, hall, by simpa using hn⟩]
    simp
  lt name n h := by
    rw [decimalAtoi] at h
    split_ifs at h with hdigits
    exact Option.some.inj h ▸ hdigits.2.2
  chars name n h := by
    rw [decimalAtoi] at h
    split_ifs at h with hdigits
    have hall := List.all_eq_true.mp hdigits.2.1
    exact ⟨fun hc => absurd (hall _ hc) (by decide), fun hc => absurd (hall _ hc) (by decide)⟩

/-- The flag that was read before an error. -/
def flagBeforeError : Bool → Bytes → Bool
  | flag, 8 :: value :: bytes => if value < 128 then flagBeforeError (value ≠ 0) bytes else flag
  | flag, _ => flag

@[inherit_doc flagCodec]
def flagAggregateCodec : AggregateCodec Bool :=
  { flagCodec with parsedBeforeError := flagBeforeError false }

/-- A registry with one project that has two metrics. -/
def twoMetrics : ProjectContextFactory where
  listProjects := [(1, 2)]
  listMetrics _ _ := [3, 4]
  listProjects_lt := by decide
  listMetrics_lt _ _ := by decide

/-- The storage after an aggregate was modified. -/
def modifiedStorage : Storage Bool where
  aggregates := (construct decimalAtoi flagAggregateCodec twoMetrics "d" ∅).insert (1, 2, 3) true
  disk := ∅

/-- The storage after it was saved. -/
def savedStorage : Storage Bool :=
  (saveMetricAggregate overlayContents flagAggregateCodec "d" modifiedStorage (1, 2, 3) {}).2

theorem run_savedStorage :
    Relation.ReflTransGen (Step decimalAtoi overlayContents flagAggregateCodec twoMetrics "d")
      ⟨construct decimalAtoi flagAggregateCodec twoMetrics "d" ∅, ∅⟩ savedStorage :=
  (Relation.ReflTransGen.single (.modify (by decide +kernel) true)).tail
    (.save (Prod.ext (by decide +kernel) rfl))

/-- The process dies before the deletion of the primary file. The aggregate is loaded, also after
the other metric is saved. -/
theorem loads_before_or_after_delete :
    let crashed := saveMetricAggregate overlayContents flagAggregateCodec "d" savedStorage (1, 2, 3)
      { deletePrimary := .crashBefore }
    let aggregates := construct decimalAtoi flagAggregateCodec twoMetrics "d" crashed.2.disk
    let later := saveMetricAggregate overlayContents flagAggregateCodec "d"
      ⟨aggregates.insert (1, 2, 4) true, crashed.2.disk⟩ (1, 2, 4) {}
    crashed.1 = .crash ∧ aggregates.lookup (1, 2, 3) = some true ∧ later.1 = .ok ∧
      (construct decimalAtoi flagAggregateCodec twoMetrics "d" later.2.disk).lookup (1, 2, 3) = some true := by
  intro crashed aggregates later
  have hcontents : ∀ bytes, overlayContents none bytes = bytes :=
    fun bytes => overlay_of_length_le (Nat.zero_le _)
  have hkey : savedStorage.aggregates.lookup (1, 2, 3) = some true := by decide +kernel
  have hmetrics (key : MetricKey) (h : ((aggregates.insert (1, 2, 4) true).lookup key).isSome) :
      (aggregates.lookup key).isSome := by
    rw [ProtoMap.lookup_insert_eq_ite] at h
    split_ifs at h with heq
    · rw [heq]
      decide +kernel
    · exact h
  obtain ⟨hload, hlater⟩ := loads_before_or_after decimalAtoi_laws flagCodec_lawful hcontents
    run_savedStorage hkey { deletePrimary := .crashBefore }
  have hloaded : aggregates.lookup (1, 2, 3) = some true := by
    rcases hload.mpr (Or.inl (by decide +kernel)) (1, 2, 3) with heq | ⟨-, heq⟩
    · exact heq.trans (by decide +kernel)
    · exact heq
  refine ⟨by decide +kernel, hloaded, by decide +kernel, ?_⟩
  exact (hlater ⟨aggregates.insert (1, 2, 4) true, crashed.2.disk⟩ rfl hmetrics (1, 2, 3) (1, 2, 4) {}
    (by decide)).trans hloaded

/-- An aggregate that is gone. It was saved before the last call, and the last call saves it
again; the process dies after the deletion of the primary file. What is loaded is neither. -/
theorem loads_neither :
    let load := construct decimalAtoi flagAggregateCodec twoMetrics "d"
    let crashed := saveMetricAggregate overlayContents flagAggregateCodec "d" savedStorage (1, 2, 3)
      { deletePrimary := .crashAfter }
    Relation.ReflTransGen (Step decimalAtoi overlayContents flagAggregateCodec twoMetrics "d")
        ⟨load ∅, ∅⟩ savedStorage ∧
      (load savedStorage.disk).lookup (1, 2, 3) = some true ∧
      savedStorage.aggregates.lookup (1, 2, 3) = some true ∧ crashed.1 = .crash ∧
      (load crashed.2.disk).lookup (1, 2, 3) = some false := by
  refine ⟨run_savedStorage, ?_⟩
  decide +kernel

end Cobalt.LocalAggregation11
