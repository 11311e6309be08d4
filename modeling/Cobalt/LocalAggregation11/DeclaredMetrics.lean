import Cobalt.ConfigParser.DeclaredProjects
import Cobalt.LocalAggregation11.LocalAggregateStorage

/-!
# The aggregates of the declared metrics

A storage of local aggregates lists the projects of the factory that it is given, makes the context
of each, and lists the metrics of the context. A context that is a null pointer would be
dereferenced there. This does not happen for the factory of a registry, whatever the registry has,
and the metrics that get an aggregate are those that the files of the config parser declare.

The files on the disk can be those of a former registry. What they have of a metric that is not
declared any more is loaded as long as its project is declared.

## Main definitions

* `initializeFrom`, `constructFrom`: `InitializePersistentStore` and the constructor, with the
  factory of the client.
* `Backs`: the metrics that a storage knows are those of the factory.
* `DeclaredProject`, `DeclaredMetric`: what the files of a reader declare.

## Main results

* `initializeFrom_known`, `constructFrom_known`: a storage is made as if it knew the metrics.
* `initializeFrom_new`: no null pointer is dereferenced.
* `lookup_construct_update`: what a new storage holds after an update of the registry.
* `lookup_initializeFrom_declared`, `lookup_constructFrom_declared`: the declared metrics have
  aggregates.
-/

namespace Cobalt.LocalAggregation11

open ConfigParser

variable {M : Type} [Inhabited M]

/-! ### The loops -/

/-- The body of the inner loop: a metric without an aggregate gets an empty one. -/
def ensureAggregate (aggregates : ProtoMap MetricKey M) (key : MetricKey) : ProtoMap MetricKey M :=
  if (aggregates.lookup key).isNone then aggregates.insert key default else aggregates

/-- The body of the outer loop; `none` where the null pointer is dereferenced. -/
def ensureProject (factory : Config.ProjectContextFactory) (aggregates : ProtoMap MetricKey M)
    (project : ℕ × ℕ) : Option (ProtoMap MetricKey M) :=
  (factory.newProjectContext project.1 project.2).map fun ctx =>
    ctx.listMetrics.foldl (fun aggregates metricId =>
      ensureAggregate aggregates (project.1, project.2, metricId)) aggregates

/-- `InitializePersistentStore`, with the factory of the client. The directories that are made here
have no files. -/
def initializeFrom (factory : Config.ProjectContextFactory) (aggregates : ProtoMap MetricKey M) :
    Option (ProtoMap MetricKey M) :=
  factory.listProjects.bind fun projects => projects.foldlM (ensureProject factory) aggregates

/-- What a metric has after the loop over the metrics. -/
theorem lookup_foldl_ensureAggregate (keys : List MetricKey) (aggregates : ProtoMap MetricKey M)
    (key : MetricKey) : (keys.foldl ensureAggregate aggregates).lookup key =
      (aggregates.lookup key).or (if key ∈ keys then some default else none) := by
  induction keys generalizing aggregates with
  | nil => simp
  | cons key' keys ih =>
    rw [List.foldl_cons, ih, ensureAggregate]
    by_cases hkey : key = key'
    · subst hkey
      cases hlookup : aggregates.lookup key with
      | none => simp
      | some aggregate => simp [hlookup]
    · have hmem : key ∈ key' :: keys ↔ key ∈ keys := by simp [hkey]
      simp only [hmem]
      split_ifs with hnone <;> simp [AList.lookup_insert_ne hkey]

/-- The loops, where each project has its metrics. -/
theorem foldlM_ensureProject {factory : Config.ProjectContextFactory} {metrics : ℕ → ℕ → List ℕ}
    {projects : List (ℕ × ℕ)} (hmetrics : ∀ project ∈ projects, ∃ context,
      factory.newProjectContext project.1 project.2 = some context ∧
        metrics project.1 project.2 = context.listMetrics) (aggregates : ProtoMap MetricKey M) :
    projects.foldlM (ensureProject factory) aggregates =
      some ((projects.flatMap fun project => (metrics project.1 project.2).map fun metricId =>
        (project.1, project.2, metricId)).foldl ensureAggregate aggregates) := by
  induction projects generalizing aggregates with
  | nil => rfl
  | cons project projects ih =>
    obtain ⟨context, hcontext, hlist⟩ := hmetrics project List.mem_cons_self
    rw [List.foldlM_cons, ensureProject, hcontext, Option.map_some, List.flatMap_cons,
      List.foldl_append, List.foldl_map, hlist]
    exact ih (fun project h => hmetrics project (List.mem_cons_of_mem _ h)) _

/-! ### The factory that a storage knows -/

/-- The projects and metrics that a storage knows are those of the factory. -/
structure Backs (factory : Config.ProjectContextFactory) (known : ProjectContextFactory) :
    Prop where
  listProjects : factory.listProjects = some known.listProjects
  listMetrics : ∀ project ∈ known.listProjects, ∃ context,
    factory.newProjectContext project.1 project.2 = some context ∧
      known.listMetrics project.1 project.2 = context.listMetrics

/-- The two models agree. -/
theorem initializeFrom_of_backs {factory : Config.ProjectContextFactory}
    {known : ProjectContextFactory} (h : Backs factory known)
    (aggregates : ProtoMap MetricKey M) :
    initializeFrom factory aggregates = some (initializePersistentStore known aggregates) := by
  rw [initializeFrom, h.listProjects, Option.bind_some, foldlM_ensureProject h.listMetrics]
  rfl

/-- The metrics of a project that a factory makes a context for. -/
def metricsOf (factory : Config.ProjectContextFactory) (customerId projectId : ℕ) : List ℕ :=
  ((factory.newProjectContext customerId projectId).map fun ctx => ctx.listMetrics).getD []

theorem mem_metricsOf_iff {factory : Config.ProjectContextFactory}
    {customerId projectId metricId : ℕ} : metricId ∈ metricsOf factory customerId projectId ↔
      ∃ context, factory.newProjectContext customerId projectId = some context ∧
        metricId ∈ context.listMetrics := by
  rw [metricsOf]
  cases factory.newProjectContext customerId projectId <;> simp

/-- The ids of a registry are of type `uint32_t`. -/
structure InRange (registry : Config.CobaltRegistry) : Prop where
  project : ∀ e ∈ registry.projects,
    e.1.customerId < U32.size ∧ e.2.projectId < U32.size
  metric : ∀ e ∈ registry.projects, ∀ metric ∈ e.2.metrics, metric.id < U32.size

variable {registry : Config.CobaltRegistry}

theorem InRange.listProjects_lt (h : InRange registry) :
    ∀ project ∈ (Config.ProjectConfigs.new registry).listProjects,
      project.1 < U32.size ∧ project.2 < U32.size := by
  intro project hproject
  obtain ⟨e, he, hcustomer, hproject⟩ := Config.ProjectConfigs.mem_listProjects_new.mp hproject
  rw [← hcustomer, ← hproject]
  exact h.project e he

theorem InRange.metricsOf_lt (h : InRange registry) (customerId projectId : ℕ) :
    ∀ metricId ∈ metricsOf (.new registry) customerId projectId, metricId < U32.size := by
  intro metricId hmetric
  obtain ⟨context, hcontext, hmetric⟩ := mem_metricsOf_iff.mp hmetric
  obtain ⟨e, he, name, -, -, rfl⟩ :=
    Config.ProjectContextFactory.of_newProjectContext hcontext
  obtain ⟨metric, hmem, rfl⟩ := Config.ProjectContext.of_mem_listMetrics_new hmetric
  exact h.metric e he metric hmem

/-- What a storage knows of a registry. -/
def known (h : InRange registry) : ProjectContextFactory where
  listProjects := (Config.ProjectConfigs.new registry).listProjects
  listMetrics := metricsOf (.new registry)
  listProjects_lt := h.listProjects_lt
  listMetrics_lt := h.metricsOf_lt

theorem metricsOf_of_listed {project : ℕ × ℕ}
    (h : project ∈ (Config.ProjectConfigs.new registry).listProjects) : ∃ context,
      (Config.ProjectContextFactory.new registry).newProjectContext project.1 project.2 =
          some context ∧
        metricsOf (.new registry) project.1 project.2 = context.listMetrics := by
  obtain ⟨context, hcontext⟩ := Config.ProjectContextFactory.exists_newProjectContext_iff.mpr h
  refine ⟨context, hcontext, ?_⟩
  rw [metricsOf, hcontext]
  rfl

/-- What is known of a registry is what its factory has. -/
theorem backs_known (h : InRange registry) : Backs (.new registry) (known h) :=
  ⟨rfl, fun _ => metricsOf_of_listed⟩

/-- The aggregates of a new storage are those of the registry. -/
theorem initializeFrom_known (h : InRange registry) (aggregates : ProtoMap MetricKey M) :
    initializeFrom (.new registry) aggregates =
      some (initializePersistentStore (known h) aggregates) :=
  initializeFrom_of_backs (backs_known h) aggregates

/-- The metrics of all projects that are listed. -/
theorem mem_flatMap_metricsOf_iff {customerId projectId metricId : ℕ} :
    (customerId, projectId, metricId) ∈
        (Config.ProjectConfigs.new registry).listProjects.flatMap (fun project =>
          (metricsOf (.new registry) project.1 project.2).map fun metricId =>
            (project.1, project.2, metricId)) ↔
      metricId ∈ metricsOf (.new registry) customerId projectId := by
  simp only [List.mem_flatMap, List.mem_map, Prod.mk.injEq]
  constructor
  · rintro ⟨project, -, metricId, hmetric, rfl, rfl, rfl⟩
    exact hmetric
  · intro hmetric
    obtain ⟨context, hcontext, -⟩ := mem_metricsOf_iff.mp hmetric
    exact ⟨(customerId, projectId),
      Config.ProjectContextFactory.exists_newProjectContext_iff.mp ⟨context, hcontext⟩,
      metricId, hmetric, rfl, rfl, rfl⟩

theorem mem_metrics_known (h : InRange registry) {customerId projectId metricId : ℕ} :
    (customerId, projectId, metricId) ∈ (known h).metrics ↔
      metricId ∈ metricsOf (.new registry) customerId projectId :=
  mem_flatMap_metricsOf_iff

/-- No null pointer is dereferenced for the factory of a registry, and the metrics that its
project contexts list have an aggregate afterwards. -/
theorem initializeFrom_new (aggregates : ProtoMap MetricKey M) :
    ∃ aggregates', initializeFrom (.new registry) aggregates = some aggregates' ∧
      ∀ customerId projectId metricId aggregate,
        aggregates'.lookup (customerId, projectId, metricId) = some aggregate ↔
          aggregates.lookup (customerId, projectId, metricId) = some aggregate ∨
            aggregates.lookup (customerId, projectId, metricId) = none ∧ aggregate = default ∧
              metricId ∈ metricsOf (.new registry) customerId projectId := by
  have hlist : (Config.ProjectContextFactory.new registry).listProjects =
      some (Config.ProjectConfigs.new registry).listProjects := rfl
  refine ⟨_, by rw [initializeFrom, hlist, Option.bind_some,
    foldlM_ensureProject fun _ => metricsOf_of_listed], ?_⟩
  intro customerId projectId metricId aggregate
  rw [lookup_foldl_ensureAggregate]
  simp only [mem_flatMap_metricsOf_iff]
  cases hlookup : aggregates.lookup (customerId, projectId, metricId) with
  | none => by_cases hmetric : metricId ∈ metricsOf (.new registry) customerId projectId <;>
      simp [hmetric, eq_comm]
  | some aggregate' => simp

/-! ### The constructor -/

section Construct

variable (simpleAtoi : String → Option ℕ) (codec : AggregateCodec M)

/-- The files that are read by `LoadData`, with the factory of the client. -/
def filesToLoadFrom (factory : Config.ProjectContextFactory) (baseDirectory : String)
    (disk : Disk) : List (MetricKey × String) :=
  (disk.listFiles baseDirectory).flatMap fun customerFolder =>
    let customerDir := baseDirectory ++ "/" ++ customerFolder
    match simpleAtoi customerFolder with
    | none => []
    | some customerId =>
      (disk.listFiles customerDir).flatMap fun projectFolder =>
        let projectDir := customerDir ++ "/" ++ projectFolder
        match simpleAtoi projectFolder with
        | none => []
        | some projectId =>
          if (factory.newProjectContext customerId projectId).isSome then
            (disk.listFiles projectDir).filterMap fun metricFile =>
              (simpleAtoi metricFile).map fun metricId =>
                ((customerId, projectId, metricId), projectDir ++ "/" ++ metricFile)
          else []

/-- The constructor of `LocalAggregateStorage`, with the factory of the client; `none` where a null
pointer is dereferenced. -/
def constructFrom (factory : Config.ProjectContextFactory) (baseDirectory : String) (disk : Disk) :
    Option (ProtoMap MetricKey M) :=
  (initializeFrom factory ∅).map fun aggregates =>
    (filesToLoadFrom simpleAtoi factory baseDirectory disk).foldl (loadFile codec disk) aggregates

theorem filesToLoadFrom_known (h : InRange registry) (baseDirectory : String) (disk : Disk) :
    filesToLoadFrom simpleAtoi (.new registry) baseDirectory disk =
      filesToLoad simpleAtoi (known h) baseDirectory disk := by
  have hlisted (customerId projectId : ℕ) :
      ((Config.ProjectContextFactory.new registry).newProjectContext customerId
        projectId).isSome ↔ (customerId, projectId) ∈ (known h).listProjects :=
    Option.isSome_iff_exists.trans Config.ProjectContextFactory.exists_newProjectContext_iff
  refine List.flatMap_congr fun customerFolder _ => ?_
  cases simpleAtoi customerFolder with
  | none => rfl
  | some customerId =>
    refine List.flatMap_congr fun projectFolder _ => ?_
    cases simpleAtoi projectFolder with
    | none => rfl
    | some projectId => exact if_congr (hlisted customerId projectId) rfl rfl

/-- The constructor does for a registry what `construct` does for what is known of it. -/
theorem constructFrom_known (h : InRange registry) (baseDirectory : String) (disk : Disk) :
    constructFrom simpleAtoi codec (.new registry) baseDirectory disk =
      some (construct simpleAtoi codec (known h) baseDirectory disk) := by
  rw [constructFrom, initializeFrom_known h, Option.map_some, filesToLoadFrom_known simpleAtoi h]
  rfl

/-! ### Another registry -/

variable {simpleAtoi codec} {baseDirectory : String} {disk : Disk}

/-- With more projects, more files are read. -/
theorem mem_filesToLoad_of_subset {factory factory' : ProjectContextFactory}
    (hsubset : factory.listProjects ⊆ factory'.listProjects) {key : MetricKey} {path : String} :
    (key, path) ∈ filesToLoad simpleAtoi factory baseDirectory disk ↔
      (key, path) ∈ filesToLoad simpleAtoi factory' baseDirectory disk ∧
        (key.1, key.2.1) ∈ factory.listProjects := by
  simp only [filesToLoad, List.mem_flatMap]
  rw [← exists_and_right]
  refine exists_congr fun customerFolder => ?_
  rw [and_assoc]
  refine and_congr_right fun _ => ?_
  cases simpleAtoi customerFolder with
  | none => simp
  | some customerId =>
    rw [List.mem_flatMap, List.mem_flatMap, ← exists_and_right]
    refine exists_congr fun projectFolder => ?_
    rw [and_assoc]
    refine and_congr_right fun _ => ?_
    cases simpleAtoi projectFolder with
    | none => simp
    | some projectId =>
      have hkey {l : List String} {path' : String → String} (h : (key, path) ∈
          l.filterMap fun metricFile => (simpleAtoi metricFile).map fun metricId =>
            ((customerId, projectId, metricId), path' metricFile)) :
          (key.1, key.2.1) = (customerId, projectId) := by
        obtain ⟨metricFile, -, hmetric⟩ := List.mem_filterMap.mp h
        obtain ⟨metricId, -, heq⟩ := Option.map_eq_some_iff.mp hmetric
        rw [← (Prod.mk.inj heq).1]
      dsimp only
      by_cases hlisted : (customerId, projectId) ∈ factory.listProjects
      · rw [if_pos hlisted, if_pos (hsubset hlisted)]
        exact (and_iff_left_of_imp fun h => hkey h ▸ hlisted).symm
      · rw [if_neg hlisted]
        refine iff_of_false List.not_mem_nil ?_
        rintro ⟨h, hproject⟩
        split_ifs at h
        · exact hlisted (hkey h ▸ hproject)
        · cases h

/-- The projects and metrics of two registries. -/
def ProjectContextFactory.union (factory factory' : ProjectContextFactory) :
    ProjectContextFactory where
  listProjects := factory.listProjects ++ factory'.listProjects
  listMetrics customerId projectId :=
    factory.listMetrics customerId projectId ++ factory'.listMetrics customerId projectId
  listProjects_lt project h := (List.mem_append.mp h).elim (factory.listProjects_lt project)
    (factory'.listProjects_lt project)
  listMetrics_lt customerId projectId metricId h := (List.mem_append.mp h).elim
    (factory.listMetrics_lt customerId projectId metricId)
    (factory'.listMetrics_lt customerId projectId metricId)

theorem mem_metrics_iff {factory : ProjectContextFactory} {key : MetricKey} :
    key ∈ factory.metrics ↔ (key.1, key.2.1) ∈ factory.listProjects ∧
      key.2.2 ∈ factory.listMetrics key.1 key.2.1 := by
  rw [ProjectContextFactory.metrics, List.mem_flatMap]
  constructor
  · rintro ⟨⟨customerId, projectId⟩, hproject, hkey⟩
    obtain ⟨metricId, hmetric, rfl⟩ := List.mem_map.mp hkey
    exact ⟨hproject, hmetric⟩
  · rintro ⟨hproject, hmetric⟩
    exact ⟨_, hproject, List.mem_map.mpr ⟨_, hmetric, rfl⟩⟩

theorem mem_metrics_union_left {former factory : ProjectContextFactory} {key : MetricKey}
    (h : key ∈ former.metrics) : key ∈ (former.union factory).metrics :=
  mem_metrics_iff.mpr ((mem_metrics_iff.mp h).imp (List.mem_append_left _) (List.mem_append_left _))

theorem mem_metrics_union_right {former factory : ProjectContextFactory} {key : MetricKey}
    (h : key ∈ factory.metrics) : key ∈ (former.union factory).metrics :=
  mem_metrics_iff.mpr
    ((mem_metrics_iff.mp h).imp (List.mem_append_right _) (List.mem_append_right _))

section Update

variable (hatoi : AtoiLaws simpleAtoi) {former factory : ProjectContextFactory}
  (hdisk : OnlyStores former baseDirectory disk)
include hatoi hdisk

/-- A file of a metric is one of a former metric. -/
theorem mem_former_of_isSome {key : MetricKey} (hkey : key ∈ (former.union factory).metrics)
    (hsome : (disk.lookup (filename baseDirectory key)).isSome) : key ∈ former.metrics := by
  obtain ⟨key', hkey', suffix, hsuffix, hname⟩ := hdisk _ hsome
  have hsame : filename baseDirectory key ++ "" = filename baseDirectory key' ++ suffix := by
    rw [String.append_empty, hname]
  rwa [filename_append_inj hatoi hkey (mem_metrics_union_left hkey') List.mem_cons_self hsuffix
    hsame]

/-- The walk over the directories finds the files of former metrics in the projects that are
registered. -/
theorem mem_filesToLoad_update {key : MetricKey} {path : String} :
    (key, path) ∈ filesToLoad simpleAtoi factory baseDirectory disk ↔
      key ∈ former.metrics ∧ (key.1, key.2.1) ∈ factory.listProjects ∧
        path = filename baseDirectory key ∧ (disk.lookup path).isSome := by
  have hsubset : factory.listProjects ⊆ (former.union factory).listProjects :=
    List.subset_append_right _ _
  have hstores : OnlyStores (former.union factory) baseDirectory disk := by
    intro name hname
    obtain ⟨key, hkey, hsuffix⟩ := hdisk name hname
    exact ⟨key, mem_metrics_union_left hkey, hsuffix⟩
  rw [mem_filesToLoad_of_subset hsubset, mem_filesToLoad hatoi hstores]
  constructor
  · rintro ⟨⟨hkey, rfl, hsome⟩, hproject⟩
    exact ⟨mem_former_of_isSome hatoi hdisk hkey hsome, hproject, rfl, hsome⟩
  · rintro ⟨hkey, hproject, hpath⟩
    exact ⟨⟨mem_metrics_union_left hkey, hpath⟩, hproject⟩

/-- After an update of the registry, a new storage has the aggregates of the registered metrics,
and those of former metrics that have a file, as long as their project is registered. -/
theorem lookup_construct_update (key : MetricKey) :
    (construct simpleAtoi codec factory baseDirectory disk).lookup key =
      if key ∈ factory.metrics ∨ key ∈ former.metrics ∧ (key.1, key.2.1) ∈ factory.listProjects ∧
          (disk.lookup (filename baseDirectory key)).isSome then
        some (if (disk.lookup (filename baseDirectory key)).isSome then
          readInto codec (filename baseDirectory key) disk default else default)
      else none := by
  have hfiles : ∀ file ∈ filesToLoad simpleAtoi factory baseDirectory disk, file.1 = key →
      file.2 = filename baseDirectory key := by
    rintro ⟨key', path⟩ hfile rfl
    exact ((mem_filesToLoad_update hatoi hdisk).mp hfile).2.2.1
  rw [construct, loadData, lookup_foldl_loadFile _ hfiles, lookup_initializePersistentStore]
  simp only [mem_filesToLoad_update hatoi hdisk, true_and]
  by_cases hsome : (disk.lookup (filename baseDirectory key)).isSome
  · have hregistered (hkey : key ∈ factory.metrics) :
        key ∈ former.metrics ∧ (key.1, key.2.1) ∈ factory.listProjects :=
      ⟨mem_former_of_isSome hatoi hdisk (mem_metrics_union_right hkey) hsome,
        (mem_metrics_iff.mp hkey).1⟩
    by_cases hkey : key ∈ factory.metrics
    · simp [hkey, hsome, hregistered hkey]
    · simp [hkey, hsome]
  · simp [hsome]

end Update

end Construct

/-! ### What is declared -/

/-- A metric that the files of a source declare. -/
def DeclaredMetric (tools : Tools) (sources : List (Except Error ConfigReader)) (key : MetricKey) :
    Prop :=
  ∃ r, .ok r ∈ sources ∧ ∃ e p metrics, Declared tools r e p metrics ∧ e.id = key.1 ∧
    p.id = key.2.1 ∧ ∃ m ∈ metrics, m.id = key.2.2

/-- A project that the files of a source declare. -/
def DeclaredProject (tools : Tools) (sources : List (Except Error ConfigReader))
    (project : ℕ × ℕ) : Prop :=
  ∃ r, .ok r ∈ sources ∧ ∃ e p metrics, Declared tools r e p metrics ∧ e.id = project.1 ∧
    p.id = project.2

/-- A client that finds what is declared has a context for the declared projects. -/
theorem exists_newProjectContext_iff_declared {tools : Tools}
    {sources : List (Except Error ConfigReader)} {factory : Config.ProjectContextFactory}
    (h : FindsDeclared tools sources factory) {customerId projectId : ℕ} :
    (∃ context, factory.newProjectContext customerId projectId = some context) ↔
      DeclaredProject tools sources (customerId, projectId) := by
  constructor
  · rintro ⟨context, hcontext⟩
    obtain ⟨r, hr, e, p, metrics, hdeclared, hcustomer, hproject, -⟩ :=
      h.declared customerId projectId context hcontext
    exact ⟨r, hr, e, p, metrics, hdeclared, hcustomer, hproject⟩
  · rintro ⟨r, hr, e, p, metrics, hdeclared, hcustomer, hproject⟩
    obtain ⟨context, hfound, -⟩ := h.found r hr e p metrics hdeclared
    rw [hcustomer, hproject] at hfound
    exact ⟨context, hfound⟩

/-- A client that finds what is declared lists the declared metrics. -/
theorem mem_metricsOf_iff_declared {tools : Tools} {sources : List (Except Error ConfigReader)}
    {factory : Config.ProjectContextFactory} (h : FindsDeclared tools sources factory)
    {customerId projectId metricId : ℕ} : metricId ∈ metricsOf factory customerId projectId ↔
      DeclaredMetric tools sources (customerId, projectId, metricId) := by
  have hserves {context : Config.ProjectContext} {e : CustomerEntry} {p : ProjectEntry}
      {metrics : List ConfigValidator.RegistryMetric} (hserves : Serves context e p metrics) :
      metricId ∈ context.listMetrics ↔ ∃ m ∈ metrics, m.id = metricId := by
    rw [hserves.listMetrics, List.mem_insertionSort, List.mem_map]
  rw [mem_metricsOf_iff]
  constructor
  · rintro ⟨context, hcontext, hmetric⟩
    obtain ⟨r, hr, e, p, metrics, hdeclared, hcustomer, hproject, hcontext⟩ :=
      h.declared customerId projectId context hcontext
    exact ⟨r, hr, e, p, metrics, hdeclared, hcustomer, hproject, (hserves hcontext).mp hmetric⟩
  · rintro ⟨r, hr, e, p, metrics, hdeclared, hcustomer, hproject, hmetric⟩
    obtain ⟨context, hfound, hcontext⟩ := h.found r hr e p metrics hdeclared
    rw [hcustomer, hproject] at hfound
    exact ⟨context, hfound, (hserves hcontext).mpr hmetric⟩

section Declared

variable {tools : Tools} {flags : Flags} {configs : List ConfigParser.ProjectConfig}
  {others : ConfigValidator.OtherValidators}

/-- **From the files to the aggregates.** A run of the config parser succeeds, the registry is
validated, and the ids of the projects fit into 32 bits. Whatever aggregates a storage has,
`InitializePersistentStore` keeps them, and adds empty ones for exactly the metrics that are
declared. -/
theorem lookup_initializeFrom_declared (hwhole : flags.Whole)
    (hparse : parseConfigFromFlags tools flags = .ok configs)
    (hvalid : ConfigValidator.validateProjectConfigs others configs = .ok ())
    (hfits : ∀ r, .ok r ∈ flags.sources tools → IdsFit tools r)
    (aggregates : ProtoMap MetricKey M) :
    ∃ aggregates', initializeFrom (.new (mergeConfigs configs)) aggregates = some aggregates' ∧
      ∀ key aggregate, aggregates'.lookup key = some aggregate ↔
        aggregates.lookup key = some aggregate ∨
          aggregates.lookup key = none ∧ aggregate = default ∧
            DeclaredMetric tools (flags.sources tools) key := by
  have hfinds := findsDeclared_of_idsFit hwhole hparse hvalid hfits
  obtain ⟨aggregates', heq, hlookup⟩ :=
    @initializeFrom_new M _ (mergeConfigs configs) aggregates
  refine ⟨aggregates', heq, fun key aggregate => ?_⟩
  rw [← mem_metricsOf_iff_declared hfinds]
  exact hlookup key.1 key.2.1 key.2.2 aggregate

/-- The aggregates of a directory with one metric. -/
theorem lookup_initializeFrom_declared_ledger :
    ∃ aggregates : ProtoMap MetricKey Bool,
      initializeFrom (.new (mergeConfigs [ledgerConfig])) ∅ = some aggregates ∧
        ∀ key aggregate, aggregates.lookup key = some aggregate ↔
          (∅ : ProtoMap MetricKey Bool).lookup key = some aggregate ∨
            (∅ : ProtoMap MetricKey Bool).lookup key = none ∧ aggregate = default ∧
              DeclaredMetric ledgerTools (ledgerFlags.sources ledgerTools) key :=
  lookup_initializeFrom_declared (.inr ⟨rfl, by decide⟩) rfl validate_ledgerConfig
    (fun r _ => idsFit_ledger r) ∅

/-- **From the files to a new storage.** Under the same conditions, a storage is constructed where
the files are those of a former registry. It has the aggregates of the metrics that are declared,
and those of former metrics that have a file, as long as their project is declared. Each of them is
what is read from the file, if there is one, and else it is empty. -/
theorem lookup_constructFrom_declared (hwhole : flags.Whole)
    (hparse : parseConfigFromFlags tools flags = .ok configs)
    (hvalid : ConfigValidator.validateProjectConfigs others configs = .ok ())
    (hfits : ∀ r, .ok r ∈ flags.sources tools → IdsFit tools r)
    (hrange : InRange (mergeConfigs configs)) {simpleAtoi : String → Option ℕ}
    (hatoi : AtoiLaws simpleAtoi) {codec : AggregateCodec M} {baseDirectory : String} {disk : Disk}
    {former : ProjectContextFactory} (hdisk : OnlyStores former baseDirectory disk) :
    ∃ aggregates, constructFrom simpleAtoi codec (.new (mergeConfigs configs)) baseDirectory disk =
        some aggregates ∧
      ∀ key aggregate, aggregates.lookup key = some aggregate ↔
        (DeclaredMetric tools (flags.sources tools) key ∨
          key ∈ former.metrics ∧ DeclaredProject tools (flags.sources tools) (key.1, key.2.1) ∧
            (disk.lookup (filename baseDirectory key)).isSome) ∧
        aggregate = if (disk.lookup (filename baseDirectory key)).isSome then
          readInto codec (filename baseDirectory key) disk default else default := by
  have hfinds := findsDeclared_of_idsFit hwhole hparse hvalid hfits
  refine ⟨_, constructFrom_known simpleAtoi codec hrange baseDirectory disk,
    fun key aggregate => ?_⟩
  have hmetric : key ∈ (known hrange).metrics ↔ DeclaredMetric tools (flags.sources tools) key :=
    (mem_metrics_known hrange).trans (mem_metricsOf_iff_declared hfinds)
  have hproject : (key.1, key.2.1) ∈ (known hrange).listProjects ↔
      DeclaredProject tools (flags.sources tools) (key.1, key.2.1) :=
    Config.ProjectContextFactory.exists_newProjectContext_iff.symm.trans
      (exists_newProjectContext_iff_declared hfinds)
  rw [lookup_construct_update hatoi hdisk, ← hmetric, ← hproject, Option.ite_none_right_eq_some,
    Option.some_inj, @eq_comm _ _ aggregate]

/-- The ids of the metrics of the directory, before one of them was removed. -/
def formerIds : List ℕ := [5, 6]

theorem formerProject_lt : ∀ project ∈ [(20, 10)], project.1 < U32.size ∧ project.2 < U32.size := by
  decide

theorem formerIds_lt : ∀ metricId ∈ formerIds, metricId < U32.size := by
  decide

/-- The registry before the metric was removed. -/
def formerMetrics : ProjectContextFactory where
  listProjects := [(20, 10)]
  listMetrics _ _ := formerIds
  listProjects_lt := formerProject_lt
  listMetrics_lt _ _ := formerIds_lt

/-- A disk with the aggregate of the metric that was removed. -/
def formerDisk : Disk :=
  (∅ : Disk).insert (filename "d" (20, 10, 6)) (flagAggregateCodec.serialize true)

theorem onlyStores_formerDisk : OnlyStores formerMetrics "d" formerDisk := by
  intro name hname
  rw [formerDisk, ProtoMap.lookup_insert_eq_ite] at hname
  split_ifs at hname with heq
  · exact ⟨(20, 10, 6), by decide, "", List.mem_cons_self, by rw [heq, String.append_empty]⟩
  · cases hname

/-- The aggregate is loaded. -/
theorem lookup_constructFrom_declared_former :
    ∃ aggregates, constructFrom decimalAtoi flagAggregateCodec (.new (mergeConfigs [ledgerConfig])) "d"
        formerDisk = some aggregates ∧
      ∀ key aggregate, aggregates.lookup key = some aggregate ↔
        (DeclaredMetric ledgerTools (ledgerFlags.sources ledgerTools) key ∨
          key ∈ formerMetrics.metrics ∧
            DeclaredProject ledgerTools (ledgerFlags.sources ledgerTools) (key.1, key.2.1) ∧
              (formerDisk.lookup (filename "d" key)).isSome) ∧
        aggregate = if (formerDisk.lookup (filename "d" key)).isSome then
          readInto flagAggregateCodec (filename "d" key) formerDisk default else default :=
  lookup_constructFrom_declared (.inr ⟨rfl, by decide⟩) rfl validate_ledgerConfig
    (fun r _ => idsFit_ledger r) ⟨by decide, by decide⟩ decimalAtoi_laws
    onlyStores_formerDisk

end Declared

end Cobalt.LocalAggregation11
