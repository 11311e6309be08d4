import Cobalt.Lib.MapIndex
import Cobalt.Registry.CobaltRegistry
import Mathlib.Data.Prod.Lex

/-!
# The registry as the client looks things up in it

The client indexes a registry by the ids and names of its customers, projects and metrics. A project
context is made for one project, and indexes the metrics of the project. An entry of the registry
replaces an earlier one that has the same key.

## Main definitions

* `ProjectConfigs`, with the constructor `ProjectConfigs.new`.
* `ProjectContext`, with the constructor `ProjectContext.new`.
* `ProjectContextFactory`.

## Main results

* `ProjectConfigs.getProjectConfig_new`, `ProjectConfigs.getMetricDefinition_new`: what is found in
  a registry in which the ids are distinct.
* `ProjectContextFactory.newProjectContext_eq_some_iff`: the project contexts of such a registry.
* `ProjectContextFactory.takeSingleProjectContext_eq`: the single project of a registry is taken
  once.
-/

namespace Cobalt.Config

/-! ### The indexes of a registry -/

/-- `ProjectConfigs`. The values of its maps are pointers into the registry that it owns. -/
structure ProjectConfigs where
  cobaltRegistry : CobaltRegistry
  customersByName : ProtoMap String CustomerConfig := ∅
  customersById : ProtoMap ℕ CustomerConfig := ∅
  projectsByName : ProtoMap (String × String) ProjectConfig := ∅
  projectsById : ProtoMap (ℕ × ℕ) ProjectConfig := ∅
  metricsById : ProtoMap (ℕ × ℕ × ℕ) ConfigValidator.MetricDefinition := ∅
  isSingleProject : Bool
  isEmpty : Bool
  singleCustomerId : ℕ := 0
  singleCustomerName : String := ""
  singleProjectId : ℕ := 0
  singleProjectName : String := ""

namespace ProjectConfigs

/-- The constructor, before its loops. -/
def init (cobaltRegistry : CobaltRegistry) : ProjectConfigs :=
  match cobaltRegistry.customers with
  | [customer] =>
    match customer.projects with
    | [project] =>
      { cobaltRegistry
        isEmpty := false
        isSingleProject := true
        singleCustomerId := customer.customerId
        singleCustomerName := customer.customerName
        singleProjectId := project.projectId
        singleProjectName := project.projectName }
    | _ => { cobaltRegistry, isEmpty := false, isSingleProject := false }
  | customers => { cobaltRegistry, isEmpty := customers.isEmpty, isSingleProject := false }

/-- The body of the loop over the projects of a customer. -/
def indexProject (customer : CustomerConfig) (configs : ProjectConfigs) (project : ProjectConfig) :
    ProjectConfigs :=
  { configs with
    projectsById :=
      configs.projectsById.insert (customer.customerId, project.projectId) project
    projectsByName :=
      configs.projectsByName.insert (customer.customerName, project.projectName) project
    metricsById := project.metrics.foldl (fun metricsById metric =>
      metricsById.insert (customer.customerId, project.projectId, metric.id) metric)
        configs.metricsById }

/-- The body of the loop over the customers. -/
def indexCustomer (configs : ProjectConfigs) (customer : CustomerConfig) : ProjectConfigs :=
  customer.projects.foldl (indexProject customer)
    { configs with
      customersById := configs.customersById.insert customer.customerId customer
      customersByName := configs.customersByName.insert customer.customerName customer }

/-- The constructor. -/
def new (cobaltRegistry : CobaltRegistry) : ProjectConfigs :=
  cobaltRegistry.customers.foldl indexCustomer (init cobaltRegistry)

variable (configs : ProjectConfigs)

/-- `GetCustomerConfig`. -/
def getCustomerConfig (customerId : ℕ) : Option CustomerConfig :=
  configs.customersById.lookup customerId

/-- `GetProjectConfig`. -/
def getProjectConfig (customerId projectId : ℕ) : Option ProjectConfig :=
  configs.projectsById.lookup (customerId, projectId)

/-- `GetMetricDefinition`. -/
def getMetricDefinition (customerId projectId metricId : ℕ) :
    Option ConfigValidator.MetricDefinition :=
  configs.metricsById.lookup (customerId, projectId, metricId)

/-- `ListProjects`. -/
def listProjects : List (ℕ × ℕ) :=
  configs.projectsById.sortedKeys toLex

/-- `TakeSingleProjectConfig`: the project, which may be a null pointer, and what is left; `none`
for a failed `CHECK`. The indexes of the customers are not cleared: they have the customer without
its project. -/
def takeSingleProjectConfig : Option (Option ProjectConfig × ProjectConfigs) :=
  if ¬ configs.isSingleProject then some (none, configs)
  else
    match configs.cobaltRegistry.customers with
    | [] => none
    | customer :: customers =>
      match customer.projects with
      | [] => none
      | project :: _ =>
        let customer := { customer with projects := [] }
        some (some project,
          { configs with
            isEmpty := true
            isSingleProject := false
            projectsByName := ∅
            projectsById := ∅
            metricsById := ∅
            customersById := configs.customersById.insert customer.customerId customer
            customersByName := configs.customersByName.insert customer.customerName customer
            cobaltRegistry := { customers := customer :: customers } })

end ProjectConfigs

/-! ### Project contexts -/

/-- `Project`, with the names. -/
structure NamedProject extends Project where
  customerName : String
  projectName : String
  deriving DecidableEq, Repr

/-- `ProjectContext`. -/
structure ProjectContext where
  project : NamedProject
  projectConfig : ProjectConfig
  metricsByName : ProtoMap String ConfigValidator.MetricDefinition := ∅
  metricsById : ProtoMap ℕ ConfigValidator.MetricDefinition := ∅

namespace ProjectContext

/-- Whether the metric is for the project. -/
def hasMetric (project : NamedProject) (metric : ConfigValidator.MetricDefinition) : Bool :=
  metric.customerId = project.customerId && metric.projectId = project.projectId

/-- The body of the loop of the constructor. -/
def addMetric (context : ProjectContext) (metric : ConfigValidator.MetricDefinition) :
    ProjectContext :=
  if hasMetric context.project metric then
    { context with
      metricsByName := context.metricsByName.insert metric.metricName metric
      metricsById := context.metricsById.insert metric.id metric }
  else context

/-- The constructor. -/
def new (customerId : ℕ) (customerName : String) (projectConfig : ProjectConfig) : ProjectContext :=
  projectConfig.metrics.foldl addMetric
    { project :=
        { customerId
          projectId := projectConfig.projectId
          customerName
          projectName := projectConfig.projectName }
      projectConfig }

variable (context : ProjectContext)

/-- `GetMetric`, with an id. -/
def getMetric (metricId : ℕ) : Option ConfigValidator.MetricDefinition :=
  context.metricsById.lookup metricId

/-- `GetMetric`, with a name. -/
def getMetricByName (metricName : String) : Option ConfigValidator.MetricDefinition :=
  context.metricsByName.lookup metricName

/-- `ListMetrics`. -/
def listMetrics : List ℕ :=
  context.metricsById.sortedKeys id

end ProjectContext

/-! ### The factory -/

/-- `ProjectContextFactory`. The configs are a null pointer after the single project was taken. -/
structure ProjectContextFactory where
  projectConfigs : Option ProjectConfigs

namespace ProjectContextFactory

/-- The constructor. -/
def new (cobaltRegistry : CobaltRegistry) : ProjectContextFactory where
  projectConfigs := some (ProjectConfigs.new cobaltRegistry)

variable (factory : ProjectContextFactory)

/-- `is_valid`. -/
def isValid : Bool :=
  factory.projectConfigs.any fun configs => !configs.isEmpty

/-- `is_single_project`. -/
def isSingleProject : Bool :=
  factory.projectConfigs.any fun configs => configs.isSingleProject

/-- `NewProjectContext`. -/
def newProjectContext (customerId projectId : ℕ) : Option ProjectContext :=
  match factory.projectConfigs with
  | none => none
  | some configs =>
    match configs.getCustomerConfig customerId with
    | none => none
    | some customerConfig =>
      match configs.getProjectConfig customerId projectId with
      | none => none
      | some projectConfig =>
        some (ProjectContext.new customerId customerConfig.customerName projectConfig)

/-- `TakeSingleProjectContext`: the context, which may be a null pointer, and the factory after it;
`none` for a failed `CHECK`. -/
def takeSingleProjectContext : Option (Option ProjectContext × ProjectContextFactory) :=
  match factory.projectConfigs with
  | none => some (none, factory)
  | some configs =>
    if ¬ configs.isSingleProject then some (none, factory)
    else
      match configs.takeSingleProjectConfig with
      | some (some projectConfig, _) =>
        some (some (ProjectContext.new configs.singleCustomerId configs.singleCustomerName
          projectConfig), ⟨none⟩)
      -- The constructor of `ProjectContext` checks that the project is no null pointer.
      | _ => none

/-- `ListProjects`; `none` where a null pointer is dereferenced. -/
def listProjects : Option (List (ℕ × ℕ)) :=
  factory.projectConfigs.map ProjectConfigs.listProjects

end ProjectContextFactory

/-! ### What the indexes have -/

/-- The projects of the registry, with their customers. -/
def CobaltRegistry.projects (registry : CobaltRegistry) : List (CustomerConfig × ProjectConfig) :=
  registry.customers.flatMap fun customer =>
    customer.projects.map fun project => (customer, project)

theorem CobaltRegistry.mem_projects {registry : CobaltRegistry}
    {entry : CustomerConfig × ProjectConfig} :
    entry ∈ registry.projects ↔ entry.1 ∈ registry.customers ∧ entry.2 ∈ entry.1.projects := by
  simp only [CobaltRegistry.projects, List.mem_flatMap, List.mem_map]
  constructor
  · rintro ⟨customer, hcustomer, project, hproject, rfl⟩
    exact ⟨hcustomer, hproject⟩
  · exact fun h => ⟨entry.1, h.1, entry.2, h.2, rfl⟩

/-- The ids in a registry are distinct. -/
structure CobaltRegistry.DistinctIds (registry : CobaltRegistry) : Prop where
  customers : (registry.customers.map fun customer => customer.customerId).Nodup
  projects : (registry.projects.map fun e => (e.1.customerId, e.2.projectId)).Nodup
  metrics : ∀ e ∈ registry.projects, (e.2.metrics.map fun metric => metric.id).Nodup

namespace ProjectConfigs

variable {registry : CobaltRegistry}

theorem init_maps (registry : CobaltRegistry) :
    (init registry).customersById = ∅ ∧ (init registry).projectsById = ∅ ∧
      (init registry).metricsById = ∅ := by
  rw [init]
  split
  · split <;> exact ⟨rfl, rfl, rfl⟩
  · exact ⟨rfl, rfl, rfl⟩

theorem customersById_indexCustomer (configs : ProjectConfigs) (customer : CustomerConfig) :
    (indexCustomer configs customer).customersById =
      configs.customersById.insertAll [(customer.customerId, customer)] := by
  rw [indexCustomer, @ProtoMap.field_foldl _ _ _ _ _ (indexProject customer) customersById
    (fun _ => []) fun _ _ => rfl, List.flatMap_eq_nil_iff.mpr fun _ _ => rfl]
  rfl

theorem projectsById_indexCustomer (configs : ProjectConfigs) (customer : CustomerConfig) :
    (indexCustomer configs customer).projectsById = configs.projectsById.insertAll
      (customer.projects.map fun project =>
        ((customer.customerId, project.projectId), project)) := by
  rw [indexCustomer, ProtoMap.field_foldl projectsById
    (fun project => [((customer.customerId, project.projectId), project)]) fun _ _ => rfl,
    List.map_eq_flatMap]

theorem metricsById_indexCustomer (configs : ProjectConfigs) (customer : CustomerConfig) :
    (indexCustomer configs customer).metricsById = configs.metricsById.insertAll
      (customer.projects.flatMap fun project => project.metrics.map fun metric =>
        ((customer.customerId, project.projectId, metric.id), metric)) := by
  rw [indexCustomer]
  exact ProtoMap.field_foldl metricsById _
    (fun _ _ => ProtoMap.foldl_insert_eq_insertAll _ _ _ _) customer.projects _

/-- The index of the customers. -/
theorem customersById_new (registry : CobaltRegistry) : (new registry).customersById =
    ProtoMap.ofPairs (registry.customers.map fun customer => (customer.customerId, customer)) := by
  rw [new, ProtoMap.field_foldl customersById _ customersById_indexCustomer, (init_maps registry).1,
    ← List.map_eq_flatMap]
  rfl

/-- The index of the projects. -/
theorem projectsById_new (registry : CobaltRegistry) : (new registry).projectsById =
    ProtoMap.ofPairs (registry.projects.map fun e => ((e.1.customerId, e.2.projectId), e.2)) := by
  rw [new, ProtoMap.field_foldl projectsById _ projectsById_indexCustomer, (init_maps registry).2.1,
    CobaltRegistry.projects, List.map_flatMap]
  simp only [List.map_map]
  rfl

/-- The index of the metrics. -/
theorem metricsById_new (registry : CobaltRegistry) : (new registry).metricsById =
    ProtoMap.ofPairs (registry.projects.flatMap fun e => e.2.metrics.map fun metric =>
      ((e.1.customerId, e.2.projectId, metric.id), metric)) := by
  rw [new, ProtoMap.field_foldl metricsById _ metricsById_indexCustomer, (init_maps registry).2.2,
    CobaltRegistry.projects, List.flatMap_assoc]
  simp only [List.flatMap_map]
  rfl

/-- A customer is found by its id. -/
theorem getCustomerConfig_new (h : registry.DistinctIds) {customerId : ℕ}
    {customer : CustomerConfig} : (new registry).getCustomerConfig customerId = some customer ↔
      customer ∈ registry.customers ∧ customer.customerId = customerId := by
  rw [getCustomerConfig, customersById_new, ProtoMap.lookup_ofPairs_map_iff h.customers]

/-- **A project is found** by its ids. -/
theorem getProjectConfig_new (h : registry.DistinctIds) {customerId projectId : ℕ}
    {project : ProjectConfig} :
    (new registry).getProjectConfig customerId projectId = some project ↔
      ∃ e ∈ registry.projects, e.1.customerId = customerId ∧ e.2.projectId = projectId ∧
        e.2 = project := by
  have hnodup := h.projects
  rw [getProjectConfig, projectsById_new, ProtoMap.lookup_ofPairs_iff (by rwa [List.map_map]),
    List.mem_map]
  refine exists_congr fun e => and_congr_right fun _ => ?_
  rw [Prod.mk.injEq, Prod.mk.injEq, and_assoc]

/-- A metric is found by its ids. -/
theorem getMetricDefinition_new (h : registry.DistinctIds) {customerId projectId metricId : ℕ}
    {metric : ConfigValidator.MetricDefinition} :
    (new registry).getMetricDefinition customerId projectId metricId = some metric ↔
      ∃ e ∈ registry.projects, e.1.customerId = customerId ∧ e.2.projectId = projectId ∧
        metric ∈ e.2.metrics ∧ metric.id = metricId := by
  have hnodup : ((registry.projects.flatMap fun e => e.2.metrics.map fun metric =>
      ((e.1.customerId, e.2.projectId, metric.id), metric)).map Prod.fst).Nodup := by
    rw [List.map_flatMap, List.nodup_flatMap]
    constructor
    · intro e he
      rw [List.map_map]
      refine List.Nodup.of_map (fun key => key.2.2) ?_
      rw [List.map_map]
      exact h.metrics e he
    · refine (List.pairwise_map.mp h.projects).imp fun {e e'} hne => ?_
      rw [Function.onFun, List.disjoint_left]
      intro key hkey hkey'
      simp only [List.map_map, List.mem_map, Function.comp_apply] at hkey hkey'
      obtain ⟨metric, -, rfl⟩ := hkey
      obtain ⟨metric', -, heq⟩ := hkey'
      obtain ⟨hcustomer, hrest⟩ := Prod.mk.inj heq
      exact hne (Prod.ext hcustomer (Prod.mk.inj hrest).1).symm
  rw [getMetricDefinition, metricsById_new, ProtoMap.lookup_ofPairs_iff hnodup, List.mem_flatMap]
  refine exists_congr fun e => and_congr_right fun _ => ?_
  rw [List.mem_map]
  constructor
  · rintro ⟨metric, hmem, heq⟩
    obtain ⟨⟨rfl, rfl, rfl⟩, rfl⟩ := (Prod.mk.inj heq).imp_left fun h =>
      (Prod.mk.inj h).imp_right Prod.mk.inj
    exact ⟨rfl, rfl, hmem, rfl⟩
  · rintro ⟨rfl, rfl, hmem, rfl⟩
    exact ⟨metric, hmem, rfl⟩

/-- The projects are listed in the order of their ids. -/
theorem listProjects_new (h : registry.DistinctIds) : (new registry).listProjects =
    (registry.projects.map fun e => (e.1.customerId, e.2.projectId)).insertionSort
      fun a b => toLex a ≤ toLex b := by
  have hnodup := h.projects
  rw [listProjects, projectsById_new,
    ProtoMap.sortedKeys_ofPairs toLex.injective (by rwa [List.map_map]), List.map_map]
  rfl

/-- The projects that are listed are those of the registry, also if ids are repeated. -/
theorem mem_listProjects_new {customerId projectId : ℕ} :
    (customerId, projectId) ∈ (new registry).listProjects ↔
      ∃ e ∈ registry.projects, e.1.customerId = customerId ∧ e.2.projectId = projectId := by
  rw [listProjects, ProtoMap.sortedKeys, List.mem_insertionSort, projectsById_new,
    ProtoMap.mem_keys_ofPairs, List.map_map, List.mem_map]
  simp only [Function.comp_apply, Prod.mk.injEq]

/-- Whether a registry has a single project, and what is stored of it. -/
theorem foldl_indexCustomer_single (configs : ProjectConfigs) (customers : List CustomerConfig) :
    let configs' := customers.foldl indexCustomer configs
    configs'.cobaltRegistry = configs.cobaltRegistry ∧
      configs'.isSingleProject = configs.isSingleProject ∧
      configs'.isEmpty = configs.isEmpty ∧
      configs'.singleCustomerId = configs.singleCustomerId ∧
      configs'.singleCustomerName = configs.singleCustomerName := by
  induction customers generalizing configs with
  | nil => exact ⟨rfl, rfl, rfl, rfl, rfl⟩
  | cons customer customers ih =>
    have hprojects (projects : List ProjectConfig) (s : ProjectConfigs) :
        let s' := projects.foldl (indexProject customer) s
        s'.cobaltRegistry = s.cobaltRegistry ∧ s'.isSingleProject = s.isSingleProject ∧
          s'.isEmpty = s.isEmpty ∧ s'.singleCustomerId = s.singleCustomerId ∧
          s'.singleCustomerName = s.singleCustomerName := by
      induction projects generalizing s with
      | nil => exact ⟨rfl, rfl, rfl, rfl, rfl⟩
      | cons project projects ih => exact ih (indexProject customer s project)
    obtain ⟨h₁, h₂, h₃, h₄, h₅⟩ := ih (indexCustomer configs customer)
    obtain ⟨h₁', h₂', h₃', h₄', h₅'⟩ := hprojects customer.projects _
    exact ⟨h₁.trans h₁', h₂.trans h₂', h₃.trans h₃', h₄.trans h₄', h₅.trans h₅'⟩

end ProjectConfigs

namespace ProjectContext

/-- The loop of the constructor indexes the metrics of the project. -/
theorem foldl_addMetric (context : ProjectContext)
    (metrics : List ConfigValidator.MetricDefinition) :
    metrics.foldl addMetric context =
      { context with
        metricsByName := context.metricsByName.insertAll
          ((metrics.filter (hasMetric context.project)).map fun metric =>
            (metric.metricName, metric))
        metricsById := context.metricsById.insertAll
          ((metrics.filter (hasMetric context.project)).map fun metric =>
            (metric.id, metric)) } := by
  induction metrics generalizing context with
  | nil => rfl
  | cons metric metrics ih =>
    rw [List.foldl_cons, ih, addMetric]
    by_cases hmetric : hasMetric context.project metric = true
    · rw [if_pos hmetric, List.filter_cons_of_pos hmetric]
      rfl
    · rw [if_neg hmetric, List.filter_cons_of_neg hmetric]

variable {customerId : ℕ} {customerName : String} {projectConfig : ProjectConfig}

/-- The project of the context. -/
theorem project_new : (new customerId customerName projectConfig).project =
    ⟨⟨customerId, projectConfig.projectId⟩, customerName, projectConfig.projectName⟩ := by
  rw [new, foldl_addMetric]

/-- The metrics that are for the project. -/
def ownMetrics (customerId : ℕ) (projectConfig : ProjectConfig) :
    List ConfigValidator.MetricDefinition :=
  projectConfig.metrics.filter fun metric =>
    metric.customerId = customerId && metric.projectId = projectConfig.projectId

theorem metricsById_new : (new customerId customerName projectConfig).metricsById =
    ProtoMap.ofPairs ((ownMetrics customerId projectConfig).map fun metric =>
      (metric.id, metric)) := by
  rw [new, foldl_addMetric]
  rfl

theorem metricsByName_new : (new customerId customerName projectConfig).metricsByName =
    ProtoMap.ofPairs ((ownMetrics customerId projectConfig).map fun metric =>
      (metric.metricName, metric)) := by
  rw [new, foldl_addMetric]
  rfl

/-- A metric is found by its id: the last one of the project that has it. -/
theorem getMetric_new (metricId : ℕ) :
    (new customerId customerName projectConfig).getMetric metricId =
      (ownMetrics customerId projectConfig).reverse.find? fun metric => metric.id = metricId := by
  rw [getMetric, metricsById_new, ProtoMap.lookup_ofPairs, ← List.map_reverse, List.find?_map,
    Option.map_map]
  exact Option.map_id_apply

/-- A metric is found by its name: the last one of the project that has it. -/
theorem getMetricByName_new (metricName : String) :
    (new customerId customerName projectConfig).getMetricByName metricName =
      (ownMetrics customerId projectConfig).reverse.find? fun metric =>
        metric.metricName = metricName := by
  rw [getMetricByName, metricsByName_new, ProtoMap.lookup_ofPairs, ← List.map_reverse,
    List.find?_map, Option.map_map]
  exact Option.map_id_apply

/-- What a project of the registry must have for its metrics to be found. -/
structure Consistent (customerId : ℕ) (projectConfig : ProjectConfig) : Prop where
  own : ∀ metric ∈ projectConfig.metrics,
    metric.customerId = customerId ∧ metric.projectId = projectConfig.projectId
  ids : (projectConfig.metrics.map fun metric => metric.id).Nodup
  names : (projectConfig.metrics.map fun metric => metric.metricName).Nodup

theorem Consistent.ownMetrics_eq (h : Consistent customerId projectConfig) :
    ownMetrics customerId projectConfig = projectConfig.metrics := by
  refine List.filter_eq_self.mpr fun metric hmetric => ?_
  rw [decide_eq_true (h.own metric hmetric).1, decide_eq_true (h.own metric hmetric).2]
  rfl

theorem Consistent.getMetric_new (h : Consistent customerId projectConfig) {metricId : ℕ}
    {metric : ConfigValidator.MetricDefinition} :
    (new customerId customerName projectConfig).getMetric metricId = some metric ↔
      metric ∈ projectConfig.metrics ∧ metric.id = metricId := by
  rw [getMetric, metricsById_new, h.ownMetrics_eq, ProtoMap.lookup_ofPairs_map_iff h.ids]

theorem Consistent.getMetricByName_new (h : Consistent customerId projectConfig)
    {metricName : String} {metric : ConfigValidator.MetricDefinition} :
    (new customerId customerName projectConfig).getMetricByName metricName = some metric ↔
      metric ∈ projectConfig.metrics ∧ metric.metricName = metricName := by
  rw [getMetricByName, metricsByName_new, h.ownMetrics_eq,
    ProtoMap.lookup_ofPairs_map_iff h.names]

/-- The metrics are listed in the order of their ids. -/
theorem Consistent.listMetrics_new (h : Consistent customerId projectConfig) :
    (new customerId customerName projectConfig).listMetrics =
      (projectConfig.metrics.map fun metric => metric.id).insertionSort (· ≤ ·) := by
  have hnodup := h.ids
  rw [listMetrics, metricsById_new, h.ownMetrics_eq,
    ProtoMap.sortedKeys_ofPairs Function.injective_id (by rwa [List.map_map]), List.map_map]
  rfl

/-- A metric that is listed is one of the project. -/
theorem of_mem_listMetrics_new {metricId : ℕ}
    (h : metricId ∈ (new customerId customerName projectConfig).listMetrics) :
    ∃ metric ∈ projectConfig.metrics, metric.id = metricId := by
  rw [listMetrics, ProtoMap.sortedKeys, List.mem_insertionSort, metricsById_new,
    ProtoMap.mem_keys_ofPairs, List.map_map, List.mem_map] at h
  obtain ⟨metric, hmetric, rfl⟩ := h
  exact ⟨metric, List.mem_of_mem_filter hmetric, rfl⟩

end ProjectContext

namespace ProjectContextFactory

variable {registry : CobaltRegistry}

/-- The project contexts are those of the projects of the registry. -/
theorem newProjectContext_eq_some_iff (h : registry.DistinctIds) {customerId projectId : ℕ}
    {context : ProjectContext} :
    (new registry).newProjectContext customerId projectId = some context ↔
      ∃ e ∈ registry.projects, e.1.customerId = customerId ∧ e.2.projectId = projectId ∧
        context = ProjectContext.new customerId e.1.customerName e.2 := by
  rw [newProjectContext, new]
  dsimp only
  constructor
  · intro hcontext
    split at hcontext
    · cases hcontext
    · rename_i customer hcustomer
      obtain ⟨hmem, rfl⟩ := (ProjectConfigs.getCustomerConfig_new h).mp hcustomer
      split at hcontext
      · cases hcontext
      · rename_i project hproject
        obtain ⟨e, he, hid, rfl, rfl⟩ := (ProjectConfigs.getProjectConfig_new h).mp hproject
        have hsame := List.inj_on_of_nodup_map h.customers (CobaltRegistry.mem_projects.mp he).1
          hmem hid
        exact ⟨e, he, hid, rfl, hsame ▸ (Option.some.inj hcontext).symm⟩
  · rintro ⟨e, he, rfl, rfl, rfl⟩
    rw [(ProjectConfigs.getCustomerConfig_new h).mpr ⟨(CobaltRegistry.mem_projects.mp he).1, rfl⟩,
      (ProjectConfigs.getProjectConfig_new h).mpr ⟨e, he, rfl, rfl, rfl⟩]

/-- A project context is one of a project of the registry, also if ids are repeated. -/
theorem of_newProjectContext {customerId projectId : ℕ} {context : ProjectContext}
    (h : (new registry).newProjectContext customerId projectId = some context) :
    ∃ e ∈ registry.projects, ∃ customerName, e.1.customerId = customerId ∧
      e.2.projectId = projectId ∧ context = ProjectContext.new customerId customerName e.2 := by
  rw [newProjectContext, new] at h
  dsimp only at h
  split at h
  · cases h
  · rename_i customer hcustomer
    split at h
    · cases h
    · rename_i project hproject
      rw [ProjectConfigs.getProjectConfig, ProjectConfigs.projectsById_new] at hproject
      obtain ⟨e, he, heq⟩ := List.mem_map.mp (ProtoMap.mem_of_lookup_ofPairs hproject)
      obtain ⟨⟨rfl, rfl⟩, rfl⟩ := (Prod.mk.inj heq).imp_left Prod.mk.inj
      exact ⟨e, he, customer.customerName, rfl, rfl, (Option.some.inj h).symm⟩

/-- A listed project has a context, also if ids are repeated. -/
theorem exists_newProjectContext_iff {customerId projectId : ℕ} :
    (∃ context, (new registry).newProjectContext customerId projectId = some context) ↔
      (customerId, projectId) ∈ (ProjectConfigs.new registry).listProjects := by
  rw [ProjectConfigs.mem_listProjects_new]
  constructor
  · rintro ⟨context, hcontext⟩
    obtain ⟨e, he, -, hcustomer, hproject, -⟩ := of_newProjectContext hcontext
    exact ⟨e, he, hcustomer, hproject⟩
  · rintro ⟨e, he, rfl, rfl⟩
    have hcustomer :
        ((ProjectConfigs.new registry).getCustomerConfig e.1.customerId).isSome := by
      rw [ProjectConfigs.getCustomerConfig, AList.lookup_isSome, AList.mem_keys,
        ProjectConfigs.customersById_new, ProtoMap.mem_keys_ofPairs, List.map_map]
      exact List.mem_map.mpr ⟨e.1, (CobaltRegistry.mem_projects.mp he).1, rfl⟩
    have hproject : ((ProjectConfigs.new registry).getProjectConfig e.1.customerId
        e.2.projectId).isSome := by
      rw [ProjectConfigs.getProjectConfig, AList.lookup_isSome, AList.mem_keys,
        ProjectConfigs.projectsById_new, ProtoMap.mem_keys_ofPairs, List.map_map]
      exact List.mem_map.mpr ⟨e, he, rfl⟩
    obtain ⟨customer, hcustomer⟩ := Option.isSome_iff_exists.mp hcustomer
    obtain ⟨project, hproject⟩ := Option.isSome_iff_exists.mp hproject
    rw [newProjectContext, new]
    dsimp only
    rw [hcustomer, hproject]
    exact ⟨_, rfl⟩

/-- A single project is taken once: its context is returned, and the factory has nothing
after it. -/
theorem takeSingleProjectContext_single {customer : CustomerConfig} {project : ProjectConfig}
    (hcustomers : registry.customers = [customer]) (hprojects : customer.projects = [project]) :
    (new registry).takeSingleProjectContext =
      some (some (ProjectContext.new customer.customerId customer.customerName project),
        ⟨none⟩) := by
  have hsingle : ProjectConfigs.init registry =
      { cobaltRegistry := registry
        isEmpty := false
        isSingleProject := true
        singleCustomerId := customer.customerId
        singleCustomerName := customer.customerName
        singleProjectId := project.projectId
        singleProjectName := project.projectName } := by
    rw [ProjectConfigs.init, hcustomers]
    dsimp only
    rw [hprojects]
  obtain ⟨hregistry, hflag, -, hid, hname⟩ :=
    ProjectConfigs.foldl_indexCustomer_single (ProjectConfigs.init registry) registry.customers
  rw [← ProjectConfigs.new, hsingle] at hregistry hflag hid hname
  rw [takeSingleProjectContext, new]
  dsimp only
  rw [if_neg (not_not.mpr hflag), ProjectConfigs.takeSingleProjectConfig,
    if_neg (not_not.mpr hflag), hregistry]
  dsimp only
  rw [hcustomers]
  dsimp only
  rw [hprojects]
  dsimp only
  rw [hid, hname]

/-- A registry without a single project keeps what it has. -/
theorem takeSingleProjectContext_of_not
    (h : ∀ customer project, registry.customers = [customer] → customer.projects ≠ [project]) :
    (new registry).takeSingleProjectContext = some (none, new registry) := by
  have hinit : (ProjectConfigs.init registry).isSingleProject = false := by
    rw [ProjectConfigs.init]
    split
    · rename_i customer hcustomers
      split
      · rename_i project hprojects
        exact absurd hprojects (h customer project hcustomers)
      · rfl
    · rfl
  have hflag := (ProjectConfigs.foldl_indexCustomer_single (ProjectConfigs.init registry)
    registry.customers).2.1.trans hinit
  rw [← ProjectConfigs.new] at hflag
  rw [takeSingleProjectContext, new]
  dsimp only
  rw [if_pos (by rw [hflag]; exact Bool.false_ne_true)]

end ProjectContextFactory

end Cobalt.Config
