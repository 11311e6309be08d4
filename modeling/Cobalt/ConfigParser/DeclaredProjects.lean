import Cobalt.ConfigParser.ConfigReader
import Cobalt.Registry.ProjectConfigs

/-!
# From the files of the projects to the client

The config parser reads the projects from their files, validates them and merges them into a
registry, in which the client looks a project up by its ids and a metric by its id or its name. If
the ids that are declared fit into 32 bits, the client finds exactly the projects that the files
declare, with their names and their metrics.

## Main definitions

* `ConfigValidator.validateProjectConfigs`.
* `Declared`: a project that the files of a reader declare, with its metrics.
* `Serves`: a project context is the one of a declared project.

## Main results

* `newProjectContext_mergeConfigs_iff`: the project contexts of a registry that is made from
  projects with ids of their own.
* `newProjectContext_declared_iff`: the client finds what the files declare.
* `takeSingleProjectContext_selected`: a registry that is made for one project has the same context.
-/

namespace Cobalt.ConfigValidator

open ConfigParser Checks

/-! ### The validator -/

/-- How the validation of a project can end without success. -/
inductive ValidationFailure
  | errorf (message : String)
  | nilDereference
  deriving DecidableEq, Repr

/-- `validateProjectConfig`. -/
def validateProjectConfig (others : OtherValidators) (c : ProjectConfig) :
    Except ValidationFailure Unit :=
  if c.cobaltVersion = .CobaltVersion0 then
    .error (.errorf "Cobalt version 0.1 configs are no longer supported")
  else
    match c.projectConfig with
    | none => .error .nilDereference
    | some metrics =>
      match validateConfiguredMetricDefinitions others metrics with
      | some error =>
        .error (.errorf ("Error in configuration for project " ++ c.projectName ++ ": " ++ error))
      | none => .ok ()

/-- `ValidateProjectConfigs`. -/
def validateProjectConfigs (others : OtherValidators) (configs : List ProjectConfig) :
    Except ValidationFailure Unit :=
  forM configs (validateProjectConfig others)

theorem configuredMetricsLoop_eq_definitionsLoop {others : OtherValidators} {ids : List ℕ}
    {names : List String} {metrics : List MetricDefinition} :
    configuredMetricsLoop others ids names metrics =
      definitionsLoop "metric" (fun m => m.id) (fun m => m.metricName)
        (validateMetricDefinition others) ids names metrics := by
  induction metrics generalizing ids names with
  | nil => rfl
  | cons metric metrics ih =>
    rw [configuredMetricsLoop, definitionsLoop, ih]
    rfl

/-- The metrics of a project that passes have ids and names of their own. -/
theorem of_validateProjectConfigs {others : OtherValidators} {configs : List ProjectConfig}
    (h : validateProjectConfigs others configs = .ok ()) {c : ProjectConfig} (hc : c ∈ configs) :
    c.cobaltVersion = .CobaltVersion1 ∧
      ((c.projectConfig.getD []).map fun m => m.id).Nodup ∧
      ((c.projectConfig.getD []).map fun m => m.metricName).Nodup := by
  have hvalid := forM_eq_ok.mp h c hc
  rw [validateProjectConfig] at hvalid
  split_ifs at hvalid with hversion
  have hversion : c.cobaltVersion = .CobaltVersion1 := by
    cases hcases : c.cobaltVersion with
    | CobaltVersion0 => exact absurd hcases hversion
    | CobaltVersion1 => rfl
  refine ⟨hversion, ?_⟩
  cases hconfig : c.projectConfig with
  | none =>
    rw [hconfig] at hvalid
    cases hvalid
  | some metrics =>
    cases hmetrics : validateConfiguredMetricDefinitions others metrics with
    | some error =>
      rw [hconfig] at hvalid
      dsimp only at hvalid
      rw [hmetrics] at hvalid
      cases hvalid
    | none =>
      rw [validateConfiguredMetricDefinitions, configuredMetricsLoop_eq_definitionsLoop,
        definitionsLoop_eq_none_iff] at hmetrics
      exact ⟨hmetrics.1.1, hmetrics.2.1.1⟩

end Cobalt.ConfigValidator

namespace Cobalt.ConfigParser

open Checks Config ConfigValidator

/-! ### The registry of projects with ids of their own -/

section Merged

variable {l : List ProjectConfig} (h : Mergeable l)
include h

/-- A project of the registry is the one of a config. -/
theorem mem_projects_mergeConfigs_iff {customerId : ℕ} {customerName : String}
    {project : Config.ProjectConfig} :
    (∃ e ∈ (mergeConfigs l).projects, e.1.customerId = customerId ∧
        e.1.customerName = customerName ∧ e.2 = project) ↔
      ∃ c ∈ l, c.customerId = customerId ∧ c.customerName = customerName ∧
        v1ProjectConfig c = project := by
  have hprojects : (registryProjects (mergeConfigs l)) =
      (mergeConfigs l).projects.map fun e => (e.1.customerId, e.1.customerName, e.2) := by
    rw [registryProjects, CobaltRegistry.projects, List.map_flatMap]
    simp only [List.map_map]
    rfl
  have hmem := (registryProjects_perm h).mem_iff (a := (customerId, customerName, project))
  rw [hprojects, List.mem_map, List.mem_map] at hmem
  simpa only [entryOf, Prod.mk.injEq] using hmem

theorem distinctIds_mergeConfigs : (mergeConfigs l).DistinctIds := by
  refine ⟨?_, ?_, fun e he => ?_⟩
  · rw [List.Nodup, List.pairwise_map]
    exact (pairwise_customers h).imp fun hlt => hlt.ne
  · rw [CobaltRegistry.projects, List.map_flatMap, List.nodup_flatMap]
    constructor
    · intro customer hcustomer
      rw [List.map_map]
      refine List.Nodup.of_map Prod.snd ?_
      rw [List.map_map, List.Nodup, List.pairwise_map]
      exact (pairwise_projects h hcustomer).imp fun hlt => hlt.ne
    · refine (pairwise_customers h).imp fun {a b} hlt => List.disjoint_left.mpr fun key ha hb => ?_
      simp only [List.map_map, List.mem_map, Function.comp_apply] at ha hb
      obtain ⟨p, -, rfl⟩ := ha
      obtain ⟨p', -, heq⟩ := hb
      exact hlt.ne (Prod.mk.inj heq).1.symm
  · obtain ⟨c, hc, -, -, heq⟩ := (mem_projects_mergeConfigs_iff h).mp ⟨e, he, rfl, rfl, rfl⟩
    rw [← heq, v1ProjectConfig]
    exact (((perm_sliceStable _ _).map _).nodup_iff).mpr (h.metrics c hc)

/-- The project contexts of the registry are those of the configs. -/
theorem newProjectContext_mergeConfigs_iff {customerId projectId : ℕ} {context : ProjectContext} :
    (ProjectContextFactory.new (mergeConfigs l)).newProjectContext customerId projectId =
        some context ↔
      ∃ c ∈ l, c.customerId = customerId ∧ c.projectId = projectId ∧
        context = ProjectContext.new customerId c.customerName (v1ProjectConfig c) := by
  rw [ProjectContextFactory.newProjectContext_eq_some_iff (distinctIds_mergeConfigs h)]
  constructor
  · rintro ⟨e, he, rfl, rfl, rfl⟩
    obtain ⟨c, hc, hid, hname, heq⟩ := (mem_projects_mergeConfigs_iff h).mp ⟨e, he, rfl, rfl, rfl⟩
    exact ⟨c, hc, hid, congrArg Config.ProjectConfig.projectId heq, by rw [hname, heq]⟩
  · rintro ⟨c, hc, rfl, rfl, rfl⟩
    obtain ⟨e, he, hid, hname, heq⟩ :=
      (mem_projects_mergeConfigs_iff h).mpr ⟨c, hc, rfl, rfl, rfl⟩
    exact ⟨e, he, hid, congrArg Config.ProjectConfig.projectId heq, by rw [hname, heq]⟩

end Merged

/-! ### The projects of the directories -/

/-- The projects have ids of their own, and a customer has one name. -/
structure Separate (l : List ProjectConfig) : Prop where
  ids : (l.map fun c => (c.customerId, c.projectId)).Nodup
  name : ∀ c ∈ l, ∀ c' ∈ l, c.customerId = c'.customerId → c.customerName = c'.customerName

/-- A list of customers whose ids fit has separate projects. -/
theorem Accepts.separate {y : List (ProtoMap String Value)} {entries : List CustomerEntry}
    (haccepts : Accepts y entries) (hfits : ∀ p ∈ declaredProjects entries, Fits p) :
    Separate (toConfigs entries) := by
  refine ⟨haccepts.nodup_pairs hfits, fun c hc c' hc' heq => ?_⟩
  rw [toConfigs_eq_map] at hc hc'
  obtain ⟨p, hp, rfl⟩ := List.mem_map.mp hc
  obtain ⟨p', hp', rfl⟩ := List.mem_map.mp hc'
  have hids : p.1.id = p'.1.id := by
    calc p.1.id = (U32.ofInt p.1.id : ℤ) :=
          ((haccepts.stored_iff hp).mpr (hfits p hp)).customerId.symm
      _ = (U32.ofInt p'.1.id : ℤ) := congrArg Nat.cast heq
      _ = p'.1.id := ((haccepts.stored_iff hp').mpr (hfits p' hp')).customerId
  have hsame := List.inj_on_of_nodup_map haccepts.ids (mem_declaredProjects.mp hp).1
    (mem_declaredProjects.mp hp').1 hids
  exact congrArg CustomerEntry.name hsame

/-- Reading the metrics keeps the ids. -/
theorem map_ids_withMetrics {R : ProjectConfig → List RegistryMetric → Prop}
    {l l' : List ProjectConfig} (hread : List.Forall₂ (fun c c' =>
      ∃ metrics, R c metrics ∧ c' = c.withMetrics metrics) l l') :
    (l.map fun c => (c.customerId, c.projectId)) =
      l'.map fun c => (c.customerId, c.projectId) := by
  rw [← List.forall₂_eq_eq_eq, List.forall₂_map_left_iff, List.forall₂_map_right_iff]
  refine hread.imp fun {c c'} hc => ?_
  obtain ⟨metrics, -, rfl⟩ := hc
  rfl

/-- Reading the metrics keeps projects separate. -/
theorem Separate.withMetrics {R : ProjectConfig → List RegistryMetric → Prop}
    {l l' : List ProjectConfig} (h : Separate l) (hread : List.Forall₂ (fun c c' =>
      ∃ metrics, R c metrics ∧ c' = c.withMetrics metrics) l l') : Separate l' := by
  refine ⟨map_ids_withMetrics hread ▸ h.ids, fun c hc c' hc' heq => ?_⟩
  obtain ⟨b, hb, metrics, -, rfl⟩ := exists_mem_left hread hc
  obtain ⟨b', hb', metrics', -, rfl⟩ := exists_mem_left hread hc'
  exact h.name b hb b' hb' heq

/-- Lists of separate projects without common customers. -/
theorem separate_flatten {lists : List (List ProjectConfig)} (hlists : ∀ l ∈ lists, Separate l)
    (hapart : lists.Pairwise Apart) : Separate lists.flatten := by
  have : Std.Symm Apart := ⟨fun l l' h c hc c' hc' heq => h c' hc' c hc heq.symm⟩
  constructor
  · rw [List.map_flatten, List.nodup_flatten, List.forall_mem_map, List.pairwise_map]
    refine ⟨fun l hl => (hlists l hl).ids, hapart.imp fun {l l'} h => ?_⟩
    refine List.disjoint_left.mpr fun key hkey hkey' => ?_
    obtain ⟨c, hc, rfl⟩ := List.mem_map.mp hkey
    obtain ⟨c', hc', heq⟩ := List.mem_map.mp hkey'
    exact h c hc c' hc' (Prod.mk.inj heq).1.symm
  · intro c hc c' hc' heq
    obtain ⟨l, hl, hc⟩ := List.mem_flatten.mp hc
    obtain ⟨l', hl', hc'⟩ := List.mem_flatten.mp hc'
    by_cases hsame : l = l'
    · subst hsame
      exact (hlists l hl).name c hc c' hc' heq
    · exact absurd heq (hapart.forall hl hl' hsame c hc c' hc')

/-- The flags ask for all projects of the sources. -/
def Flags.Whole (flags : Flags) : Prop :=
  flags.repoUrls ≠ [] ∨
    flags.configFile = "" ∧ ¬ (0 ≤ flags.customerId.1 ∧ 0 ≤ flags.projectId.1)

/-- The sources that are read: the repositories, or else the directories. -/
def Flags.sources (flags : Flags) (tools : Tools) : List (Except Error ConfigReader) :=
  if flags.repoUrls ≠ [] then flags.repoUrls.map (newConfigRepoReader tools)
  else flags.configDirs.map (newConfigDirReader tools.files)

/-- A project that the files of the reader declare, with the metrics in its file. -/
structure Declared (tools : Tools) (r : ConfigReader) (e : CustomerEntry) (p : ProjectEntry)
    (metrics : List RegistryMetric) : Prop where
  listed : ∃ content y, r.customers = .ok content ∧ tools.unmarshalCustomers content = .ok y ∧
    ∃ customer ∈ y, Reads customer e
  project : p ∈ e.projects
  metrics : ReadsMetrics tools r (toConfig e p) metrics

variable {tools : Tools} {flags : Flags} {configs : List ProjectConfig}

/-- The sources. Each of them is read, and no customer is in two of them. -/
theorem sources_of_parseConfigFromFlags (hwhole : flags.Whole)
    (h : parseConfigFromFlags tools flags = .ok configs) :
    ∃ lists, List.Forall₂ (fun source l => ∃ r, source = .ok r ∧ readConfig tools r = .ok l)
        (flags.sources tools) lists ∧ lists.Pairwise Apart ∧ configs = lists.flatten := by
  rw [parseConfigFromFlags, check_bind_eq_ok] at h
  replace h := h.2
  dsimp only at h
  rw [Flags.sources]
  by_cases hrepo : flags.repoUrls ≠ []
  · rw [if_pos hrepo] at h ⊢
    obtain ⟨lists, hlists, hrest⟩ := readAll_eq_ok_iff.mp h
    refine ⟨lists, List.forall₂_map_left_iff.mpr (hlists.imp fun {repoUrl l} hl => ?_), hrest⟩
    rwa [readConfigFromRepo, bind_eq_ok] at hl
  · obtain ⟨hfile, hids⟩ := hwhole.resolve_left hrepo
    rw [if_neg hrepo, if_neg (not_not.mpr hfile), if_neg hids] at h
    rw [if_neg hrepo]
    obtain ⟨lists, hlists, hrest⟩ := readAll_eq_ok_iff.mp h
    refine ⟨lists, List.forall₂_map_left_iff.mpr (hlists.imp fun {dir l} hl => ?_), hrest⟩
    rwa [readConfigFromDir, bind_eq_ok] at hl

/-- What is declared is what the parser reads. -/
theorem Lists.declared_iff {r : ConfigReader} {y : List (ProtoMap String Value)}
    {entries : List CustomerEntry} (h : Lists tools r y entries) {e : CustomerEntry}
    {p : ProjectEntry} {metrics : List RegistryMetric} :
    Declared tools r e p metrics ↔
      (e, p) ∈ declaredProjects entries ∧ ReadsMetrics tools r (toConfig e p) metrics := by
  obtain ⟨content, hcontent, hy, haccepts⟩ := h
  rw [mem_declaredProjects]
  constructor
  · rintro ⟨⟨content', y', hcontent', hy', customer, hcustomer, hreads⟩, hproject, hmetrics⟩
    obtain rfl := Except.ok.inj (hcontent.symm.trans hcontent')
    obtain rfl := Except.ok.inj (hy.symm.trans hy')
    obtain ⟨e', he', hreads'⟩ := exists_mem_right haccepts.reads hcustomer
    obtain rfl := rightUnique_reads hreads hreads'
    exact ⟨⟨he', hproject⟩, hmetrics⟩
  · rintro ⟨⟨he, hproject⟩, hmetrics⟩
    obtain ⟨customer, hcustomer, hreads⟩ := exists_mem_left haccepts.reads he
    exact ⟨⟨content, y, hcontent, hy, customer, hcustomer, hreads⟩, hproject, hmetrics⟩

/-- The configs that are read are those of the projects that are declared. -/
theorem mem_of_readConfig {r : ConfigReader} {l : List ProjectConfig}
    (h : readConfig tools r = .ok l) {c : ProjectConfig} :
    c ∈ l ↔ ∃ e p metrics, Declared tools r e p metrics ∧
      c = (toConfig e p).withMetrics metrics := by
  obtain ⟨y, entries, hlists, hread⟩ := readConfig_eq_ok_iff.mp h
  rw [toConfigs_eq_map, List.forall₂_map_left_iff] at hread
  constructor
  · intro hc
    obtain ⟨p, hp, metrics, hmetrics, rfl⟩ := exists_mem_left hread hc
    exact ⟨p.1, p.2, metrics, hlists.declared_iff.mpr ⟨hp, hmetrics⟩, rfl⟩
  · rintro ⟨e, p, metrics, hdeclared, rfl⟩
    obtain ⟨hp, hmetrics⟩ := hlists.declared_iff.mp hdeclared
    obtain ⟨c, hc, metrics', hmetrics', rfl⟩ := exists_mem_right hread hp
    rw [hmetrics.unique hmetrics']
    exact hc

/-- The ids of the declared projects fit into 32 bits. -/
def IdsFit (tools : Tools) (r : ConfigReader) : Prop :=
  ∀ e p metrics, Declared tools r e p metrics → Fits (e, p)

theorem separate_of_readConfig {r : ConfigReader} {l : List ProjectConfig}
    (h : readConfig tools r = .ok l) (hfits : IdsFit tools r) : Separate l := by
  obtain ⟨y, entries, hlists, hread⟩ := readConfig_eq_ok_iff.mp h
  obtain ⟨content, -, -, haccepts⟩ := id hlists
  refine (haccepts.separate fun p hp => ?_).withMetrics hread
  rw [toConfigs_eq_map, List.forall₂_map_left_iff] at hread
  obtain ⟨c, -, metrics, hmetrics, -⟩ := exists_mem_right hread hp
  exact hfits p.1 p.2 metrics (hlists.declared_iff.mpr ⟨hp, hmetrics⟩)

/-- A config that was read and passed the validator has consistent metrics. -/
theorem consistent_v1ProjectConfig {others : OtherValidators} {r : ConfigReader}
    {e : CustomerEntry} {p : ProjectEntry} {metrics : List RegistryMetric}
    (hmetrics : ReadsMetrics tools r (toConfig e p) metrics)
    (hvalid : validateProjectConfigs others configs = .ok ())
    (hc : (toConfig e p).withMetrics metrics ∈ configs) :
    ProjectContext.Consistent (toConfig e p).customerId
      (v1ProjectConfig ((toConfig e p).withMetrics metrics)) := by
  obtain ⟨-, hids, hnames⟩ := of_validateProjectConfigs hvalid hc
  have hperm : (v1ProjectConfig ((toConfig e p).withMetrics metrics)).metrics.Perm
      (metrics.map RegistryMetric.toMetricDefinition) := perm_sliceStable _ _
  obtain ⟨text, -, hparsed⟩ := hmetrics
  refine ⟨fun metric hmetric => ?_, ((hperm.map _).nodup_iff).mpr hids,
    ((hperm.map _).nodup_iff).mpr hnames⟩
  obtain ⟨m, hm, rfl⟩ := List.mem_map.mp (hperm.mem_iff.mp hmetric)
  obtain ⟨hcustomer, hproject, -⟩ := of_parseMetrics hparsed m hm
  exact ⟨hcustomer, hproject⟩

/-- The project context of a declared project. -/
structure Serves (context : ProjectContext) (e : CustomerEntry) (p : ProjectEntry)
    (metrics : List RegistryMetric) : Prop where
  customerId : (context.project.customerId : ℤ) = e.id
  projectId : (context.project.projectId : ℤ) = p.id
  customerName : context.project.customerName = e.name
  projectName : context.project.projectName = p.name
  getMetric : ∀ metricId metric, context.getMetric metricId = some metric ↔
    ∃ m ∈ metrics, m.toMetricDefinition = metric ∧ m.id = metricId
  getMetricByName : ∀ metricName metric, context.getMetricByName metricName = some metric ↔
    ∃ m ∈ metrics, m.toMetricDefinition = metric ∧ m.metricName = metricName
  listMetrics : context.listMetrics = (metrics.map fun m => m.id).insertionSort (· ≤ ·)

/-- The context of a config serves its project. -/
theorem serves_new {e : CustomerEntry} {p : ProjectEntry} {metrics : List RegistryMetric}
    (hstored : Stored (toConfig e p) (e, p))
    (hconsistent : ProjectContext.Consistent (toConfig e p).customerId
      (v1ProjectConfig ((toConfig e p).withMetrics metrics))) :
    Serves (ProjectContext.new (toConfig e p).customerId e.name
      (v1ProjectConfig ((toConfig e p).withMetrics metrics))) e p metrics := by
  have hperm : (v1ProjectConfig ((toConfig e p).withMetrics metrics)).metrics.Perm
      (metrics.map RegistryMetric.toMetricDefinition) := perm_sliceStable _ _
  have hmem {metric : ConfigValidator.MetricDefinition} {q : Prop} :
      metric ∈ (v1ProjectConfig ((toConfig e p).withMetrics metrics)).metrics ∧ q ↔
        (∃ m ∈ metrics, m.toMetricDefinition = metric) ∧ q := by
    rw [hperm.mem_iff, List.mem_map]
  refine ⟨?_, ?_, ?_, ?_, fun metricId metric => ?_, fun metricName metric => ?_, ?_⟩
  · rw [ProjectContext.project_new]
    exact hstored.customerId
  · rw [ProjectContext.project_new]
    exact hstored.projectId
  · rw [ProjectContext.project_new]
  · rw [ProjectContext.project_new]
    rfl
  · rw [hconsistent.getMetric_new, hmem]
    constructor
    · rintro ⟨⟨m, hm, rfl⟩, hid⟩
      exact ⟨m, hm, rfl, hid⟩
    · rintro ⟨m, hm, rfl, hid⟩
      exact ⟨⟨m, hm, rfl⟩, hid⟩
  · rw [hconsistent.getMetricByName_new, hmem]
    constructor
    · rintro ⟨⟨m, hm, rfl⟩, hname⟩
      exact ⟨m, hm, rfl, hname⟩
    · rintro ⟨m, hm, rfl, hname⟩
      exact ⟨⟨m, hm, rfl⟩, hname⟩
  · have hids := hperm.map fun metric => metric.id
    rw [List.map_map] at hids
    rw [hconsistent.listMetrics_new]
    exact List.Perm.eq_of_pairwise' (List.pairwise_insertionSort _ _)
      (List.pairwise_insertionSort _ _)
      ((List.perm_insertionSort _ _).trans (hids.trans (List.perm_insertionSort _ _).symm))

/-! ### What the client finds -/

/-- A project of a registry comes from a config with its ids, whether or not ids are repeated. -/
theorem exists_config_of_newProjectContext {l : List ProjectConfig}
    (hversion : ∀ c ∈ l, c.cobaltVersion = .CobaltVersion1) {customerId projectId : ℕ}
    {context : ProjectContext}
    (h : (ProjectContextFactory.new (mergeConfigs l)).newProjectContext customerId projectId =
      some context) : ∃ c ∈ l, c.customerId = customerId ∧ c.projectId = projectId := by
  obtain ⟨e, he, -, rfl, rfl, -⟩ := ProjectContextFactory.of_newProjectContext h
  obtain ⟨hmem, hprojects⟩ := CobaltRegistry.mem_projects.mp he
  simp only [mergeConfigs, List.mem_map, (perm_sliceStable _ _).mem_iff] at hmem
  obtain ⟨merged, hmerged, hsorted⟩ := hmem
  obtain ⟨n, hn⟩ := List.mem_iff_getElem?.mp hmerged
  obtain ⟨entry, -, rfl⟩ := (grouped_foldl hversion).group n merged hn
  rw [← hsorted] at hprojects ⊢
  obtain ⟨entry', hentry', hid, hproject⟩ := mem_customerOf_projects.mp hprojects
  obtain ⟨c, hc, rfl⟩ := List.mem_map.mp hentry'
  exact ⟨c, hc, hid, congrArg Config.ProjectConfig.projectId hproject⟩

/-- The client finds the projects that are declared by their ids, and no others. -/
structure FindsDeclared (tools : Tools) (sources : List (Except Error ConfigReader))
    (factory : ProjectContextFactory) : Prop where
  found : ∀ r, .ok r ∈ sources → ∀ e p metrics, Declared tools r e p metrics →
    ∃ context, factory.newProjectContext e.id.toNat p.id.toNat = some context ∧
      Serves context e p metrics
  declared : ∀ customerId projectId context,
    factory.newProjectContext customerId projectId = some context →
      ∃ r, .ok r ∈ sources ∧ ∃ e p metrics, Declared tools r e p metrics ∧
        e.id = customerId ∧ p.id = projectId ∧ Serves context e p metrics

/-- The projects of all sources. -/
theorem mem_configs_iff {sources : List (Except Error ConfigReader)}
    {lists : List (List ProjectConfig)} (hlists : List.Forall₂ (fun source l =>
      ∃ r, source = .ok r ∧ readConfig tools r = .ok l) sources lists) {c : ProjectConfig} :
    c ∈ lists.flatten ↔ ∃ r, .ok r ∈ sources ∧ ∃ e p metrics, Declared tools r e p metrics ∧
      c = (toConfig e p).withMetrics metrics := by
  rw [List.mem_flatten]
  constructor
  · rintro ⟨l, hl, hc⟩
    obtain ⟨source, hsource, r, rfl, hread⟩ := exists_mem_left hlists hl
    exact ⟨r, hsource, (mem_of_readConfig hread).mp hc⟩
  · rintro ⟨r, hr, hc⟩
    obtain ⟨l, hl, r', heq, hread⟩ := exists_mem_right hlists hr
    obtain rfl := Except.ok.inj heq
    exact ⟨l, hl, (mem_of_readConfig hread).mpr hc⟩

/-- The configs of a run, if the ids that are declared fit. -/
theorem mergeable_of_parseConfigFromFlags {others : OtherValidators} (hwhole : flags.Whole)
    (hparse : parseConfigFromFlags tools flags = .ok configs)
    (hvalid : validateProjectConfigs others configs = .ok ())
    (hfits : ∀ r, .ok r ∈ flags.sources tools → IdsFit tools r) : Mergeable configs := by
  obtain ⟨lists, hlists, hapart, rfl⟩ := sources_of_parseConfigFromFlags hwhole hparse
  have hseparate : Separate lists.flatten := by
    refine separate_flatten (fun l hl => ?_) hapart
    obtain ⟨source, hsource, r, rfl, hread⟩ := exists_mem_left hlists hl
    exact separate_of_readConfig hread (hfits r hsource)
  exact ⟨fun c hc => (of_validateProjectConfigs hvalid hc).1, hseparate.ids, hseparate.name,
    fun c hc => (of_validateProjectConfigs hvalid hc).2.1⟩

/-- A declared project whose ids fit is served by the context of its config. -/
theorem Declared.serves {others : OtherValidators} {r : ConfigReader} {e : CustomerEntry}
    {p : ProjectEntry} {metrics : List RegistryMetric} (h : Declared tools r e p metrics)
    (hfits : IdsFit tools r) (hvalid : validateProjectConfigs others configs = .ok ())
    (hc : (toConfig e p).withMetrics metrics ∈ configs) : Stored (toConfig e p) (e, p) ∧
      Serves (ProjectContext.new (toConfig e p).customerId e.name
        (v1ProjectConfig ((toConfig e p).withMetrics metrics))) e p metrics := by
  obtain ⟨hcustomer, hproject⟩ := hfits e p metrics h
  obtain ⟨content, y, -, -, customer, -, hreads⟩ := h.listed
  obtain ⟨item, -, hdeclares⟩ := exists_mem_left hreads.projects h.project
  have hstored : Stored (toConfig e p) (e, p) :=
    ⟨(U32.ofInt_eq_iff hreads.nonneg).mpr hcustomer,
      (U32.ofInt_eq_iff hdeclares.pos.le).mpr hproject⟩
  exact ⟨hstored, serves_new hstored (consistent_v1ProjectConfig h.metrics hvalid hc)⟩

/-- Ids that fit let the client find what is declared. -/
theorem findsDeclared_of_idsFit {others : OtherValidators} (hwhole : flags.Whole)
    (hparse : parseConfigFromFlags tools flags = .ok configs)
    (hvalid : validateProjectConfigs others configs = .ok ())
    (hfits : ∀ r, .ok r ∈ flags.sources tools → IdsFit tools r) :
    FindsDeclared tools (flags.sources tools)
      (ProjectContextFactory.new (mergeConfigs configs)) := by
  have hmergeable := mergeable_of_parseConfigFromFlags hwhole hparse hvalid hfits
  obtain ⟨lists, hlists, -, rfl⟩ := sources_of_parseConfigFromFlags hwhole hparse
  have hmem {c : ProjectConfig} := mem_configs_iff hlists (c := c)
  refine ⟨fun r hr e p metrics hdeclared => ?_, fun customerId projectId context hcontext => ?_⟩
  · have hc : (toConfig e p).withMetrics metrics ∈ lists.flatten :=
      hmem.mpr ⟨r, hr, e, p, metrics, hdeclared, rfl⟩
    obtain ⟨hstored, hserved⟩ := hdeclared.serves (hfits r hr) hvalid hc
    refine ⟨_, (newProjectContext_mergeConfigs_iff hmergeable).mpr ⟨_, hc, ?_, ?_, rfl⟩, ?_⟩
    · exact (Int.toNat_natCast _).symm.trans (congrArg Int.toNat hstored.customerId)
    · exact (Int.toNat_natCast _).symm.trans (congrArg Int.toNat hstored.projectId)
    · rw [← hstored.customerId, Int.toNat_natCast]
      exact hserved
  · obtain ⟨c, hc, rfl, rfl, rfl⟩ := (newProjectContext_mergeConfigs_iff hmergeable).mp hcontext
    obtain ⟨r, hr, e, p, metrics, hdeclared, rfl⟩ := hmem.mp hc
    obtain ⟨hstored, hserved⟩ := hdeclared.serves (hfits r hr) hvalid hc
    exact ⟨r, hr, e, p, metrics, hdeclared, hstored.customerId.symm, hstored.projectId.symm,
      hserved⟩

/-- **From the files to the client.** A run of the config parser over directories or repositories
succeeds, and the registry is validated. The client finds exactly the projects that are declared,
with their names and their metrics, if and only if their ids fit into 32 bits. -/
theorem newProjectContext_declared_iff {others : OtherValidators} (hwhole : flags.Whole)
    (hparse : parseConfigFromFlags tools flags = .ok configs)
    (hvalid : validateProjectConfigs others configs = .ok ()) :
    FindsDeclared tools (flags.sources tools) (ProjectContextFactory.new (mergeConfigs configs)) ↔
      ∀ r, .ok r ∈ flags.sources tools → IdsFit tools r := by
  refine ⟨fun hfinds r hr e p metrics hdeclared => ?_,
    findsDeclared_of_idsFit hwhole hparse hvalid⟩
  -- The ids of a context that is found are those of a config, which are stored in 32 bits.
  obtain ⟨lists, hlists, -, rfl⟩ := sources_of_parseConfigFromFlags hwhole hparse
  obtain ⟨context, hcontext, -⟩ := hfinds.found r hr e p metrics hdeclared
  obtain ⟨c, hc, hcustomer, hproject⟩ := exists_config_of_newProjectContext
    (fun c hc => (of_validateProjectConfigs hvalid hc).1) hcontext
  obtain ⟨-, -, e', p', metrics', -, rfl⟩ := (mem_configs_iff hlists).mp hc
  have hcustomer : U32.ofInt e'.id = e.id.toNat := hcustomer
  have hproject : U32.ofInt p'.id = p.id.toNat := hproject
  rw [U32.ofInt, U32.size] at hcustomer hproject
  constructor
  · show e.id < 2 ^ 32
    omega
  · show p.id < 2 ^ 32
    omega

theorem five_lt_size : 5 < U32.size := by decide

/-- The metric in the file of a project. -/
def fileMetric : ConfigValidator.MetricDefinition :=
  eventCountMetric 5 five_lt_size

/-- The metric, with the ids of the project. -/
def projectMetric : ConfigValidator.MetricDefinition :=
  { fileMetric with
    customerId := 20
    projectId := 10 }

theorem hasIntBuckets_fileMetric :
    fileMetric.hasIntBuckets = (none : Option Config.IntegerBuckets).isSome := rfl

theorem reports_fileMetric :
    fileMetric.reports = ([] : List RegistryReport).map RegistryReport.toReportDefinition := rfl

theorem customerId_ledger : -2 ^ 63 ≤ (20 : ℤ) ∧ (20 : ℤ) < 2 ^ 63 := by decide

theorem projectId_ledger : -2 ^ 63 ≤ (10 : ℤ) ∧ (10 : ℤ) < 2 ^ 63 := by decide

/-- A directory with one project. -/
def ledgerTools : Tools where
  files :=
    { stat := fun _ => .ok .dir
      readFile := fun path => .ok path
      join := "/".intercalate }
  cloneRepo := fun repoUrl => .error (.errorf "Error cloning repository (%v)" [.text repoUrl])
  unmarshalCustomers := fun _ => .ok
    [customerYaml "fuchsia" ⟨20, customerId_ledger⟩ (.list [ledgerYaml ⟨10, projectId_ledger⟩])]
  unmarshalMetrics := fun _ => .ok
    [{ toMetricDefinition := fileMetric
       hasIntBuckets_eq := hasIntBuckets_fileMetric
       reports_eq := reports_fileMetric }]

/-- The flags for this directory. -/
def ledgerFlags : Flags where
  configDirs := ["registry"]

/-- The metric of the project. -/
def ledgerMetric : RegistryMetric where
  toMetricDefinition := projectMetric
  hasIntBuckets_eq := hasIntBuckets_fileMetric
  reports_eq := reports_fileMetric

/-- What is read from the directory. -/
def ledgerConfig : ProjectConfig :=
  (toConfig ⟨"fuchsia", 20, []⟩ ⟨"ledger", 10, "ben"⟩).withMetrics [ledgerMetric]

theorem validate_ledgerConfig :
    validateProjectConfigs metadataValidators [ledgerConfig] = .ok () := by
  rfl

/-- The ids of the directory fit. -/
theorem idsFit_ledger (r : ConfigReader) : IdsFit ledgerTools r := by
  intro e p metrics hdeclared
  obtain ⟨content, y, -, hy, customer, hcustomer, hreads⟩ := hdeclared.listed
  obtain rfl := Except.ok.inj hy
  obtain rfl := List.mem_singleton.mp hcustomer
  obtain rfl := rightUnique_reads hreads
    (reads_customerYaml (by decide) (by decide) (by decide) (by decide))
  obtain rfl := List.mem_singleton.mp hdeclared.project
  exact ⟨by decide, by decide⟩

/-- The project is found. -/
theorem newProjectContext_declared_iff_ledger :
    FindsDeclared ledgerTools (ledgerFlags.sources ledgerTools)
      (ProjectContextFactory.new (mergeConfigs [ledgerConfig])) :=
  (newProjectContext_declared_iff (.inr ⟨rfl, by decide⟩) rfl validate_ledgerConfig).mpr
    fun r _ => idsFit_ledger r

/-! ### One project -/

/-- Reading one project of a directory gives what reading all of them gives. -/
theorem readProjectConfigFromDir_eq_ok_iff {dir : String} {r : ConfigReader}
    {l : List ProjectConfig} (hreader : newConfigDirReader tools.files dir = .ok r)
    (hread : readConfig tools r = .ok l) (hseparate : Separate l) {customerId projectId : ℕ}
    {c : ProjectConfig} :
    readProjectConfigFromDir tools dir customerId projectId = .ok c ↔
      c ∈ l ∧ c.customerId = customerId ∧ c.projectId = projectId := by
  obtain ⟨y, entries, hlists, hall⟩ := readConfig_eq_ok_iff.mp hread
  have hlist : readProjectsList tools r = .ok (toConfigs entries) :=
    readProjectsList_eq_ok_iff.mpr ⟨y, entries, hlists, rfl⟩
  have hids := hseparate.ids
  rw [← map_ids_withMetrics hall] at hids
  rw [readProjectConfigFromDir, hreader, ok_bind, hlist, ok_bind]
  constructor
  · intro h
    split at h
    · rename_i config hfind
      have hmem := List.mem_of_find?_eq_some hfind
      have hfound : config.customerId = customerId ∧ config.projectId = projectId := by
        simpa using List.find?_some hfind
      rw [readListedConfig, wrapError_eq_ok, readProjectConfig_eq_ok_iff] at h
      obtain ⟨metrics, hmetrics, rfl⟩ := h
      obtain ⟨c', hc', metrics', hmetrics', rfl⟩ := exists_mem_right hall hmem
      rw [hmetrics.unique hmetrics']
      exact ⟨hc', hfound⟩
    · cases h
  · rintro ⟨hc, rfl, rfl⟩
    obtain ⟨config, hmem, metrics, hmetrics, rfl⟩ := exists_mem_left hall hc
    cases hfind : (toConfigs entries).find? fun config' =>
        config'.customerId = (config.withMetrics metrics).customerId ∧
          config'.projectId = (config.withMetrics metrics).projectId with
    | none =>
      have hne := List.find?_eq_none.mp hfind config hmem
      exact absurd (decide_eq_true ⟨rfl, rfl⟩) hne
    | some config' =>
      have hfound : config'.customerId = (config.withMetrics metrics).customerId ∧
          config'.projectId = (config.withMetrics metrics).projectId := by
        simpa using List.find?_some hfind
      obtain rfl := List.inj_on_of_nodup_map hids (List.mem_of_find?_eq_some hfind) hmem
        (Prod.ext hfound.1 hfound.2)
      exact wrapError_eq_ok.mpr (readProjectConfig_eq_ok_iff.mpr ⟨metrics, hmetrics, rfl⟩)

/-- The flags for one project of a directory. -/
def selectFlags (dir : String) (customerId projectId : GoInt) : Flags where
  configDirs := [dir]
  customerId := customerId
  projectId := projectId

theorem parseConfigFromFlags_selectFlags_iff {dir : String} {customerId projectId : GoInt}
    (hcustomer : 0 ≤ customerId.1) (hproject : 0 ≤ projectId.1) :
    parseConfigFromFlags tools (selectFlags dir customerId projectId) = .ok configs ↔
      ∃ c, readProjectConfigFromDir tools dir (U32.ofInt customerId.1) (U32.ofInt projectId.1) =
        .ok c ∧ configs = [c] := by
  have hflags : checkFlags (selectFlags dir customerId projectId) = .ok () := by
    simp [checkFlags, selectFlags, require, bind, Except.bind]
  rw [parseConfigFromFlags, hflags, ok_bind]
  dsimp only
  rw [if_neg (by simp [selectFlags]), if_neg (by simp [selectFlags]),
    if_pos ⟨hcustomer, hproject⟩, readAll_eq_ok_iff]
  simp only [selectFlags, List.forall₂_cons_left_iff, List.forall₂_nil_left_iff, bind_eq_ok,
    pure_eq_ok]
  constructor
  · rintro ⟨lists, ⟨l, lists', ⟨c, hc, rfl⟩, rfl, rfl⟩, -, rfl⟩
    exact ⟨c, hc, rfl⟩
  · rintro ⟨c, hc, rfl⟩
    exact ⟨[[c]], ⟨[c], [], ⟨c, hc, rfl⟩, rfl, rfl⟩, List.pairwise_singleton _ _, rfl⟩

/-- The registry of one project. -/
theorem mergeConfigs_singleton {c : ProjectConfig} (hversion : c.cobaltVersion = .CobaltVersion1) :
    mergeConfigs [c] = ⟨[⟨c.customerName, c.customerId, [v1ProjectConfig c]⟩]⟩ := by
  rw [mergeConfigs, List.foldl_cons, List.foldl_nil, mergeStep, if_neg (not_not.mpr hversion)]
  dsimp only
  rw [if_pos (AList.lookup_empty _)]
  dsimp only
  rw [AList.lookup_insert]
  rfl

/-- **A registry that is made for one project** of a directory has the same project context for it
as the registry of all projects, and has none where that registry has none. -/
theorem takeSingleProjectContext_selected {others : OtherValidators} {dir : String}
    (hparse : parseConfigFromFlags tools { configDirs := [dir] } = .ok configs)
    (hvalid : validateProjectConfigs others configs = .ok ())
    (hfits : ∀ r, newConfigDirReader tools.files dir = .ok r → IdsFit tools r)
    {customerId projectId : GoInt} (hcustomer : 0 ≤ customerId.1) (hproject : 0 ≤ projectId.1)
    {context : ProjectContext} :
    (ProjectContextFactory.new (mergeConfigs configs)).newProjectContext
        (U32.ofInt customerId.1) (U32.ofInt projectId.1) = some context ↔
      ∃ selected, parseConfigFromFlags tools (selectFlags dir customerId projectId) = .ok selected ∧
        (ProjectContextFactory.new (mergeConfigs selected)).takeSingleProjectContext =
          some (some context, ⟨none⟩) := by
  obtain ⟨lists, hlists, -, rfl⟩ := sources_of_parseConfigFromFlags (.inr ⟨rfl, by simp⟩) hparse
  obtain ⟨l, lists, ⟨r, hreader, hread⟩, hnil, rfl⟩ := List.forall₂_cons_left_iff.mp hlists
  obtain rfl := List.forall₂_nil_left_iff.mp hnil
  rw [List.flatten_singleton] at hvalid ⊢
  have hseparate := separate_of_readConfig hread (hfits r hreader)
  have hversion (c : ProjectConfig) (hc : c ∈ l) := (of_validateProjectConfigs hvalid hc).1
  have hmergeable : Mergeable l := ⟨hversion, hseparate.ids, hseparate.name,
    fun c hc => (of_validateProjectConfigs hvalid hc).2.1⟩
  have hselected {c : ProjectConfig} (hc : c ∈ l) :
      (ProjectContextFactory.new (mergeConfigs [c])).takeSingleProjectContext =
        some (some (ProjectContext.new c.customerId c.customerName (v1ProjectConfig c)),
          ⟨none⟩) := by
    rw [mergeConfigs_singleton (hversion c hc)]
    exact ProjectContextFactory.takeSingleProjectContext_single rfl rfl
  rw [newProjectContext_mergeConfigs_iff hmergeable]
  simp only [parseConfigFromFlags_selectFlags_iff hcustomer hproject,
    readProjectConfigFromDir_eq_ok_iff hreader hread hseparate]
  constructor
  · rintro ⟨c, hc, hid, hid', rfl⟩
    exact ⟨[c], ⟨c, ⟨hc, hid, hid'⟩, rfl⟩, hid ▸ hselected hc⟩
  · rintro ⟨selected, ⟨c, ⟨hc, hid, hid'⟩, rfl⟩, htaken⟩
    rw [hselected hc, Option.some_inj, Prod.mk.injEq, Option.some_inj] at htaken
    exact ⟨c, hc, hid, hid', hid ▸ htaken.1.symm⟩

/-- The project of the directory is taken. -/
theorem takeSingleProjectContext_selected_ledger :
    ∃ selected, parseConfigFromFlags ledgerTools
        (selectFlags "registry" ⟨20, by decide⟩ ⟨10, by decide⟩) = .ok selected ∧
      (ProjectContextFactory.new (mergeConfigs selected)).takeSingleProjectContext =
        some (some (ProjectContext.new 20 "fuchsia" (v1ProjectConfig ledgerConfig)), ⟨none⟩) := by
  have hmergeable : Mergeable [ledgerConfig] :=
    ⟨List.forall_mem_singleton.mpr rfl, List.nodup_singleton _,
      List.forall_mem_singleton.mpr (List.forall_mem_singleton.mpr fun _ => rfl),
      List.forall_mem_singleton.mpr (List.nodup_singleton _)⟩
  have hfound := (newProjectContext_mergeConfigs_iff hmergeable).mpr
    ⟨ledgerConfig, List.mem_singleton_self _, rfl, rfl, rfl⟩
  exact (takeSingleProjectContext_selected rfl validate_ledgerConfig
    (fun r _ => idsFit_ledger r) (by decide) (by decide)).mp hfound

end Cobalt.ConfigParser
