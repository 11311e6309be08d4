import Cobalt.Lib.Checks
import Cobalt.Registry.CobaltRegistry

/-!
# The validation of changes to the registry

Before a change to the registry is merged, the registry without it is compared with the registry
with it. Customers, projects and metrics are matched by their names, and the dimensions of a metric
by their positions; what is in one of the registries only is not compared. Metrics for debugging are
skipped.

For a dimension that both metrics have, no event code may be removed, and for metrics of type
`EVENT_OCCURRED` the `max_event_code` may not change. A metric that is logged locally is refused,
but only where the loop over the metrics of a project gets to it.

The names are collected in maps, so of several entries with one name the last one counts. The order
in which such a map is visited is a parameter: it decides which error is found first.

## Main definitions

* `compareRegistries`, `compareCustomers`, `compareProjects`, `compareMetrics`, `compareDimensions`.
* `findMetric`: a metric of a registry by its three names.
* `Visited`: the metrics of the new registry that the loops get to.

## Main results

* `accepted_iff_of_compareRegistries`: which event codes the clients may go on to log after a
  change.
* `no_alsoLogLocally_iff`: when a change that is accepted has no metric that is logged locally.
-/

namespace Cobalt.ConfigChangeValidator

open Config

/-! ### The comparison -/

/-- How a comparison fails: with an error, or because a pointer that is `nil` is followed. -/
inductive Failure
  | error (message : String)
  | nilPointer
  deriving DecidableEq, Repr

/-- `fmt.Errorf`, with the text that comes before the error. -/
def wrap (text : String) : Except Failure Unit → Except Failure Unit
  | .error (.error message) => .error (.error (text ++ message))
  | result => result

/-- `ReleaseStage_DEBUG`. -/
def debugStage : ℕ := 10

/-- A metric for debugging. A metric without metadata is not. -/
def isDebug (metric : ConfigValidator.MetricDefinition) : Bool :=
  metric.metaData.any fun metaData => metaData.maxReleaseStage ≤ debugStage

/-- The map from the names to the entries of a list. -/
def named {α : Type} (name : α → String) (l : List α) : ProtoMap String α :=
  ProtoMap.ofPairs (l.map fun a => (name a, a))

/-- The map from the positions to the entries of a list. -/
def indexed {α : Type} (l : List α) : ProtoMap ℕ α :=
  ProtoMap.ofPairs (l.zipIdx.map Prod.swap)

variable (order : MapOrder)

/-- The loop that the comparisons of registries, customers and projects share: the entries that have
a name in common are compared. -/
def compareNamed {α : Type} (what : String) (name : α → String)
    (compare : α → α → Except Failure Unit) (old new : List α) : Except Failure Unit :=
  forM (order.range (named name old)) fun ⟨key, a⟩ =>
    match (named name new).lookup key with
    | none => .ok ()
    | some b => wrap ("for " ++ what ++ " named '" ++ key ++ "': ") (compare a b)

/-- `CompareDimensions`. -/
def compareDimensions (oldDimension newDimension : ConfigValidator.MetricDimension)
    (ignoreCompatChecks : Bool) : Except Failure Unit :=
  forM (order.range oldDimension.eventCodes) fun ⟨code, oldName⟩ =>
    if newDimension.eventCodes.lookup code = none ∧ ignoreCompatChecks = false then
      .error (.error
        ("removing an event code is not allowed: " ++ toString code ++ ": " ++ oldName))
    else .ok ()

/-- `CompareMetrics`. -/
def compareMetrics (oldMetric newMetric : ConfigValidator.MetricDefinition)
    (ignoreCompatChecks : Bool) : Except Failure Unit :=
  if isDebug oldMetric then .ok ()
  else if isDebug newMetric then .ok ()
  else forM (order.range (indexed oldMetric.metricDimensions)) fun ⟨ix, oldDimension⟩ =>
    match (indexed newMetric.metricDimensions).lookup ix with
    | none => .ok ()
    | some newDimension => do
      wrap ("for dimension index '" ++ toString ix ++ "': ")
        (compareDimensions order oldDimension newDimension ignoreCompatChecks)
      if (oldMetric.metricType = .EVENT_OCCURRED ∨ newMetric.metricType = .EVENT_OCCURRED) ∧
          oldDimension.maxEventCode ≠ newDimension.maxEventCode ∧ ignoreCompatChecks = false then
        .error (.error ("for dimension index '" ++ toString ix ++
          "': changing max_event_code is not allowed for EVENT_OCCURRED metrics"))
      else .ok ()

/-- The check of one metric in the last loop of `CompareProjects`. -/
def alsoLogLocallyError (newMetric : ConfigValidator.MetricDefinition) : Except Failure Unit :=
  match newMetric.metaData with
  | none => .error .nilPointer
  | some metaData =>
    if metaData.alsoLogLocally then
      .error (.error ("The parameter also_log_locally is intended only for use on a development " ++
        "machine. This change may not be committed to the central Cobalt metrics registry. " ++
        "Metric `" ++ newMetric.metricName ++ "."))
    else .ok ()

/-- `CompareProjects`. -/
def compareProjects (oldCfg newCfg : ProjectConfig) (ignoreCompatChecks : Bool) :
    Except Failure Unit := do
  compareNamed order "metric" ConfigValidator.MetricDefinition.metricName
    (compareMetrics order · · ignoreCompatChecks) oldCfg.metrics newCfg.metrics
  forM (order.range (named ConfigValidator.MetricDefinition.metricName newCfg.metrics))
    fun ⟨_, newMetric⟩ => alsoLogLocallyError newMetric

/-- `CompareCustomers`. -/
def compareCustomers (oldCfg newCfg : CustomerConfig) (ignoreCompatChecks : Bool) :
    Except Failure Unit :=
  compareNamed order "project" ProjectConfig.projectName
    (compareProjects order · · ignoreCompatChecks) oldCfg.projects newCfg.projects

/-- `CompareRegistries`. -/
def compareRegistries (oldRegistry newRegistry : CobaltRegistry) (ignoreCompatChecks : Bool) :
    Except Failure Unit :=
  compareNamed order "customer" CustomerConfig.customerName
    (compareCustomers order · · ignoreCompatChecks) oldRegistry.customers newRegistry.customers

/-! ### What a comparison without error has seen -/

variable {order}

@[simp] theorem wrap_eq_ok {text : String} {result : Except Failure Unit} :
    wrap text result = .ok () ↔ result = .ok () := by
  rcases result with (_ | _) | _ <;> simp [wrap]

/-- The map of the positions finds what the list has there. -/
theorem lookup_indexed {α : Type} (l : List α) (i : ℕ) : (indexed l).lookup i = l[i]? := by
  have hnodup : ((l.zipIdx.map Prod.swap).map Prod.fst).Nodup := by
    rw [List.map_map, show Prod.fst ∘ Prod.swap = (Prod.snd : α × ℕ → ℕ) from rfl,
      List.zipIdx_map_snd]
    exact List.nodup_range'
  ext a
  rw [indexed, ProtoMap.lookup_ofPairs_iff hnodup, List.mem_map]
  constructor
  · rintro ⟨⟨b, j⟩, hmem, heq⟩
    obtain ⟨rfl, rfl⟩ := Prod.mk.inj heq
    exact List.mem_zipIdx_iff_getElem?.mp hmem
  · exact fun h => ⟨(a, i), List.mem_zipIdx_iff_getElem?.mpr h, rfl⟩

/-- A loop over the entries of a map succeeds if and only if the body does for every entry. -/
theorem forM_range_eq_ok {K V : Type} [DecidableEq K] {m : ProtoMap K V}
    {body : (_ : K) × V → Except Failure Unit} :
    forM (order.range m) body = .ok () ↔
      ∀ k v, m.lookup k = some v → body ⟨k, v⟩ = .ok () := by
  rw [Checks.forM_eq_ok]
  exact ⟨fun h k v hkv => h ⟨k, v⟩ (MapOrder.mem_range.mpr hkv),
    fun h e he => h e.1 e.2 (MapOrder.mem_range.mp he)⟩

/-- Entries with a common name are compared. -/
theorem compareNamed_eq_ok {α : Type} {what : String} {name : α → String}
    {compare : α → α → Except Failure Unit} {old new : List α} :
    compareNamed order what name compare old new = .ok () ↔
      ∀ key a b, (named name old).lookup key = some a → (named name new).lookup key = some b →
        compare a b = .ok () := by
  rw [compareNamed, forM_range_eq_ok]
  refine forall_congr' fun key => forall_congr' fun a => ?_
  rw [forall_comm]
  refine forall_congr' fun _ => ?_
  dsimp only
  cases (named name new).lookup key with
  | none => simp
  | some b => simp

theorem compareDimensions_eq_ok {oldDimension newDimension : ConfigValidator.MetricDimension} :
    compareDimensions order oldDimension newDimension false = .ok () ↔
      ∀ code ∈ oldDimension.eventCodes.keys, code ∈ newDimension.eventCodes.keys := by
  rw [compareDimensions, forM_range_eq_ok]
  simp only [Checks.ite_error_eq_ok, and_true, AList.lookup_eq_none, not_not, ← AList.mem_keys]
  constructor
  · intro h code hcode
    obtain ⟨oldName, hname⟩ := Option.isSome_iff_exists.mp (AList.lookup_isSome.mpr hcode)
    exact h code oldName hname
  · intro h code oldName hname
    exact h code (AList.lookup_isSome.mp (Option.isSome_iff_exists.mpr ⟨oldName, hname⟩))

/-- What is kept of a dimension that both metrics have. -/
structure DimensionKept (oldMetric newMetric : ConfigValidator.MetricDefinition)
    (oldDimension newDimension : ConfigValidator.MetricDimension) : Prop where
  eventCodes : ∀ code ∈ oldDimension.eventCodes.keys, code ∈ newDimension.eventCodes.keys
  maxEventCode : oldMetric.metricType = .EVENT_OCCURRED ∨ newMetric.metricType = .EVENT_OCCURRED →
    oldDimension.maxEventCode = newDimension.maxEventCode

/-- Metrics that are not for debugging. -/
theorem compareMetrics_eq_ok {oldMetric newMetric : ConfigValidator.MetricDefinition}
    (hold : isDebug oldMetric = false) (hnew : isDebug newMetric = false) :
    compareMetrics order oldMetric newMetric false = .ok () ↔
      ∀ (ix : ℕ) oldDimension newDimension, oldMetric.metricDimensions[ix]? = some oldDimension →
        newMetric.metricDimensions[ix]? = some newDimension →
        DimensionKept oldMetric newMetric oldDimension newDimension := by
  rw [compareMetrics, hold, hnew, if_neg Bool.false_ne_true, if_neg Bool.false_ne_true,
    forM_range_eq_ok]
  simp only [lookup_indexed]
  refine forall_congr' fun ix => forall_congr' fun oldDimension => ?_
  rw [forall_comm]
  refine forall_congr' fun _ => ?_
  cases newMetric.metricDimensions[ix]? with
  | none => simp
  | some newDimension =>
    simp only [Checks.check_bind_eq_ok, wrap_eq_ok, compareDimensions_eq_ok, Checks.ite_error_eq_ok,
      and_true, Option.some.injEq, forall_eq']
    constructor
    · rintro ⟨hcodes, hmax⟩
      exact ⟨hcodes, fun htype => not_not.mp fun hne => hmax ⟨htype, hne⟩⟩
    · rintro ⟨hcodes, hmax⟩
      exact ⟨hcodes, fun h => h.2 (hmax h.1)⟩

theorem alsoLogLocallyError_eq_ok {newMetric : ConfigValidator.MetricDefinition} :
    alsoLogLocallyError newMetric = .ok () ↔
      ∃ metaData, newMetric.metaData = some metaData ∧ metaData.alsoLogLocally = false := by
  rw [alsoLogLocallyError]
  cases newMetric.metaData with
  | none => simp
  | some metaData =>
    simp only [Checks.ite_error_eq_ok, Bool.not_eq_true, Option.some.injEq, exists_eq_left']

theorem compareProjects_eq_ok {oldCfg newCfg : ProjectConfig} {ignoreCompatChecks : Bool} :
    compareProjects order oldCfg newCfg ignoreCompatChecks = .ok () ↔
      (∀ key oldMetric newMetric,
        (named ConfigValidator.MetricDefinition.metricName oldCfg.metrics).lookup key =
          some oldMetric →
        (named ConfigValidator.MetricDefinition.metricName newCfg.metrics).lookup key =
          some newMetric →
        compareMetrics order oldMetric newMetric ignoreCompatChecks = .ok ()) ∧
      ∀ key newMetric,
        (named ConfigValidator.MetricDefinition.metricName newCfg.metrics).lookup key =
          some newMetric → alsoLogLocallyError newMetric = .ok () := by
  rw [compareProjects, Checks.check_bind_eq_ok, compareNamed_eq_ok, forM_range_eq_ok]

/-- The project of a registry with these names. -/
def findProject (registry : CobaltRegistry) (customerName projectName : String) :
    Option ProjectConfig :=
  ((named CustomerConfig.customerName registry.customers).lookup customerName).bind fun customer =>
    (named ProjectConfig.projectName customer.projects).lookup projectName

/-- The metric of a registry with these names. -/
def findMetric (registry : CobaltRegistry) (customerName projectName metricName : String) :
    Option ConfigValidator.MetricDefinition :=
  (findProject registry customerName projectName).bind fun project =>
    (named ConfigValidator.MetricDefinition.metricName project.metrics).lookup metricName

variable {oldRegistry newRegistry : CobaltRegistry} {ignoreCompatChecks : Bool}

/-- Projects with common names are compared. -/
theorem compareRegistries_eq_ok :
    compareRegistries order oldRegistry newRegistry ignoreCompatChecks = .ok () ↔
      ∀ customerName projectName oldProject newProject,
        findProject oldRegistry customerName projectName = some oldProject →
        findProject newRegistry customerName projectName = some newProject →
        compareProjects order oldProject newProject ignoreCompatChecks = .ok () := by
  simp only [compareRegistries, compareCustomers, compareNamed_eq_ok, findProject,
    Option.bind_eq_some_iff]
  constructor
  · rintro h customerName projectName oldProject newProject ⟨oldCustomer, hold, hold'⟩
      ⟨newCustomer, hnew, hnew'⟩
    exact h _ _ _ hold hnew _ _ _ hold' hnew'
  · intro h customerName oldCustomer newCustomer hold hnew projectName oldProject newProject
      hold' hnew'
    exact h _ _ _ _ ⟨oldCustomer, hold, hold'⟩ ⟨newCustomer, hnew, hnew'⟩

/-- Metrics with common names are compared. -/
theorem compareMetrics_of_compareRegistries
    (h : compareRegistries order oldRegistry newRegistry ignoreCompatChecks = .ok ())
    {customerName projectName metricName : String}
    {oldMetric newMetric : ConfigValidator.MetricDefinition}
    (hold : findMetric oldRegistry customerName projectName metricName = some oldMetric)
    (hnew : findMetric newRegistry customerName projectName metricName = some newMetric) :
    compareMetrics order oldMetric newMetric ignoreCompatChecks = .ok () := by
  obtain ⟨oldProject, hold, hold'⟩ := Option.bind_eq_some_iff.mp hold
  obtain ⟨newProject, hnew, hnew'⟩ := Option.bind_eq_some_iff.mp hnew
  have hprojects := compareRegistries_eq_ok.mp h _ _ _ _ hold hnew
  exact (compareProjects_eq_ok.mp hprojects).1 _ _ _ hold' hnew'

/-! ### What the clients may go on to log -/

/-- The event codes that a client accepts, position by position. -/
theorem validateEventCodes_eq_kOK_iff {client : Cobalt.MetricDefinition}
    {mds : List ConfigValidator.MetricDimension}
    (hclient : client.metricDimensions = mds.map ConfigValidator.MetricDimension.toClient)
    {codes : List ℕ} :
    Logger.validateEventCodes client codes = .kOK ↔
      (mds = [] ∧ codes = [0]) ∨ (codes.length ≤ mds.length ∧
        ∀ (i : ℕ) code md, codes[i]? = some code → mds[i]? = some md →
          Logger.isValidEventCode md.toClient code = true) := by
  rw [Logger.validateEventCodes_eq_kOK_iff, hclient, List.map_eq_nil_iff, List.length_map]
  refine or_congr_right (and_congr_right fun _ => ?_)
  constructor
  · intro h i code md hcode hmd
    refine h (code, md.toClient) (List.mem_of_getElem? (i := i) ?_)
    rw [List.getElem?_zip_eq_some]
    exact ⟨hcode, by rw [List.getElem?_map, hmd, Option.map_some]⟩
  · intro h p hp
    obtain ⟨i, hi⟩ := List.getElem?_of_mem hp
    obtain ⟨hcode, hmd⟩ := List.getElem?_zip_eq_some.mp hi
    rw [List.getElem?_map, Option.map_eq_some_iff] at hmd
    obtain ⟨md, hmd, hclient⟩ := hmd
    rw [← hclient]
    exact h i p.1 md hcode hmd

/-- The two modes of the check of an event code. -/
theorem isValidEventCode_toClient {md : ConfigValidator.MetricDimension} {code : ℕ} :
    Logger.isValidEventCode md.toClient code = true ↔
      (0 < md.maxEventCode ∧ code ≤ md.maxEventCode) ∨
        (md.maxEventCode = 0 ∧ code ∈ md.eventCodes.keys) := by
  rw [Logger.isValidEventCode, ConfigValidator.MetricDimension.toClient]
  rcases Nat.eq_zero_or_pos md.maxEventCode with hmax | hmax
  · simp [hmax]
  · simp [hmax, hmax.ne']

/-- A dimension whose `max_event_code` does not change goes on to accept its event codes. -/
theorem DimensionKept.isValidEventCode {oldMetric newMetric : ConfigValidator.MetricDefinition}
    {oldDimension newDimension : ConfigValidator.MetricDimension}
    (hkept : DimensionKept oldMetric newMetric oldDimension newDimension)
    (hmax : oldDimension.maxEventCode = newDimension.maxEventCode) {code : ℕ}
    (hvalid : Logger.isValidEventCode oldDimension.toClient code = true) :
    Logger.isValidEventCode newDimension.toClient code = true := by
  rw [isValidEventCode_toClient, ← hmax]
  exact (isValidEventCode_toClient.mp hvalid).imp_right fun h => ⟨h.1, hkept.eventCodes code h.2⟩

/-- The event codes for dimensions that are new, or have another `max_event_code` than before, are
valid for the new dimension. -/
def ValidWhereChanged (oldMetric newMetric : ConfigValidator.MetricDefinition) (codes : List ℕ) :
    Prop :=
  ∀ (i : ℕ) code newDimension, codes[i]? = some code →
    newMetric.metricDimensions[i]? = some newDimension →
    (∀ oldDimension, oldMetric.metricDimensions[i]? = some oldDimension →
      oldDimension.maxEventCode ≠ newDimension.maxEventCode) →
    Logger.isValidEventCode newDimension.toClient code = true

section Clients

variable {oldMetric newMetric : ConfigValidator.MetricDefinition}
  {oldClient newClient : Cobalt.MetricDefinition}
  (holdClient : oldClient.metricDimensions =
    oldMetric.metricDimensions.map ConfigValidator.MetricDimension.toClient)
  (hnewClient : newClient.metricDimensions =
    newMetric.metricDimensions.map ConfigValidator.MetricDimension.toClient)
  (hkept : ∀ (i : ℕ) oldDimension newDimension, oldMetric.metricDimensions[i]? = some oldDimension →
    newMetric.metricDimensions[i]? = some newDimension →
    DimensionKept oldMetric newMetric oldDimension newDimension)
  {codes : List ℕ} (haccepted : Logger.validateEventCodes oldClient codes = .kOK)
include holdClient hnewClient hkept haccepted

/-- Event codes for dimensions that were kept. -/
theorem accepted_iff_of_kept (hdimensions : min codes.length oldMetric.metricDimensions.length ≤
      newMetric.metricDimensions.length) :
    Logger.validateEventCodes newClient codes = .kOK ↔
      ValidWhereChanged oldMetric newMetric codes := by
  rw [validateEventCodes_eq_kOK_iff holdClient] at haccepted
  rw [validateEventCodes_eq_kOK_iff hnewClient]
  constructor
  · rintro (⟨hnil, -⟩ | ⟨-, hall⟩) i code newDimension hcode hnewDimension -
    · rw [hnil] at hnewDimension
      exact absurd hnewDimension (by simp)
    · exact hall i code newDimension hcode hnewDimension
  · intro hchanged
    rcases haccepted with ⟨hnil, rfl⟩ | ⟨hle, hall⟩
    · -- the zero that stands for no event code
      by_cases hnewNil : newMetric.metricDimensions = []
      · exact Or.inl ⟨hnewNil, rfl⟩
      · refine Or.inr ⟨List.length_pos_iff.mpr hnewNil, fun i code newDimension hcode hmd => ?_⟩
        exact hchanged i code newDimension hcode hmd fun _ hold => by simp [hnil] at hold
    · rw [min_eq_left hle] at hdimensions
      refine Or.inr ⟨hdimensions, fun i code newDimension hcode hnewDimension => ?_⟩
      by_contra hinvalid
      refine hinvalid (hchanged i code newDimension hcode hnewDimension fun o hold hmax => ?_)
      exact hinvalid ((hkept i o newDimension hold hnewDimension).isValidEventCode hmax
        (hall i code o hcode hold))

omit hnewClient hkept in
/-- For a metric that has dimensions nothing changes if every dimension keeps its `max_event_code`. -/
theorem validWhereChanged_of_maxEventCode_eq
    (hmax : ∀ (i : ℕ) oldDimension newDimension,
      oldMetric.metricDimensions[i]? = some oldDimension →
      newMetric.metricDimensions[i]? = some newDimension →
      oldDimension.maxEventCode = newDimension.maxEventCode)
    (hne : oldMetric.metricDimensions ≠ []) : ValidWhereChanged oldMetric newMetric codes := by
  intro i code newDimension hcode hnewDimension hchanged
  rcases (validateEventCodes_eq_kOK_iff holdClient).mp haccepted with ⟨hnil, -⟩ | ⟨hle, -⟩
  · exact absurd hnil hne
  · have hi : i < oldMetric.metricDimensions.length :=
      (List.getElem?_eq_some_iff.mp hcode).1.trans_le hle
    have hold := List.getElem?_eq_getElem hi
    exact absurd (hmax i _ newDimension hold hnewDimension) (hchanged _ hold)

end Clients

/-- **Event codes after a change.** A change is accepted, and the client accepts event codes for the
metric before it. If the metric after the change still has the dimensions that the event codes are
for, then the client goes on to accept them, up to those for dimensions that are new or have another
`max_event_code`: these have to be valid for the new dimension. If the metric had dimensions before,
there are none where no `max_event_code` changes, as for metrics of type `EVENT_OCCURRED`. -/
theorem accepted_iff_of_compareRegistries
    (h : compareRegistries order oldRegistry newRegistry false = .ok ())
    {customerName projectName metricName : String}
    {oldMetric newMetric : ConfigValidator.MetricDefinition}
    (hold : findMetric oldRegistry customerName projectName metricName = some oldMetric)
    (hnew : findMetric newRegistry customerName projectName metricName = some newMetric)
    (holdStage : isDebug oldMetric = false) (hnewStage : isDebug newMetric = false)
    {oldClient newClient : Cobalt.MetricDefinition}
    (holdClient : oldClient.metricDimensions =
      oldMetric.metricDimensions.map ConfigValidator.MetricDimension.toClient)
    (hnewClient : newClient.metricDimensions =
      newMetric.metricDimensions.map ConfigValidator.MetricDimension.toClient)
    {codes : List ℕ} (haccepted : Logger.validateEventCodes oldClient codes = .kOK)
    (hdimensions : min codes.length oldMetric.metricDimensions.length ≤
      newMetric.metricDimensions.length) :
    (Logger.validateEventCodes newClient codes = .kOK ↔
      ValidWhereChanged oldMetric newMetric codes) ∧
    ((∀ (i : ℕ) oldDimension newDimension,
        oldMetric.metricDimensions[i]? = some oldDimension →
        newMetric.metricDimensions[i]? = some newDimension →
        oldDimension.maxEventCode = newDimension.maxEventCode) →
      oldMetric.metricDimensions ≠ [] → Logger.validateEventCodes newClient codes = .kOK) ∧
    (oldMetric.metricType = .EVENT_OCCURRED ∨ newMetric.metricType = .EVENT_OCCURRED →
      oldMetric.metricDimensions ≠ [] → Logger.validateEventCodes newClient codes = .kOK) := by
  have hkept := (compareMetrics_eq_ok holdStage hnewStage).mp
    (compareMetrics_of_compareRegistries h hold hnew)
  have hiff := accepted_iff_of_kept holdClient hnewClient hkept haccepted hdimensions
  refine ⟨hiff, fun hmax hne => ?_, fun htype hne => ?_⟩
  · exact hiff.mpr (validWhereChanged_of_maxEventCode_eq holdClient haccepted hmax hne)
  · have hmax (i : ℕ) oldDimension newDimension hold hnew :=
      (hkept i oldDimension newDimension hold hnew).maxEventCode htype
    exact hiff.mpr (validWhereChanged_of_maxEventCode_eq holdClient haccepted hmax hne)

/-- A registry with one metric. -/
def oneMetricRegistry (metric : ConfigValidator.MetricDefinition) : CobaltRegistry where
  customers := [{
    customerName := "fuchsia"
    customerId := 1
    projects := [{ projectName := "ledger", projectId := 2, metrics := [metric] }] }]

/-- The `max_event_code` is raised from 50 to 100. -/
theorem accepted_iff_raised :
    Logger.validateEventCodes (ConfigValidator.eventCountClient 100) [50] = .kOK := by
  let oldMetric := ConfigValidator.eventCountMetric 50 (by decide)
  let newMetric := ConfigValidator.eventCountMetric 100 (by decide)
  have h : compareRegistries .lastFirst (oneMetricRegistry oldMetric) (oneMetricRegistry newMetric)
      false = .ok () := rfl
  have hold : findMetric (oneMetricRegistry oldMetric) "fuchsia" "ledger" "the_metric_name" =
      some oldMetric := rfl
  have hnew : findMetric (oneMetricRegistry newMetric) "fuchsia" "ledger" "the_metric_name" =
      some newMetric := rfl
  have haccepted : Logger.validateEventCodes (ConfigValidator.eventCountClient 50) [50] = .kOK := by
    decide
  refine (accepted_iff_of_compareRegistries h hold hnew rfl rfl rfl rfl haccepted
    (by decide)).1.mpr ?_
  rintro (_ | i) code newDimension hcode hnewDimension -
  · cases hcode
    cases hnewDimension
    decide
  · exact absurd hcode (by simp)

/-- A change that is accepted and refuses event codes. The `max_event_code` is lowered from 100
to 50. -/
theorem refused_of_lowered :
    compareRegistries .lastFirst
        (oneMetricRegistry (ConfigValidator.eventCountMetric 100 (by decide)))
        (oneMetricRegistry (ConfigValidator.eventCountMetric 50 (by decide))) false = .ok () ∧
      findMetric (oneMetricRegistry (ConfigValidator.eventCountMetric 100 (by decide)))
        "fuchsia" "ledger" "the_metric_name" =
          some (ConfigValidator.eventCountMetric 100 (by decide)) ∧
      findMetric (oneMetricRegistry (ConfigValidator.eventCountMetric 50 (by decide)))
        "fuchsia" "ledger" "the_metric_name" =
          some (ConfigValidator.eventCountMetric 50 (by decide)) ∧
      isDebug (ConfigValidator.eventCountMetric 100 (by decide)) = false ∧
      isDebug (ConfigValidator.eventCountMetric 50 (by decide)) = false ∧
      Logger.validateEventCodes (ConfigValidator.eventCountClient 100) [100] = .kOK ∧
      Logger.validateEventCodes (ConfigValidator.eventCountClient 50) [100] ≠ .kOK := by
  refine ⟨rfl, rfl, rfl, rfl, rfl, by decide, by decide +kernel⟩

/-! ### Metrics that are logged locally -/

/-- The metric has `also_log_locally` set. -/
def alsoLogLocally (metric : ConfigValidator.MetricDefinition) : Bool :=
  metric.metaData.any fun metaData => metaData.alsoLogLocally

/-- The last loop of `CompareProjects` gets to the metric of the new registry: the old registry has
a project with these names, and in the new registry no later entry with the same name hides the
metric, its project or its customer. -/
def Visited (oldRegistry newRegistry : CobaltRegistry) (customerName projectName : String)
    (metric : ConfigValidator.MetricDefinition) : Prop :=
  (findProject oldRegistry customerName projectName).isSome ∧
    findMetric newRegistry customerName projectName metric.metricName = some metric

theorem not_alsoLogLocally_of_visited
    (h : compareRegistries order oldRegistry newRegistry ignoreCompatChecks = .ok ())
    {customerName projectName : String} {metric : ConfigValidator.MetricDefinition}
    (hvisited : Visited oldRegistry newRegistry customerName projectName metric) :
    alsoLogLocally metric = false := by
  obtain ⟨hold, hnew⟩ := hvisited
  obtain ⟨oldProject, hold⟩ := Option.isSome_iff_exists.mp hold
  obtain ⟨newProject, hnew, hmetric⟩ := Option.bind_eq_some_iff.mp hnew
  have hprojects := compareRegistries_eq_ok.mp h _ _ _ _ hold hnew
  have hchecked := (compareProjects_eq_ok.mp hprojects).2 _ _ hmetric
  obtain ⟨metaData, hsome, hfalse⟩ := alsoLogLocallyError_eq_ok.mp hchecked
  rw [alsoLogLocally, hsome, Option.any_some, hfalse]

/-- **No metric that is logged locally.** A change that is accepted leaves no metric with
`also_log_locally` in the new registry if and only if there is none among the metrics that the loops
do not get to. -/
theorem no_alsoLogLocally_iff
    (h : compareRegistries order oldRegistry newRegistry ignoreCompatChecks = .ok ()) :
    (∀ customer ∈ newRegistry.customers, ∀ project ∈ customer.projects,
      ∀ metric ∈ project.metrics, alsoLogLocally metric = false) ↔
    ∀ customer ∈ newRegistry.customers, ∀ project ∈ customer.projects,
      ∀ metric ∈ project.metrics,
        ¬ Visited oldRegistry newRegistry customer.customerName project.projectName metric →
        alsoLogLocally metric = false := by
  constructor
  · exact fun hnone customer hcustomer project hproject metric hmetric _ =>
      hnone customer hcustomer project hproject metric hmetric
  · intro hnone customer hcustomer project hproject metric hmetric
    by_cases hvisited :
        Visited oldRegistry newRegistry customer.customerName project.projectName metric
    · exact not_alsoLogLocally_of_visited h hvisited
    · exact hnone customer hcustomer project hproject metric hmetric hvisited

/-- The registry does not change. -/
theorem no_alsoLogLocally_unchanged :
    compareRegistries .lastFirst
        (oneMetricRegistry (ConfigValidator.eventCountMetric 50 (by decide)))
        (oneMetricRegistry (ConfigValidator.eventCountMetric 50 (by decide))) false = .ok () ∧
      ∀ customer ∈ (oneMetricRegistry (ConfigValidator.eventCountMetric 50 (by decide))).customers,
        ∀ project ∈ customer.projects, ∀ metric ∈ project.metrics,
          alsoLogLocally metric = false := by
  let registry := oneMetricRegistry (ConfigValidator.eventCountMetric 50 (by decide))
  have h : compareRegistries .lastFirst registry registry false = .ok () := rfl
  refine ⟨h, (no_alsoLogLocally_iff h).mpr ?_⟩
  intro customer hcustomer project hproject metric hmetric hnot
  obtain rfl := List.mem_singleton.mp hcustomer
  obtain rfl := List.mem_singleton.mp hproject
  obtain rfl := List.mem_singleton.mp hmetric
  exact absurd ⟨rfl, rfl⟩ hnot

/-- A metric that is logged locally. -/
def localMetric : ConfigValidator.MetricDefinition where
  metricName := "the_metric_name"
  id := 1
  metricType := .EVENT_COUNT
  metaData := some { maxReleaseStage := 99, alsoLogLocally := true }

/-- A new customer is not looked at, and neither is a new project of a customer. Only a metric
that is added to a project is found. -/
theorem alsoLogLocally_accepted :
    compareRegistries .lastFirst {} (oneMetricRegistry localMetric) false = .ok () ∧
      compareRegistries .lastFirst { customers := [{ customerName := "fuchsia", customerId := 1 }] }
        (oneMetricRegistry localMetric) false = .ok () ∧
      compareProjects .lastFirst { projectName := "ledger", projectId := 2 }
        { projectName := "ledger", projectId := 2, metrics := [localMetric] } false ≠ .ok () ∧
      (∃ customer ∈ (oneMetricRegistry localMetric).customers, ∃ project ∈ customer.projects,
        ∃ metric ∈ project.metrics, metric.metaData.isSome ∧ alsoLogLocally metric = true) := by
  refine ⟨rfl, rfl, ?_, ?_⟩
  · intro h
    have hchecked := (compareProjects_eq_ok.mp h).2 "the_metric_name" localMetric rfl
    obtain ⟨metaData, hsome, hfalse⟩ := alsoLogLocallyError_eq_ok.mp hchecked
    cases hsome
    exact absurd hfalse (by decide)
  · exact ⟨_, List.mem_cons_self, _, List.mem_cons_self, _, List.mem_cons_self, rfl, rfl⟩

end Cobalt.ConfigChangeValidator
