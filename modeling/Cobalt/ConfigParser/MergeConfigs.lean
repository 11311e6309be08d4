import Cobalt.ConfigParser.ProjectList
import Mathlib.Data.List.Sort

/-!
# The registry made from the projects

The configs of the projects are merged into one registry. The projects are put under the customer
that has the same id, in the order of the list, and customers, projects and metrics are then sorted
by their ids.

The ids of a list of customers are checked as they are declared, and stored in 32 bits. Two
customers whose ids differ by a multiple of `2 ^ 32` have the same id in the registry, and become
one customer there.

## Main definitions

* `mergeConfigs`, `v1ProjectConfig`, `cmpConfigEntry`.
* `Identified`: every customer and project keeps its identity in the registry.

## Main results

* `mergeConfigs_perm`: the registry has one customer for each customer that has projects, if their
  ids are distinct as they are stored.
* `identified_iff`: for which lists of customers the identities are kept.
-/

namespace Cobalt.ConfigParser

open Config

/-! ### Merging -/

/-- `sort.SliceStable`. -/
def sliceStable {α : Type} (less : α → α → Bool) (l : List α) : List α :=
  l.insertionSort fun a b => less b a = false

/-- `cmpConfigEntry`. -/
def cmpConfigEntry (a b : ConfigValidator.MetricDefinition) : Bool :=
  if a.customerId ≠ b.customerId then a.customerId < b.customerId
  else if a.projectId ≠ b.projectId then a.projectId < b.projectId
  else if a.id ≠ b.id then a.id < b.id
  else false

/-- `v1ProjectConfig`. -/
def v1ProjectConfig (c : ProjectConfig) : Config.ProjectConfig where
  projectName := c.projectName
  projectId := c.projectId
  projectContact := c.contact
  metrics := sliceStable cmpConfigEntry (c.projectConfig.getD [])

/-- The body of the first loop of `MergeConfigs`: the map from the ids of the customers to their
positions, and the customers. -/
def mergeStep (s : ProtoMap ℕ ℕ × List CustomerConfig) (c : ProjectConfig) :
    ProtoMap ℕ ℕ × List CustomerConfig :=
  if c.cobaltVersion ≠ .CobaltVersion1 then s
  else
    let s := if s.1.lookup c.customerId = none then
        (s.1.insert c.customerId s.2.length,
          s.2 ++ [{ customerName := c.customerName, customerId := c.customerId }])
      else s
    let cidx := (s.1.lookup c.customerId).getD 0
    (s.1, s.2.modify cidx fun customer =>
      { customer with projects := customer.projects ++ [v1ProjectConfig c] })

/-- The body of the last loop of `MergeConfigs`. -/
def sortProjects (customer : CustomerConfig) : CustomerConfig :=
  { customer with
    projects := sliceStable (fun a b => a.projectId < b.projectId) customer.projects }

/-- `MergeConfigs`. -/
def mergeConfigs (l : List ProjectConfig) : CobaltRegistry :=
  let customers := (l.foldl mergeStep (∅, [])).2
  { customers := (sliceStable (fun a b => a.customerId < b.customerId) customers).map sortProjects }

/-! ### What the registry has for each customer -/

/-- The customer, with its projects in the order of the list. -/
def mergedCustomer (e : CustomerEntry) : CustomerConfig where
  customerName := e.name
  customerId := U32.ofInt e.id
  projects := e.projects.map fun p => v1ProjectConfig (toConfig e p)

/-- The customers that have projects. -/
def withProjects (entries : List CustomerEntry) : List CustomerEntry :=
  entries.filter fun e => !e.projects.isEmpty

theorem modify_concat {α : Type} (l : List α) (a : α) (f : α → α) :
    (l ++ [a]).modify l.length f = l ++ [f a] := by
  induction l with
  | nil => rfl
  | cons b l ih =>
    rw [List.cons_append, List.length_cons, List.modify_succ_cons, ih, List.cons_append]

/-- A project of the customer that was added last. -/
theorem mergeStep_last {m : ProtoMap ℕ ℕ} {customers : List CustomerConfig} {e : CustomerEntry}
    {projects : List Config.ProjectConfig} (p : ProjectEntry)
    (hlast : m.lookup (U32.ofInt e.id) = some customers.length) :
    mergeStep (m, customers ++ [⟨e.name, U32.ofInt e.id, projects⟩]) (toConfig e p) =
      (m, customers ++
        [⟨e.name, U32.ofInt e.id, projects ++ [v1ProjectConfig (toConfig e p)]⟩]) := by
  have hlookup : m.lookup (toConfig e p).customerId = some customers.length := hlast
  have hversion : ¬ (toConfig e p).cobaltVersion ≠ .CobaltVersion1 := not_not.mpr rfl
  simp only [mergeStep, if_neg hversion, hlookup, reduceCtorEq, if_false, Option.getD_some,
    modify_concat]

theorem foldl_mergeStep_last {m : ProtoMap ℕ ℕ} {customers : List CustomerConfig}
    {e : CustomerEntry} (hlast : m.lookup (U32.ofInt e.id) = some customers.length) (l : List ProjectEntry)
    (projects : List Config.ProjectConfig) :
    (l.map (toConfig e)).foldl mergeStep
        (m, customers ++ [⟨e.name, U32.ofInt e.id, projects⟩]) =
      (m, customers ++ [⟨e.name, U32.ofInt e.id,
        projects ++ l.map fun p => v1ProjectConfig (toConfig e p)⟩]) := by
  induction l generalizing projects with
  | nil => rw [List.map_nil, List.foldl_nil, List.map_nil, List.append_nil]
  | cons p l ih =>
    rw [List.map_cons, List.foldl_cons, mergeStep_last p hlast, ih, List.append_assoc,
      List.singleton_append, List.map_cons]

/-- The first project of a customer adds the customer. -/
theorem mergeStep_new {m : ProtoMap ℕ ℕ} {customers : List CustomerConfig} {e : CustomerEntry}
    (p : ProjectEntry) (hnew : m.lookup (U32.ofInt e.id) = none) :
    mergeStep (m, customers) (toConfig e p) =
      (m.insert (U32.ofInt e.id) customers.length, customers ++
        [⟨e.name, U32.ofInt e.id, [v1ProjectConfig (toConfig e p)]⟩]) := by
  have hlookup : m.lookup (toConfig e p).customerId = none := hnew
  have hversion : ¬ (toConfig e p).cobaltVersion ≠ .CobaltVersion1 := not_not.mpr rfl
  simp only [mergeStep, if_neg hversion, hlookup, if_true, AList.lookup_insert, Option.getD_some,
    modify_concat, List.nil_append]
  rfl

/-- The projects of one customer are put under a customer of their own, if no other customer was
stored with its id. -/
theorem foldl_mergeStep_customer {m : ProtoMap ℕ ℕ} {customers : List CustomerConfig}
    {e : CustomerEntry} (hnew : m.lookup (U32.ofInt e.id) = none) (hne : e.projects ≠ []) :
    (e.projects.map (toConfig e)).foldl mergeStep (m, customers) =
      (m.insert (U32.ofInt e.id) customers.length, customers ++ [mergedCustomer e]) := by
  obtain ⟨p, l, hprojects⟩ := List.exists_cons_of_ne_nil hne
  rw [hprojects, List.map_cons, List.foldl_cons, mergeStep_new p hnew,
    foldl_mergeStep_last (AList.lookup_insert m), mergedCustomer, hprojects, List.map_cons,
    List.singleton_append]

/-- All customers. -/
theorem foldl_mergeStep {entries : List CustomerEntry} {m : ProtoMap ℕ ℕ}
    {customers : List CustomerConfig}
    (hids : ((withProjects entries).map fun e => U32.ofInt e.id).Nodup)
    (hnew : ∀ e ∈ withProjects entries, m.lookup (U32.ofInt e.id) = none) :
    ((toConfigs entries).foldl mergeStep (m, customers)).2 =
      customers ++ (withProjects entries).map mergedCustomer := by
  induction entries generalizing m customers with
  | nil => simp [toConfigs, withProjects]
  | cons e entries ih =>
    rw [toConfigs, List.flatMap_cons, List.foldl_append, ← toConfigs]
    by_cases hempty : e.projects = []
    · have hfilter : withProjects (e :: entries) = withProjects entries := by
        simp [withProjects, hempty]
      rw [hfilter] at hids hnew ⊢
      rw [hempty, List.map_nil, List.foldl_nil]
      exact ih hids hnew
    · have hfilter : withProjects (e :: entries) = e :: withProjects entries := by
        simp [withProjects, hempty]
      rw [hfilter] at hids hnew ⊢
      rw [List.map_cons, List.nodup_cons] at hids
      obtain ⟨he, hnew⟩ := List.forall_mem_cons.mp hnew
      rw [foldl_mergeStep_customer he hempty, ih hids.2 fun e' he' => ?_, List.map_cons,
        List.append_assoc, List.singleton_append]
      have hdiffers : U32.ofInt e'.id ≠ U32.ofInt e.id := by
        intro heq
        exact hids.1 (heq ▸ List.mem_map_of_mem he')
      rw [AList.lookup_insert_ne hdiffers, hnew e' he']

/-- The registry has one customer for each customer that has projects, if their ids are distinct
as they are stored. -/
theorem mergeConfigs_perm {entries : List CustomerEntry}
    (hids : ((withProjects entries).map fun e => U32.ofInt e.id).Nodup) :
    (mergeConfigs (toConfigs entries)).customers.Perm
      ((withProjects entries).map fun e => sortProjects (mergedCustomer e)) := by
  have hmerged : ((toConfigs entries).foldl mergeStep (∅, [])).2 =
      [] ++ (withProjects entries).map mergedCustomer := foldl_mergeStep hids fun _ _ => rfl
  rw [List.nil_append] at hmerged
  simp only [mergeConfigs, hmerged, sliceStable]
  have hsorted := (List.perm_insertionSort
    (fun a b : CustomerConfig => decide (b.customerId < a.customerId) = false)
    ((withProjects entries).map mergedCustomer)).map sortProjects
  rwa [List.map_map] at hsorted

/-! ### Identities -/

/-- The ids of the config are those that are declared. -/
structure Stored (config : ProjectConfig) (p : CustomerEntry × ProjectEntry) : Prop where
  customerId : (config.customerId : ℤ) = p.1.id
  projectId : (config.projectId : ℤ) = p.2.id

/-- The customer of the registry is the declared one, with exactly its projects. -/
structure Merged (customer : CustomerConfig) (e : CustomerEntry) : Prop where
  customerName : customer.customerName = e.name
  customerId : (customer.customerId : ℤ) = e.id
  projects : (customer.projects.map fun p => (p.projectName, (p.projectId : ℤ))).Perm
    (e.projects.map fun p => (p.name, p.id))

/-- The configs and the registry made from them keep the customers and projects of the list
apart. -/
structure Identity (entries : List CustomerEntry) (new : List ProjectConfig) : Prop where
  distinct : (new.map fun c => (c.customerId, c.projectId)).Nodup
  stored : List.Forall₂ Stored new (declaredProjects entries)
  positive : ∀ c ∈ new, 0 < c.projectId
  merged : ∃ customers, (mergeConfigs new).customers.Perm customers ∧
    List.Forall₂ Merged customers (withProjects entries)

/-- What was appended to `l` keeps the customers and projects of the list apart. -/
def Identified (y : List (ProtoMap String Value)) (l l' : List ProjectConfig) : Prop :=
  ∃ new entries, l' = l ++ new ∧ List.Forall₂ Reads y entries ∧ Identity entries new

/-- The ids of a project and of its customer fit into 32 bits. -/
def Fits (p : CustomerEntry × ProjectEntry) : Prop :=
  p.1.id < 2 ^ 32 ∧ p.2.id < 2 ^ 32

section Accepted

variable {y : List (ProtoMap String Value)} {entries : List CustomerEntry}
  (haccepts : Accepts y entries)
include haccepts

theorem Accepts.nonneg {e : CustomerEntry} (he : e ∈ entries) : 0 ≤ e.id := by
  obtain ⟨customer, -, hreads⟩ := Checks.exists_mem_left haccepts.reads he
  exact hreads.nonneg

theorem Accepts.pos {e : CustomerEntry} (he : e ∈ entries) {p : ProjectEntry}
    (hp : p ∈ e.projects) : 0 < p.id := by
  obtain ⟨customer, -, hreads⟩ := Checks.exists_mem_left haccepts.reads he
  obtain ⟨item, -, hdeclares⟩ := Checks.exists_mem_left hreads.projects hp
  exact hdeclares.pos

/-- The ids are stored as they are declared if and only if they fit. -/
theorem Accepts.stored_iff {p : CustomerEntry × ProjectEntry} (hp : p ∈ declaredProjects entries) :
    Stored (toConfig p.1 p.2) p ↔ Fits p := by
  obtain ⟨he, hproject⟩ := mem_declaredProjects.mp hp
  constructor
  · rintro ⟨hcustomer, hproject'⟩
    exact ⟨(U32.ofInt_eq_iff (haccepts.nonneg he)).mp hcustomer,
      (U32.ofInt_eq_iff (haccepts.pos he hproject).le).mp hproject'⟩
  · rintro ⟨hcustomer, hproject'⟩
    exact ⟨(U32.ofInt_eq_iff (haccepts.nonneg he)).mpr hcustomer,
      (U32.ofInt_eq_iff (haccepts.pos he hproject).le).mpr hproject'⟩

theorem Accepts.forall₂_stored_iff :
    List.Forall₂ Stored (toConfigs entries) (declaredProjects entries) ↔
      ∀ p ∈ declaredProjects entries, Fits p := by
  rw [toConfigs_eq_map, List.forall₂_map_left_iff, List.forall₂_same]
  exact forall₂_congr fun p hp => haccepts.stored_iff hp

variable (hfits : ∀ p ∈ declaredProjects entries, Fits p)
include hfits

/-- A customer that has projects is stored with its own id. -/
theorem Accepts.ofInt_id {e : CustomerEntry} (he : e ∈ withProjects entries) :
    (U32.ofInt e.id : ℤ) = e.id := by
  obtain ⟨hmem, hne⟩ := List.mem_filter.mp he
  obtain ⟨p, l, hprojects⟩ := List.exists_cons_of_ne_nil (l := e.projects) (by simpa using hne)
  have hp : (e, p) ∈ declaredProjects entries :=
    mem_declaredProjects.mpr ⟨hmem, by rw [hprojects]; exact List.mem_cons_self⟩
  exact ((haccepts.stored_iff hp).mpr (hfits _ hp)).customerId

theorem Accepts.nodup_ofInt_id :
    ((withProjects entries).map fun e => U32.ofInt e.id).Nodup := by
  have hsublist : (withProjects entries).Sublist entries := List.filter_sublist
  have hids : ((withProjects entries).map CustomerEntry.id).Nodup :=
    haccepts.ids.sublist (hsublist.map _)
  refine List.Nodup.of_map (fun n : ℕ => (n : ℤ)) ?_
  rw [List.map_map]
  convert hids using 1
  exact List.map_congr_left fun e he => haccepts.ofInt_id hfits he

theorem Accepts.merged {e : CustomerEntry} (he : e ∈ withProjects entries) :
    Merged (sortProjects (mergedCustomer e)) e := by
  refine ⟨rfl, haccepts.ofInt_id hfits he, ?_⟩
  have hmem := (List.mem_filter.mp he).1
  have hsorted : (sortProjects (mergedCustomer e)).projects.Perm (mergedCustomer e).projects :=
    List.perm_insertionSort _ _
  refine (hsorted.map _).trans (List.Perm.of_eq ?_)
  rw [mergedCustomer, List.map_map]
  refine List.map_congr_left fun p hp => ?_
  have hpair : (e, p) ∈ declaredProjects entries := mem_declaredProjects.mpr ⟨hmem, hp⟩
  exact Prod.ext rfl ((haccepts.stored_iff hpair).mpr (hfits _ hpair)).projectId

/-- Two projects with the same ids would be projects of one customer, which were found to differ. -/
theorem Accepts.nodup_pairs :
    ((toConfigs entries).map fun c => (c.customerId, c.projectId)).Nodup := by
  rw [toConfigs, List.map_flatMap, List.nodup_flatMap]
  constructor
  · intro e he
    rw [List.map_map]
    exact List.Nodup.of_map Prod.snd (by rw [List.map_map]; exact (haccepts.distinct e he).ids)
  · have hids := List.pairwise_map.mp haccepts.ids
    refine hids.imp_of_mem fun {e e'} he he' hne => ?_
    rw [Function.onFun, List.disjoint_left]
    intro pair hpair hpair'
    simp only [List.map_map, List.mem_map, Function.comp_apply] at hpair hpair'
    obtain ⟨p, hp, rfl⟩ := hpair
    obtain ⟨p', hp', heq⟩ := hpair'
    have hmem : (e, p) ∈ declaredProjects entries := mem_declaredProjects.mpr ⟨he, hp⟩
    have hmem' : (e', p') ∈ declaredProjects entries := mem_declaredProjects.mpr ⟨he', hp'⟩
    refine hne ?_
    calc e.id = (U32.ofInt e.id : ℤ) :=
          ((haccepts.stored_iff hmem).mpr (hfits _ hmem)).customerId.symm
      _ = (U32.ofInt e'.id : ℤ) := congrArg Nat.cast (Prod.mk.inj heq).1.symm
      _ = e'.id := ((haccepts.stored_iff hmem').mpr (hfits _ hmem')).customerId

/-- Ids that fit keep the customers and projects apart. -/
theorem Accepts.identity : Identity entries (toConfigs entries) := by
  refine ⟨haccepts.nodup_pairs hfits, haccepts.forall₂_stored_iff.mpr hfits, fun c hc => ?_, _,
    mergeConfigs_perm (haccepts.nodup_ofInt_id hfits), ?_⟩
  · obtain ⟨p, hp, hstored⟩ := Checks.exists_mem_right (haccepts.forall₂_stored_iff.mpr hfits) hc
    obtain ⟨he, hproject⟩ := mem_declaredProjects.mp hp
    have hpos := haccepts.pos he hproject
    rw [← hstored.projectId] at hpos
    exact_mod_cast hpos
  · rw [List.forall₂_map_left_iff, List.forall₂_same]
    exact fun e he => haccepts.merged hfits he

end Accepted

/-- **Customers and projects keep their identities** in a list that is accepted, if and only if no
project has an id of `2 ^ 32` or more, or a customer with such an id. -/
theorem identified_iff {unmarshal : String → Except String (List (ProtoMap String Value))}
    {content : String} {y : List (ProtoMap String Value)} (hy : unmarshal content = .ok y)
    {l l' : List ProjectConfig} (h : parseCustomerList unmarshal content l = (none, l')) :
    Identified y l l' ↔ ∀ customer ∈ y, ∀ e, Reads customer e → ∀ p ∈ e.projects,
      e.id < 2 ^ 32 ∧ p.id < 2 ^ 32 := by
  obtain ⟨entries, haccepts, rfl⟩ := (parseCustomerList_eq_none hy).mp h
  constructor
  · rintro ⟨new, entries', hnew, hreads, hidentity⟩ customer hcustomer e he p hp
    obtain rfl := List.append_cancel_left hnew
    obtain rfl := List.right_unique_forall₂' rightUnique_reads haccepts.reads hreads
    obtain ⟨e', hmem, he'⟩ := Checks.exists_mem_right hreads hcustomer
    obtain rfl := rightUnique_reads he he'
    exact haccepts.forall₂_stored_iff.mp hidentity.stored (e, p)
      (mem_declaredProjects.mpr ⟨hmem, hp⟩)
  · intro hfits
    refine ⟨_, entries, rfl, haccepts.reads, haccepts.identity fun p hp => ?_⟩
    obtain ⟨he, hproject⟩ := mem_declaredProjects.mp hp
    obtain ⟨customer, hcustomer, hreads⟩ := Checks.exists_mem_left haccepts.reads he
    exact hfits customer hcustomer p.1 hreads p.2 hproject

/-- Two customers, each with a project of the same id. -/
def twoCustomers (firstId secondId : GoInt) : List (ProtoMap String Value) :=
  [customerYaml "fuchsia" firstId (.list [ledgerYaml ⟨10, by decide⟩]),
    customerYaml "test_project" secondId (.list [ledgerYaml ⟨10, by decide⟩])]

theorem reads_customerYaml {customerName : String} {customerId projectId : GoInt}
    (hvalid : isValidName customerName = true) (hnonneg : 0 ≤ customerId.1)
    (hreserved : customerId.1 ≠ maxInt32) (hpos : 0 < projectId.1) :
    Reads (customerYaml customerName customerId (.list [ledgerYaml projectId]))
      ⟨customerName, customerId.1, [⟨"ledger", projectId.1, "ben"⟩]⟩ :=
  ⟨rfl, hvalid, ⟨customerId, rfl, rfl⟩, hnonneg, fun h => absurd h hreserved,
    .cons (declares_ledgerYaml hpos) .nil⟩

/-- The customers have the ids 20 and 25. -/
theorem identified_iff_twoCustomers :
    Identified (twoCustomers ⟨20, by decide⟩ ⟨25, by decide⟩) []
      [toConfig ⟨"fuchsia", 20, []⟩ ⟨"ledger", 10, "ben"⟩,
        toConfig ⟨"test_project", 25, []⟩ ⟨"ledger", 10, "ben"⟩] := by
  have hparsed : parseCustomerList
      (fun _ => .ok (twoCustomers ⟨20, by decide⟩ ⟨25, by decide⟩)) "" [] =
      (none, [toConfig ⟨"fuchsia", 20, []⟩ ⟨"ledger", 10, "ben"⟩,
        toConfig ⟨"test_project", 25, []⟩ ⟨"ledger", 10, "ben"⟩]) := rfl
  refine (identified_iff rfl hparsed).mpr fun customer hcustomer e he p hp => ?_
  rcases List.mem_pair.mp hcustomer with rfl | rfl
  · obtain rfl := rightUnique_reads he
      (reads_customerYaml (by decide) (by decide) (by decide) (by decide))
    obtain rfl := List.mem_singleton.mp hp
    decide
  · obtain rfl := rightUnique_reads he
      (reads_customerYaml (by decide) (by decide) (by decide) (by decide))
    obtain rfl := List.mem_singleton.mp hp
    decide

/-- Two customers that become one. The customers have the ids 1 and `2 ^ 32 + 1`, which are
distinct. Their projects have the same pair of ids, and the registry has one customer, with the
projects of both. -/
theorem not_identified_wrapped :
    parseCustomerList
        (fun _ => .ok (twoCustomers ⟨1, by decide⟩ ⟨4294967297, by decide⟩)) "" [] =
      (none, [toConfig ⟨"fuchsia", 1, []⟩ ⟨"ledger", 10, "ben"⟩,
        toConfig ⟨"test_project", 1, []⟩ ⟨"ledger", 10, "ben"⟩]) ∧
    (mergeConfigs [toConfig ⟨"fuchsia", 1, []⟩ ⟨"ledger", 10, "ben"⟩,
        toConfig ⟨"test_project", 1, []⟩ ⟨"ledger", 10, "ben"⟩]).customers =
      [⟨"fuchsia", 1, [⟨"ledger", 10, "ben", []⟩, ⟨"ledger", 10, "ben", []⟩]⟩] ∧
    ¬ Identified (twoCustomers ⟨1, by decide⟩ ⟨4294967297, by decide⟩) []
      [toConfig ⟨"fuchsia", 1, []⟩ ⟨"ledger", 10, "ben"⟩,
        toConfig ⟨"test_project", 1, []⟩ ⟨"ledger", 10, "ben"⟩] := by
  refine ⟨rfl, rfl, ?_⟩
  rintro ⟨new, entries, hnew, -, hidentity⟩
  rw [List.nil_append] at hnew
  subst hnew
  exact absurd hidentity.distinct (by decide)

end Cobalt.ConfigParser
