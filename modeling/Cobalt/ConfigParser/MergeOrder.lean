import Cobalt.ConfigParser.MergeConfigs
import Mathlib.Data.Prod.Lex

/-!
# The registry does not depend on the order of the projects

The projects are merged into customers in the order in which they were read, and customers, projects
and metrics are sorted by their ids. If no two of them have the same ids, the registry is the same
for every order of the projects, and of the metrics of a project.

## Main definitions

* `metricKey`: the ids by which metrics are sorted.
* `Grouped`: what the merging keeps.
* `Mergeable`: the projects and the metrics of a project have ids of their own, and a customer has
  one name.
* `Reordered`: the same projects and metrics in another order.
* `SortedRegistry`, `ContainsOnce`: the registry is sorted, and has every project and metric once.

## Main results

* `sliceStable_eq_of_perm`: a sorted list depends on the elements only, if their keys are distinct.
* `grouped_foldl`: the customers, as they are when all projects were read.
* `mem_customers_iff`: the customers of the registry.
* `mergeConfigs_reordered`: the registry does not depend on the order.
-/

namespace Cobalt.ConfigParser

open Config

/-! ### Sorted lists -/

section SliceStable

variable {α κ : Type} [LinearOrder κ] {key : α → κ} {less : α → α → Bool} {l l' : List α}

theorem perm_sliceStable (less : α → α → Bool) (l : List α) : (sliceStable less l).Perm l :=
  List.perm_insertionSort _ l

/-- A list that is sorted by a key has the keys in their order. -/
theorem pairwise_sliceStable (hless : ∀ a b, less a b = true ↔ key a < key b) (l : List α) :
    (sliceStable less l).Pairwise fun a b => key a ≤ key b := by
  have hle (a b : α) : less b a = false ↔ key a ≤ key b := by
    rw [← Bool.not_eq_true, hless, not_lt]
  have htotal : Std.Total fun a b => less b a = false :=
    ⟨fun a b => by rw [hle, hle]; exact le_total _ _⟩
  have htrans : IsTrans α fun a b => less b a = false :=
    ⟨fun a b c => by rw [hle, hle, hle]; exact le_trans⟩
  exact (List.pairwise_insertionSort (fun a b => less b a = false) l).imp fun h => (hle _ _).mp h

/-- Elements with distinct keys are in the strict order of their keys. -/
theorem pairwise_lt_sliceStable (hless : ∀ a b, less a b = true ↔ key a < key b)
    (hkeys : (l.map key).Nodup) : (sliceStable less l).Pairwise fun a b => key a < key b := by
  have hnodup := (((perm_sliceStable less l).map key).nodup_iff.mpr hkeys)
  rw [List.Nodup, List.pairwise_map] at hnodup
  exact ((pairwise_sliceStable hless l).and hnodup).imp fun h => lt_of_le_of_ne h.1 h.2

/-- A sorted list depends on the elements only, if their keys are distinct. -/
theorem sliceStable_eq_of_perm (hless : ∀ a b, less a b = true ↔ key a < key b)
    (hkeys : (l.map key).Nodup) (h : l.Perm l') : sliceStable less l = sliceStable less l' := by
  refine List.Perm.eq_of_pairwise (fun a b _ _ hlt hgt => ?_) (pairwise_lt_sliceStable hless hkeys)
    (pairwise_lt_sliceStable hless ((h.map key).nodup_iff.mp hkeys))
    (((perm_sliceStable less l).trans h).trans (perm_sliceStable less l').symm)
  exact absurd hgt (lt_asymm hlt)

end SliceStable

/-- The ids by which metrics are sorted. -/
def metricKey (m : ConfigValidator.MetricDefinition) : ℕ ×ₗ ℕ ×ₗ ℕ :=
  toLex (m.customerId, toLex (m.projectId, m.id))

theorem cmpConfigEntry_eq_true_iff (a b : ConfigValidator.MetricDefinition) :
    cmpConfigEntry a b = true ↔ metricKey a < metricKey b := by
  simp only [metricKey, Prod.Lex.toLex_lt_toLex]
  rw [cmpConfigEntry]
  split_ifs with hcustomer hproject hid
  · simp [hcustomer]
  · rw [ne_eq, not_not] at hcustomer
    simp [hcustomer, hproject]
  · rw [ne_eq, not_not] at hcustomer hproject
    simp [hcustomer, hproject]
  · rw [ne_eq, not_not] at hcustomer hproject hid
    simp [hcustomer, hproject, hid]

/-! ### Projects by customer -/

/-- What the registry is made from: the id and the name of a customer, and one of its projects. -/
abbrev Entry : Type := ℕ × String × Config.ProjectConfig

def entryOf (c : ProjectConfig) : Entry := (c.customerId, c.customerName, v1ProjectConfig c)

/-- The customer of an entry, with its projects in the order in which they were read. -/
def groupOf (entries : List Entry) (e : Entry) : CustomerConfig where
  customerName := e.2.1
  customerId := e.1
  projects := (entries.filter fun e' => e'.1 = e.1).map fun e' => e'.2.2

/-- What the merging keeps. The map has the position of every customer, and the customers have
the projects that were read so far. -/
structure Grouped (entries : List Entry) (s : ProtoMap ℕ ℕ × List CustomerConfig) : Prop where
  lookup : ∀ (id i : ℕ), s.1.lookup id = some i ↔
    ∃ customer, s.2[i]? = some customer ∧ customer.customerId = id
  group : ∀ (i : ℕ) (customer : CustomerConfig), s.2[i]? = some customer →
    ∃ e ∈ entries, customer = groupOf entries e
  covered : ∀ e ∈ entries, ∃ i, s.1.lookup e.1 = some i

theorem groupOf_append_ne {entries : List Entry} {e e' : Entry} (hne : e'.1 ≠ e.1) :
    groupOf (entries ++ [e']) e = groupOf entries e := by
  simp [groupOf, hne]

theorem groupOf_append_eq {entries : List Entry} {e e' : Entry} (heq : e'.1 = e.1) :
    groupOf (entries ++ [e']) e =
      { groupOf entries e with projects := (groupOf entries e).projects ++ [e'.2.2] } := by
  simp [groupOf, heq]

theorem grouped_nil : Grouped [] (∅, []) :=
  ⟨fun _ _ => by simp, fun _ _ h => by simp at h, fun _ h => by simp at h⟩

theorem groupOf_append_new {entries : List Entry} {e : Entry}
    (hnew : ∀ e' ∈ entries, e.1 ≠ e'.1) :
    groupOf (entries ++ [e]) e = ⟨e.2.1, e.1, [e.2.2]⟩ := by
  have hnone : (entries.filter fun e' => e'.1 = e.1) = [] :=
    List.filter_eq_nil_iff.mpr fun e' he' => by simpa using (hnew e' he').symm
  rw [groupOf_append_eq rfl]
  simp [groupOf, hnone]

/-- The map keeps the positions when a customer with a new id is put at the end. -/
theorem lookup_insert_length {m : ProtoMap ℕ ℕ} {customers : List CustomerConfig}
    (h : ∀ id i, m.lookup id = some i ↔
      ∃ customer, customers[i]? = some customer ∧ customer.customerId = id)
    (new : CustomerConfig) (hnew : m.lookup new.customerId = none) (id i : ℕ) :
    (m.insert new.customerId customers.length).lookup id = some i ↔
      ∃ customer, (customers ++ [new])[i]? = some customer ∧ customer.customerId = id := by
  rw [List.getElem?_append]
  by_cases hid : id = new.customerId
  · subst hid
    rw [AList.lookup_insert, Option.some_inj]
    constructor
    · rintro rfl
      exact ⟨new, by simp, rfl⟩
    · rintro ⟨customer, hi, hcustomer⟩
      split_ifs at hi with hlt
      · have hlookup := (h new.customerId i).mpr ⟨customer, hi, hcustomer⟩
        rw [hnew] at hlookup
        cases hlookup
      · have := (List.getElem?_eq_some_iff.mp hi).1
        simp only [List.length_singleton] at this
        omega
  · rw [AList.lookup_insert_ne hid, h]
    refine exists_congr fun customer => and_congr_left fun hcustomer => ?_
    split_ifs with hlt
    · rfl
    · rw [List.getElem?_eq_none (not_lt.mp hlt)]
      refine iff_of_false (by simp) fun hi => ?_
      have hmem := List.mem_singleton.mp (List.mem_of_getElem? hi)
      rw [hmem] at hcustomer
      exact hid hcustomer.symm

/-- A customer that was not read before. -/
theorem Grouped.new {entries : List Entry} {m : ProtoMap ℕ ℕ} {customers : List CustomerConfig}
    (h : Grouped entries (m, customers)) {e : Entry} (hnew : m.lookup e.1 = none) :
    Grouped (entries ++ [e])
      (m.insert e.1 customers.length, customers ++ [⟨e.2.1, e.1, [e.2.2]⟩]) := by
  have hother (e' : Entry) (he' : e' ∈ entries) : e.1 ≠ e'.1 := by
    intro heq
    obtain ⟨i, hi⟩ := h.covered e' he'
    rw [← heq, hnew] at hi
    cases hi
  refine ⟨lookup_insert_length h.lookup ⟨e.2.1, e.1, [e.2.2]⟩ hnew, fun i customer hi => ?_,
    fun e' he' => ?_⟩
  · rw [List.getElem?_append] at hi
    split_ifs at hi with hlt
    · obtain ⟨e', he', rfl⟩ := h.group i customer hi
      exact ⟨e', List.mem_append_left _ he', (groupOf_append_ne (hother e' he')).symm⟩
    · obtain rfl := List.mem_singleton.mp (List.mem_of_getElem? hi)
      exact ⟨e, by simp, (groupOf_append_new hother).symm⟩
  · by_cases hid : e'.1 = e.1
    · exact ⟨_, by rw [hid]; exact AList.lookup_insert m⟩
    · rcases List.mem_append.mp he' with he' | he'
      · obtain ⟨i, hi⟩ := h.covered e' he'
        exact ⟨i, by rw [AList.lookup_insert_ne hid]; exact hi⟩
      · exact absurd (congrArg Prod.fst (List.mem_singleton.mp he')) hid

/-- A customer that was read before, at its position. -/
theorem Grouped.modify {entries : List Entry} {m : ProtoMap ℕ ℕ} {customers : List CustomerConfig}
    (h : Grouped entries (m, customers)) {e : Entry} {i : ℕ} (hi : m.lookup e.1 = some i) :
    Grouped (entries ++ [e]) (m, customers.modify i fun customer =>
      { customer with projects := customer.projects ++ [e.2.2] }) := by
  refine ⟨fun id j => ?_, fun j customer hj => ?_, fun e' he' => ?_⟩
  · rw [h.lookup, List.getElem?_modify]
    split_ifs with hij
    · simp
    · simp
  · rw [List.getElem?_modify] at hj
    obtain ⟨customer', hj', rfl⟩ := Option.map_eq_some_iff.mp hj
    obtain ⟨e', he', rfl⟩ := h.group j customer' hj'
    refine ⟨e', List.mem_append_left _ he', ?_⟩
    have hlookup : m.lookup e'.1 = some j := (h.lookup e'.1 j).mpr ⟨_, hj', rfl⟩
    split_ifs with hij
    · subst hij
      obtain ⟨customer, hcustomer, hid⟩ := (h.lookup e.1 i).mp hi
      obtain rfl := Option.some_inj.mp (hj'.symm.trans hcustomer)
      exact (groupOf_append_eq hid.symm).symm
    · refine (groupOf_append_ne fun hid => hij ?_).symm
      rw [hid, hlookup] at hi
      exact (Option.some_inj.mp hi).symm
  · rcases List.mem_append.mp he' with he' | he'
    · exact h.covered e' he'
    · exact ⟨i, by rw [List.mem_singleton.mp he']; exact hi⟩

/-- The step. -/
theorem Grouped.mergeStep {entries : List Entry} {s : ProtoMap ℕ ℕ × List CustomerConfig}
    (h : Grouped entries s) {c : ProjectConfig} (hversion : c.cobaltVersion = .CobaltVersion1) :
    Grouped (entries ++ [entryOf c]) (mergeStep s c) := by
  obtain ⟨m, customers⟩ := s
  rw [ConfigParser.mergeStep, if_neg (not_not.mpr hversion)]
  rcases hlookup : m.lookup c.customerId with _ | i
  · simp only [if_true, AList.lookup_insert, Option.getD_some, modify_concat,
      List.nil_append]
    exact h.new hlookup
  · simp only [hlookup, reduceCtorEq, if_false, Option.getD_some]
    exact h.modify hlookup

/-- The loop. -/
theorem grouped_foldl {l : List ProjectConfig}
    (hversion : ∀ c ∈ l, c.cobaltVersion = .CobaltVersion1) :
    Grouped (l.map entryOf) (l.foldl mergeStep (∅, [])) := by
  induction l using List.reverseRecOn with
  | nil => exact grouped_nil
  | append_singleton l c ih =>
    rw [List.map_append, List.foldl_append]
    have hl := ih fun c hc => hversion c (List.mem_append_left _ hc)
    exact hl.mergeStep (hversion c (List.mem_append_right _ List.mem_cons_self))

/-! ### The customers of the registry -/

/-- The projects have ids of their own, and so have the metrics of a project. A customer has one
name. -/
structure Mergeable (l : List ProjectConfig) : Prop where
  version : ∀ c ∈ l, c.cobaltVersion = .CobaltVersion1
  ids : (l.map fun c => (c.customerId, c.projectId)).Nodup
  name : ∀ c ∈ l, ∀ c' ∈ l, c.customerId = c'.customerId → c.customerName = c'.customerName
  metrics : ∀ c ∈ l, ((c.projectConfig.getD []).map fun m => m.id).Nodup

/-- The same project, with its metrics in another order. -/
structure MetricsPermuted (c c' : ProjectConfig) : Prop where
  fields : { c' with projectConfig := c.projectConfig } = c
  metrics : (c.projectConfig.getD []).Perm (c'.projectConfig.getD [])

/-- The same projects in another order, with their metrics in another order. -/
def Reordered (l l' : List ProjectConfig) : Prop :=
  ∃ permuted, l.Perm permuted ∧ List.Forall₂ MetricsPermuted permuted l'

/-- What is asked of the entries. -/
structure Distinct (entries : List Entry) : Prop where
  ids : (entries.map fun e => (e.1, e.2.2.projectId)).Nodup
  name : ∀ e ∈ entries, ∀ e' ∈ entries, e.1 = e'.1 → e.2.1 = e'.2.1

theorem Mergeable.distinct {l : List ProjectConfig} (h : Mergeable l) :
    Distinct (l.map entryOf) := by
  refine ⟨?_, ?_⟩
  · rw [List.map_map]
    exact h.ids
  · simp only [List.forall_mem_map]
    exact h.name

theorem Distinct.perm {entries entries' : List Entry} (h : Distinct entries)
    (hperm : entries.Perm entries') : Distinct entries' :=
  ⟨(hperm.map _).nodup_iff.mp h.ids, fun e he e' he' =>
    h.name e (hperm.mem_iff.mpr he) e' (hperm.mem_iff.mpr he')⟩

/-- The customer of an entry, in the registry. -/
def customerOf (entries : List Entry) (e : Entry) : CustomerConfig :=
  sortProjects (groupOf entries e)

/-- The projects of one customer have distinct ids. -/
theorem Distinct.nodup_projects {entries : List Entry} (h : Distinct entries) (e : Entry) :
    ((groupOf entries e).projects.map fun p => p.projectId).Nodup := by
  have hfiltered := h.ids.sublist (List.filter_sublist (p := fun e' => e'.1 = e.1).map _)
  rw [groupOf, List.map_map]
  refine List.Nodup.of_map (fun id => (e.1, id)) ?_
  rw [List.map_map]
  convert hfiltered using 1
  refine List.map_congr_left fun e' he' => ?_
  have heq : e'.1 = e.1 := by simpa using (List.mem_filter.mp he').2
  exact Prod.ext heq.symm rfl

theorem Distinct.customerOf_eq {entries entries' : List Entry} (h : Distinct entries)
    (hperm : entries.Perm entries') (e : Entry) :
    customerOf entries e = customerOf entries' e := by
  have hprojects : (groupOf entries e).projects.Perm (groupOf entries' e).projects :=
    (hperm.filter _).map _
  rw [customerOf, customerOf, sortProjects, sortProjects,
    sliceStable_eq_of_perm (fun _ _ => decide_eq_true_iff) (h.nodup_projects e) hprojects]
  rfl

/-- The customers of the registry are those of the entries. -/
theorem mem_customers_iff {l : List ProjectConfig} (h : Mergeable l) (customer : CustomerConfig) :
    customer ∈ (mergeConfigs l).customers ↔
      ∃ e ∈ l.map entryOf, customer = customerOf (l.map entryOf) e := by
  have hgrouped := grouped_foldl h.version
  simp only [mergeConfigs, List.mem_map (f := sortProjects), (perm_sliceStable _ _).mem_iff]
  constructor
  · rintro ⟨customer, hmem, rfl⟩
    obtain ⟨i, hi⟩ := List.mem_iff_getElem?.mp hmem
    obtain ⟨e, he, rfl⟩ := hgrouped.group i customer hi
    exact ⟨e, he, rfl⟩
  · rintro ⟨e, he, rfl⟩
    obtain ⟨i, hi⟩ := hgrouped.covered e he
    obtain ⟨customer, hcustomer, hid⟩ := (hgrouped.lookup e.1 i).mp hi
    refine ⟨customer, List.mem_of_getElem? hcustomer, ?_⟩
    obtain ⟨e', he', rfl⟩ := hgrouped.group i customer hcustomer
    have hname := h.distinct.name e' he' e he hid
    have hid : e'.1 = e.1 := hid
    rw [customerOf, groupOf, groupOf, hid, hname]

theorem Grouped.nodup_ids {entries : List Entry} {s : ProtoMap ℕ ℕ × List CustomerConfig}
    (h : Grouped entries s) : (s.2.map fun customer => customer.customerId).Nodup := by
  rw [List.nodup_iff_getElem?_ne_getElem?]
  intro i j hij hj heq
  rw [List.length_map] at hj
  rw [List.getElem?_map, List.getElem?_map, List.getElem?_eq_getElem hj,
    List.getElem?_eq_getElem (hij.trans hj), Option.map_some, Option.map_some,
    Option.some_inj] at heq
  have hi := (h.lookup s.2[i].customerId i).mpr ⟨_, List.getElem?_eq_getElem (hij.trans hj), rfl⟩
  have hj := (h.lookup s.2[i].customerId j).mpr ⟨_, List.getElem?_eq_getElem hj, heq.symm⟩
  exact hij.ne (Option.some_inj.mp (hi.symm.trans hj))

/-- The customers are in the order of their ids. -/
theorem pairwise_customers {l : List ProjectConfig} (h : Mergeable l) :
    (mergeConfigs l).customers.Pairwise fun a b => a.customerId < b.customerId := by
  rw [mergeConfigs, List.pairwise_map]
  exact pairwise_lt_sliceStable (fun _ _ => decide_eq_true_iff) (grouped_foldl h.version).nodup_ids

/-- The registry depends on the entries only, and not on their order. -/
theorem mergeConfigs_eq_of_perm {l l' : List ProjectConfig} (h : Mergeable l) (h' : Mergeable l')
    (hperm : (l.map entryOf).Perm (l'.map entryOf)) : mergeConfigs l = mergeConfigs l' := by
  have hmem (customer : CustomerConfig) :
      customer ∈ (mergeConfigs l).customers ↔ customer ∈ (mergeConfigs l').customers := by
    rw [mem_customers_iff h, mem_customers_iff h']
    refine exists_congr fun e => and_congr hperm.mem_iff ?_
    rw [h.distinct.customerOf_eq hperm]
  have hsorted := pairwise_customers h
  have hsorted' := pairwise_customers h'
  have hcustomers : (mergeConfigs l).customers = (mergeConfigs l').customers := by
    refine List.Perm.eq_of_pairwise (fun a b _ _ hlt hgt => absurd hgt (lt_asymm hlt)) hsorted
      hsorted' ((List.perm_ext_iff_of_nodup ?_ ?_).mpr hmem)
    · exact hsorted.imp fun hlt heq => hlt.ne (congrArg _ heq)
    · exact hsorted'.imp fun hlt heq => hlt.ne (congrArg _ heq)
  exact congrArg CobaltRegistry.mk hcustomers

/-! ### Sorted, with every project and metric once -/

/-- Customers, projects and metrics are in the order of their ids. The metrics are those of one
project if they have its ids, as they do when they were read. -/
structure SortedRegistry (registry : CobaltRegistry) : Prop where
  customers : registry.customers.Pairwise fun a b => a.customerId < b.customerId
  projects : ∀ customer ∈ registry.customers,
    customer.projects.Pairwise fun a b => a.projectId < b.projectId
  metrics : ∀ customer ∈ registry.customers, ∀ p ∈ customer.projects,
    p.metrics.Pairwise fun a b => metricKey a < metricKey b
  metricIds : ∀ customer ∈ registry.customers, ∀ p ∈ customer.projects,
    (∀ m ∈ p.metrics, m.customerId = customer.customerId ∧ m.projectId = p.projectId) →
      p.metrics.Pairwise fun a b => a.id < b.id

/-- The projects of the registry, with the ids and names of their customers. -/
def registryProjects (registry : CobaltRegistry) : List Entry :=
  registry.customers.flatMap fun customer =>
    customer.projects.map fun p => (customer.customerId, customer.customerName, p)

/-- Each project is in the registry once, under its own customer and with each of its metrics
once. -/
def ContainsOnce (registry : CobaltRegistry) (l : List ProjectConfig) : Prop :=
  ∃ entries, (registryProjects registry).Perm entries ∧ List.Forall₂ (fun e c =>
    e.1 = c.customerId ∧ e.2.1 = c.customerName ∧ e.2.2.projectName = c.projectName ∧
      e.2.2.projectId = c.projectId ∧ e.2.2.projectContact = c.contact ∧
        e.2.2.metrics.Perm (c.projectConfig.getD [])) entries l

theorem mem_customerOf_projects {entries : List Entry} {e : Entry} {p : Config.ProjectConfig} :
    p ∈ (customerOf entries e).projects ↔ ∃ e' ∈ entries, e'.1 = e.1 ∧ e'.2.2 = p := by
  simp only [customerOf, sortProjects, (perm_sliceStable _ _).mem_iff, groupOf, List.mem_map,
    List.mem_filter, decide_eq_true_eq, and_assoc]

theorem pairwise_projects {l : List ProjectConfig} (h : Mergeable l) {customer : CustomerConfig}
    (hcustomer : customer ∈ (mergeConfigs l).customers) :
    customer.projects.Pairwise fun a b => a.projectId < b.projectId := by
  obtain ⟨e, -, rfl⟩ := (mem_customers_iff h customer).mp hcustomer
  exact pairwise_lt_sliceStable (fun _ _ => decide_eq_true_iff) (h.distinct.nodup_projects e)

theorem nodup_metricKey {metrics : List ConfigValidator.MetricDefinition}
    (h : (metrics.map fun m => m.id).Nodup) : (metrics.map metricKey).Nodup := by
  refine List.Nodup.of_map (fun key => (ofLex (ofLex key).2).2) ?_
  rw [List.map_map]
  exact h

theorem pairwise_metrics {l : List ProjectConfig} (h : Mergeable l) {customer : CustomerConfig}
    (hcustomer : customer ∈ (mergeConfigs l).customers) {p : Config.ProjectConfig}
    (hp : p ∈ customer.projects) :
    p.metrics.Pairwise fun a b => metricKey a < metricKey b := by
  obtain ⟨e, -, rfl⟩ := (mem_customers_iff h customer).mp hcustomer
  obtain ⟨e', he', -, rfl⟩ := mem_customerOf_projects.mp hp
  obtain ⟨c, hc, rfl⟩ := List.mem_map.mp he'
  exact pairwise_lt_sliceStable cmpConfigEntry_eq_true_iff (nodup_metricKey (h.metrics c hc))

theorem sortedRegistry_mergeConfigs {l : List ProjectConfig} (h : Mergeable l) :
    SortedRegistry (mergeConfigs l) := by
  refine ⟨pairwise_customers h, fun _ => pairwise_projects h,
    fun _ hcustomer _ => pairwise_metrics h hcustomer, fun customer hcustomer p hp hsame => ?_⟩
  refine (pairwise_metrics h hcustomer hp).imp_of_mem fun {a b} ha hb hlt => ?_
  simp only [metricKey, (hsame a ha).1, (hsame a ha).2, (hsame b hb).1, (hsame b hb).2,
    Prod.Lex.toLex_lt_toLex, lt_irrefl, false_or, true_and] at hlt
  exact hlt

/-- The projects of the registry are the entries. -/
theorem registryProjects_perm {l : List ProjectConfig} (h : Mergeable l) :
    (registryProjects (mergeConfigs l)).Perm (l.map entryOf) := by
  have hnodup : (registryProjects (mergeConfigs l)).Nodup := by
    refine List.nodup_flatMap.mpr ⟨fun customer hcustomer => ?_, ?_⟩
    · refine List.Nodup.of_map (fun e : Entry => e.2.2.projectId) ?_
      rw [List.map_map, List.Nodup, List.pairwise_map]
      exact (pairwise_projects h hcustomer).imp fun hlt => hlt.ne
    · refine (pairwise_customers h).imp fun {a b} hlt => List.disjoint_left.mpr fun e ha hb => ?_
      obtain ⟨p, -, rfl⟩ := List.mem_map.mp ha
      obtain ⟨p', -, heq⟩ := List.mem_map.mp hb
      exact hlt.ne (congrArg Prod.fst heq).symm
  have hentries : (l.map entryOf).Nodup := h.distinct.ids.of_map
  refine (List.perm_ext_iff_of_nodup hnodup hentries).mpr fun e => ?_
  rw [registryProjects, List.mem_flatMap]
  constructor
  · rintro ⟨customer, hcustomer, hmem⟩
    obtain ⟨p, hp, rfl⟩ := List.mem_map.mp hmem
    obtain ⟨e, he, rfl⟩ := (mem_customers_iff h customer).mp hcustomer
    obtain ⟨e', he', hid, hproject⟩ := mem_customerOf_projects.mp hp
    have heq : e' = (e.1, e.2.1, p) :=
      Prod.ext hid (Prod.ext (h.distinct.name e' he' e he hid) hproject)
    exact heq ▸ he'
  · intro he
    refine ⟨customerOf (l.map entryOf) e, (mem_customers_iff h _).mpr ⟨e, he, rfl⟩, ?_⟩
    exact List.mem_map.mpr ⟨e.2.2, mem_customerOf_projects.mpr ⟨e, he, rfl, rfl⟩, rfl⟩

theorem containsOnce_mergeConfigs {l : List ProjectConfig} (h : Mergeable l) :
    ContainsOnce (mergeConfigs l) l := by
  refine ⟨_, registryProjects_perm h, ?_⟩
  rw [List.forall₂_map_left_iff, List.forall₂_same]
  exact fun c _ => ⟨rfl, rfl, rfl, rfl, rfl, perm_sliceStable _ _⟩

/-! ### Another order -/

theorem MetricsPermuted.entryOf_eq {c c' : ProjectConfig} (h : MetricsPermuted c c')
    (hmetrics : ((c.projectConfig.getD []).map fun m => m.id).Nodup) : entryOf c' = entryOf c := by
  have hsorted := sliceStable_eq_of_perm cmpConfigEntry_eq_true_iff (nodup_metricKey hmetrics)
    h.metrics
  rw [← h.fields]
  simp only [entryOf, v1ProjectConfig, hsorted]

theorem Mergeable.perm {l l' : List ProjectConfig} (h : Mergeable l) (hperm : l.Perm l') :
    Mergeable l' where
  version c hc := h.version c (hperm.mem_iff.mpr hc)
  ids := (hperm.map _).nodup_iff.mp h.ids
  name c hc c' hc' := h.name c (hperm.mem_iff.mpr hc) c' (hperm.mem_iff.mpr hc')
  metrics c hc := h.metrics c (hperm.mem_iff.mpr hc)

theorem Mergeable.map_entryOf {l l' : List ProjectConfig} (h : Mergeable l)
    (hl : List.Forall₂ MetricsPermuted l l') : l'.map entryOf = l.map entryOf := by
  have hmetrics := h.metrics
  clear h
  induction hl with
  | nil => rfl
  | cons hc _ ih =>
    obtain ⟨hhead, htail⟩ := List.forall_mem_cons.mp hmetrics
    rw [List.map_cons, List.map_cons, hc.entryOf_eq hhead, ih htail]

theorem Mergeable.metricsPermuted {l l' : List ProjectConfig} (h : Mergeable l)
    (hl : List.Forall₂ MetricsPermuted l l') : Mergeable l' := by
  have hentries := h.map_entryOf hl
  have hdistinct : Distinct (l'.map entryOf) := hentries ▸ h.distinct
  refine ⟨fun c' hc' => ?_, ?_, fun c hc c' hc' hid => ?_, fun c' hc' => ?_⟩
  · obtain ⟨c, hc, hpermuted⟩ := Checks.exists_mem_left hl hc'
    rw [← h.version c hc, ← hpermuted.fields]
  · have hids := hdistinct.ids
    rwa [List.map_map] at hids
  · exact hdistinct.name _ (List.mem_map_of_mem hc) _ (List.mem_map_of_mem hc') hid
  · obtain ⟨c, hc, hpermuted⟩ := Checks.exists_mem_left hl hc'
    exact (hpermuted.metrics.map _).nodup_iff.mp (h.metrics c hc)

/-- **The order of the projects does not matter**, and neither does the order of the metrics of a
project. The registry is sorted, and has every project and every metric once. -/
theorem mergeConfigs_reordered {l l' : List ProjectConfig} (h : Mergeable l)
    (hreordered : Reordered l l') :
    mergeConfigs l' = mergeConfigs l ∧ SortedRegistry (mergeConfigs l) ∧
      ContainsOnce (mergeConfigs l) l := by
  obtain ⟨permuted, hperm, hmetrics⟩ := hreordered
  have hpermuted := h.perm hperm
  refine ⟨mergeConfigs_eq_of_perm (hpermuted.metricsPermuted hmetrics) h ?_,
    sortedRegistry_mergeConfigs h, containsOnce_mergeConfigs h⟩
  rw [hpermuted.map_entryOf hmetrics]
  exact (hperm.map _).symm

/-- A project of the customer `fuchsia`, with a metric for each of the ids. -/
def fuchsiaProject (projectName : String) (projectId : ℕ) (ids : List ℕ) : ProjectConfig where
  customerName := "fuchsia"
  customerId := 20
  projectName := projectName
  projectId := projectId
  contact := "ben"
  cobaltVersion := .CobaltVersion1
  projectConfig := some (ids.map fun id =>
    { metricName := "opened", customerId := 20, projectId := projectId, id := id,
      metricType := .EVENT_OCCURRED })

/-- Two projects, the first of which has two metrics, are swapped, and the metrics are too. -/
theorem mergeConfigs_reordered_two :
    mergeConfigs [fuchsiaProject "module" 12 [5], fuchsiaProject "ledger" 10 [3, 4]] =
        mergeConfigs [fuchsiaProject "ledger" 10 [4, 3], fuchsiaProject "module" 12 [5]] ∧
      SortedRegistry
        (mergeConfigs [fuchsiaProject "ledger" 10 [4, 3], fuchsiaProject "module" 12 [5]]) ∧
      ContainsOnce
        (mergeConfigs [fuchsiaProject "ledger" 10 [4, 3], fuchsiaProject "module" 12 [5]])
        [fuchsiaProject "ledger" 10 [4, 3], fuchsiaProject "module" 12 [5]] := by
  refine mergeConfigs_reordered
    ⟨by simp [fuchsiaProject], by decide, by simp [fuchsiaProject], by simp [fuchsiaProject]⟩
    ⟨[fuchsiaProject "module" 12 [5], fuchsiaProject "ledger" 10 [4, 3]], List.Perm.swap _ _ _,
      .cons ⟨rfl, .refl _⟩ (.cons ⟨rfl, List.Perm.swap _ _ _⟩ .nil)⟩

end Cobalt.ConfigParser
