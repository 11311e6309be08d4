import Cobalt.ConfigParser.MergeOrder
import Cobalt.Lib.Separated
import Cobalt.SourceGenerator.SourceOutputter
import Mathlib.Data.String.Basic

/-!
# Reproducible code generation

The keys of the constants and of the event codes are sorted before anything is written, and the
enums that share their event codes are found by comparing maps. What is written does not depend on
the order in which these maps are visited. The aliases of an enum are not sorted: their lines are
written in the order in which the map happens to be visited. Only in Go nothing is written for them.

## Main definitions

* `Reproducible`: two runs on the registry produce the same text.
* `AliasesAgree`: the aliases of a dimension have the same identifiers.
* `EnumEntry.Same`, `EnumsOf`: the enums do not depend on the orders, and are those of the
  dimensions.
* `Around`: what is written depends on the order in some lines only.

## Main results

* `enumEntries_same`: the enums that are found.
* `writeEnum_eq`: an enum whose aliases have the same lines.
* `reproducible_iff`: for which projects the text is the same for every order.
-/

namespace Cobalt.SourceGenerator

open ConfigParser

/-! ### Sorted keys -/

section Keys

variable {K V : Type} [DecidableEq K]

/-- Maps that find the same have the same entries. -/
theorem entries_perm_of_lookup {m m' : ProtoMap K V} (h : ∀ k, m.lookup k = m'.lookup k) :
    m.entries.Perm m'.entries :=
  List.lookup_ext m.nodupKeys m'.nodupKeys fun k v => by
    change v ∈ m.lookup k ↔ v ∈ m'.lookup k
    rw [h k]

omit [DecidableEq K] in
theorem nodup_range_keys (order : MapOrder) (m : ProtoMap K V) :
    ((order.range m).map Sigma.fst).Nodup :=
  ((order.perm m).map Sigma.fst).nodup_iff.mpr m.nodupKeys

theorem range_keys_perm (order order' : MapOrder) {m m' : ProtoMap K V}
    (h : ∀ k, m.lookup k = m'.lookup k) :
    ((order.range m).map Sigma.fst).Perm ((order'.range m').map Sigma.fst) :=
  (((order.perm m).trans (entries_perm_of_lookup h)).trans (order'.perm m').symm).map _

/-- The copy of a map. -/
theorem lookup_ofPairs_range (order : MapOrder) (m : ProtoMap K V) (k : K) :
    (ProtoMap.ofPairs ((order.range m).map fun e => (e.1, e.2))).lookup k = m.lookup k := by
  have hkeys : (((order.range m).map fun e => (e.1, e.2)).map Prod.fst).Nodup := by
    rw [List.map_map]
    exact nodup_range_keys order m
  refine Option.ext fun v => ?_
  rw [ProtoMap.lookup_ofPairs_iff hkeys, List.mem_map]
  constructor
  · rintro ⟨⟨k', v'⟩, he, heq⟩
    obtain ⟨rfl, rfl⟩ := Prod.mk.inj heq
    exact MapOrder.mem_range.mp he
  · intro h
    exact ⟨⟨k, v⟩, MapOrder.mem_range.mpr h, rfl⟩

end Keys

/-- The ids, and the names with the same id. -/
def idKey (entries : ProtoMap String ℕ) (name : String) : ℕ ×ₗ String :=
  toLex ((entries.lookup name).getD 0, name)

theorem idLess_eq_true_iff (entries : ProtoMap String ℕ) (a b : String) :
    idLess entries a b = true ↔ idKey entries a < idKey entries b := by
  simp only [idKey, Prod.Lex.toLex_lt_toLex]
  rw [idLess]
  split_ifs with hid
  · simp [hid]
  · rw [ne_eq, not_not] at hid
    simp [hid]

/-- The constants are in the order of their ids. -/
theorem idKeys_eq (order order' : MapOrder) (entries : ProtoMap String ℕ) :
    idKeys order entries = idKeys order' entries := by
  refine sliceStable_eq_of_perm (idLess_eq_true_iff entries) ?_
    (range_keys_perm order order' fun _ => rfl)
  exact (nodup_range_keys order entries).map fun a b h => (Prod.mk.inj (toLex_inj.mp h)).2

/-- The entries of an enum are in the order of their codes. -/
theorem enumKeys_eq (order order' : MapOrder) {events events' : ProtoMap ℕ String}
    (h : ∀ id, events.lookup id = events'.lookup id) :
    enumKeys order events = enumKeys order' events' := by
  have hless (i j : ℕ) : decide (i < j) = true ↔ id i < id j := decide_eq_true_iff
  refine sliceStable_eq_of_perm hless ?_ (range_keys_perm order order' h)
  rw [List.map_id]
  exact nodup_range_keys order events

/-! ### The enums -/

/-- Deep equality of maps compares what they find. -/
theorem mapDeepEqual_iff {K : Type} [DecidableEq K] {a b : ProtoMap K String} :
    mapDeepEqual a b = true ↔ ∀ k, a.lookup k = b.lookup k := by
  rw [mapDeepEqual, decide_eq_true_eq]
  constructor
  · rintro ⟨hlength, hentries⟩ k
    have hsubset : a.entries ⊆ b.entries := fun e he => ProtoMap.mem_entries_iff.mpr (hentries e he)
    have hsubperm := List.subperm_of_subset (List.Nodup.of_map Sigma.fst a.nodupKeys) hsubset
    have hperm := hsubperm.perm_of_length_le hlength.ge
    refine Option.ext fun v => ?_
    have hmem := hperm.mem_iff (a := ⟨k, v⟩)
    rwa [ProtoMap.mem_entries_iff, ProtoMap.mem_entries_iff] at hmem
  · intro h
    refine ⟨(entries_perm_of_lookup h).length_eq, fun e he => ?_⟩
    rw [← h]
    exact ProtoMap.mem_entries_iff.mp he

/-- The same enum, whatever the order in which its event codes were copied. -/
structure EnumEntry.Same (e e' : EnumEntry) : Prop where
  events : ∀ id, e.events.lookup id = e'.events.lookup id
  aliases : e.aliases = e'.aliases
  names : e.names = e'.names

theorem mapDeepEqual_congr {K : Type} [DecidableEq K] {a a' b b' : ProtoMap K String}
    (ha : ∀ k, a.lookup k = a'.lookup k) (hb : ∀ k, b.lookup k = b'.lookup k) :
    mapDeepEqual a b = mapDeepEqual a' b' := by
  rw [Bool.eq_iff_iff, mapDeepEqual_iff, mapDeepEqual_iff]
  simp only [ha, hb]

theorem EnumEntry.Same.deepEqual {a a' b b' : EnumEntry} (ha : a.Same a') (hb : b.Same b') :
    a.deepEqual b = a'.deepEqual b' := by
  rw [EnumEntry.deepEqual, EnumEntry.deepEqual, mapDeepEqual_congr ha.events hb.events, ha.aliases,
    hb.aliases, ha.names, hb.names]

theorem addEnumName_same {events events' : ProtoMap ℕ String}
    (hevents : ∀ id, events.lookup id = events'.lookup id)
    (aliases : Option (ProtoMap String String)) (name : EnumName) {enums enums' : List EnumEntry}
    (h : List.Forall₂ EnumEntry.Same enums enums') :
    List.Forall₂ EnumEntry.Same (addEnumName events aliases name enums)
      (addEnumName events' aliases name enums') := by
  induction h with
  | nil => exact .cons ⟨hevents, rfl, rfl⟩ .nil
  | @cons e e' enums enums' he hrest ih =>
    rw [addEnumName, addEnumName, mapDeepEqual_congr he.events hevents, he.aliases]
    split_ifs with hfound
    · exact .cons ⟨he.events, rfl, congrArg (· ++ [name]) he.names⟩ hrest
    · exact .cons he ih

/-- The dimensions of the metrics, with the positions of both. -/
def dimensionsOf (metrics : List MetricDefinition) :
    List ((MetricDefinition × ℕ) × MetricDimension × ℕ) :=
  metrics.zipIdx.flatMap fun metric =>
    metric.1.metricDimensions.zipIdx.map fun dimension => (metric, dimension)

theorem enumEntries_eq_foldl (orders : RangeOrders) (metrics : List MetricDefinition) :
    enumEntries orders metrics =
      (dimensionsOf metrics).foldl (fun enums d => addDimension orders d.1 enums d.2) [] := by
  rw [dimensionsOf, List.foldl_flatMap, enumEntries]
  simp only [List.foldl_map]

theorem mem_dimensionsOf {metrics : List MetricDefinition} {metric : MetricDefinition}
    {md : MetricDimension} :
    (∃ i j, ((metric, i), md, j) ∈ dimensionsOf metrics) ↔
      metric ∈ metrics ∧ md ∈ metric.metricDimensions := by
  simp only [dimensionsOf, List.mem_flatMap, List.mem_map, Prod.mk.injEq]
  constructor
  · rintro ⟨i, j, m, hm, d, hd, ⟨rfl, rfl⟩⟩
    exact ⟨List.fst_mem_of_mem_zipIdx hm, List.fst_mem_of_mem_zipIdx hd⟩
  · rintro ⟨hm, hd⟩
    obtain ⟨i, hi⟩ := List.mem_iff_getElem?.mp hm
    obtain ⟨j, hj⟩ := List.mem_iff_getElem?.mp hd
    exact ⟨i, j, (metric, i), List.mem_zipIdx_iff_getElem?.mpr hi, (md, j),
      List.mem_zipIdx_iff_getElem?.mpr hj, rfl, rfl⟩

/-- The enums are the same for every order. -/
theorem enumEntries_same (orders orders' : RangeOrders) (metrics : List MetricDefinition) :
    List.Forall₂ EnumEntry.Same (enumEntries orders metrics) (enumEntries orders' metrics) := by
  rw [enumEntries_eq_foldl, enumEntries_eq_foldl]
  induction dimensionsOf metrics using List.reverseRecOn with
  | nil => exact .nil
  | append_singleton done d ih =>
    rw [List.foldl_append, List.foldl_append]
    refine addEnumName_same (fun id => ?_) _ _ ih
    rw [lookup_ofPairs_range, lookup_ofPairs_range]

/-- The enum has the event codes and aliases of the dimension. -/
structure EnumEntry.Of (e : EnumEntry) (md : MetricDimension) : Prop where
  events : ∀ id, e.events.lookup id = md.eventCodes.lookup id
  aliases : aliasesDeepEqual e.aliases md.aliases = true

theorem aliasesDeepEqual_iff {a b : Option (ProtoMap String String)} :
    aliasesDeepEqual a b = true ↔
      a.isNone = b.isNone ∧ ∀ k, (a.getD ∅).lookup k = (b.getD ∅).lookup k := by
  rcases a with _ | a <;> rcases b with _ | b <;> simp [aliasesDeepEqual, mapDeepEqual_iff]

theorem aliasesDeepEqual_self (a : Option (ProtoMap String String)) :
    aliasesDeepEqual a a = true :=
  aliasesDeepEqual_iff.mpr ⟨rfl, fun _ => rfl⟩

/-- What holds of the enums that were found in some dimensions. -/
structure EnumsOf (dimensions : List MetricDimension) (enums : List EnumEntry) : Prop where
  sound : ∀ e ∈ enums, e.names ≠ [] ∧ ∃ md ∈ dimensions, e.Of md
  complete : ∀ md ∈ dimensions, ∃ e ∈ enums, e.Of md

/-- An enum is made for the dimension, or it was there before. -/
theorem mem_addEnumName {events : ProtoMap ℕ String} {aliases : Option (ProtoMap String String)}
    {name : EnumName} {enums : List EnumEntry} {e : EnumEntry}
    (he : e ∈ addEnumName events aliases name enums) :
    e = ⟨events, aliases, [name]⟩ ∨ ∃ e' ∈ enums,
      e.events = e'.events ∧ e.aliases = e'.aliases ∧ (e'.names ≠ [] → e.names ≠ []) := by
  induction enums with
  | nil => exact .inl (List.mem_singleton.mp he)
  | cons e₀ enums ih =>
    rw [addEnumName] at he
    split_ifs at he with hfound
    · rcases List.mem_cons.mp he with rfl | he
      · exact .inr ⟨e₀, List.mem_cons_self, rfl, rfl, fun _ => by simp⟩
      · exact .inr ⟨e, List.mem_cons_of_mem _ he, rfl, rfl, id⟩
    · rcases List.mem_cons.mp he with rfl | he
      · exact .inr ⟨e, List.mem_cons_self, rfl, rfl, id⟩
      · refine (ih he).imp_right ?_
        rintro ⟨e', he', hsame⟩
        exact ⟨e', List.mem_cons_of_mem _ he', hsame⟩

/-- Every enum stays, and there is one for the dimension. -/
theorem exists_mem_addEnumName (events : ProtoMap ℕ String)
    (aliases : Option (ProtoMap String String)) (name : EnumName) (enums : List EnumEntry) :
    (∃ e ∈ addEnumName events aliases name enums,
      (∀ id, e.events.lookup id = events.lookup id) ∧
        aliasesDeepEqual e.aliases aliases = true) ∧
      ∀ e' ∈ enums, ∃ e ∈ addEnumName events aliases name enums,
        e.events = e'.events ∧ e.aliases = e'.aliases := by
  induction enums with
  | nil =>
    exact ⟨⟨_, List.mem_singleton_self _, fun _ => rfl, aliasesDeepEqual_self _⟩,
      fun _ h => absurd h List.not_mem_nil⟩
  | cons e enums ih =>
    rw [addEnumName]
    split_ifs with hfound
    · rw [Bool.and_eq_true, mapDeepEqual_iff] at hfound
      refine ⟨⟨_, List.mem_cons_self, hfound⟩, List.forall_mem_cons.mpr ⟨?_, fun e' he' => ?_⟩⟩
      · exact ⟨_, List.mem_cons_self, rfl, rfl⟩
      · exact ⟨e', List.mem_cons_of_mem _ he', rfl, rfl⟩
    · obtain ⟨⟨e₀, he₀, hof⟩, hkept⟩ := ih
      refine ⟨⟨e₀, List.mem_cons_of_mem _ he₀, hof⟩,
        List.forall_mem_cons.mpr ⟨?_, fun e' he' => ?_⟩⟩
      · exact ⟨e, List.mem_cons_self, rfl, rfl⟩
      · obtain ⟨e₁, he₁, hsame⟩ := hkept e' he'
        exact ⟨e₁, List.mem_cons_of_mem _ he₁, hsame⟩

theorem EnumEntry.Of.congr {e e' : EnumEntry} {md : MetricDimension} (h : e'.Of md)
    (hevents : e.events = e'.events) (haliases : e.aliases = e'.aliases) : e.Of md :=
  ⟨by rw [hevents]; exact h.events, by rw [haliases]; exact h.aliases⟩

/-- The step. -/
theorem EnumsOf.addEnumName {dimensions : List MetricDimension} {enums : List EnumEntry}
    (h : EnumsOf dimensions enums) {md : MetricDimension} {events : ProtoMap ℕ String}
    (hevents : ∀ id, events.lookup id = md.eventCodes.lookup id) (name : EnumName) :
    EnumsOf (dimensions ++ [md]) (addEnumName events md.aliases name enums) := by
  obtain ⟨⟨e, he, heventsEq, haliasesEq⟩, hkept⟩ :=
    exists_mem_addEnumName events md.aliases name enums
  refine ⟨fun e he => ?_, fun md' hmd' => ?_⟩
  · rcases mem_addEnumName he with rfl | ⟨e', he', hevents', haliases', hnames⟩
    · exact ⟨List.cons_ne_nil _ _, md, by simp, hevents, aliasesDeepEqual_self _⟩
    · obtain ⟨hne, md', hmd', hof⟩ := h.sound e' he'
      exact ⟨hnames hne, md', List.mem_append_left _ hmd', hof.congr hevents' haliases'⟩
  · rcases List.mem_append.mp hmd' with hmd' | hmd'
    · obtain ⟨e', he', hof⟩ := h.complete md' hmd'
      obtain ⟨e'', he'', hevents'', haliases''⟩ := hkept e' he'
      exact ⟨e'', he'', hof.congr hevents'' haliases''⟩
    · obtain rfl := List.mem_singleton.mp hmd'
      exact ⟨e, he, fun id => (heventsEq id).trans (hevents id), haliasesEq⟩

/-- The enums are those of the dimensions. -/
theorem enumsOf_enumEntries (orders : RangeOrders) (metrics : List MetricDefinition) :
    EnumsOf ((dimensionsOf metrics).map fun d => d.2.1) (enumEntries orders metrics) := by
  rw [enumEntries_eq_foldl]
  induction dimensionsOf metrics using List.reverseRecOn with
  | nil => exact ⟨fun _ h => absurd h List.not_mem_nil, fun _ h => absurd h List.not_mem_nil⟩
  | append_singleton done d ih =>
    rw [List.foldl_append, List.map_append]
    exact ih.addEnumName (fun id => lookup_ofPairs_range _ _ id) _

/-! ### Aliases with the same lines -/

/-- All aliases have the same line, and so have the constants that export them. -/
def SameLines (unicode : Unicode) (language : Language) (aliases : ProtoMap String String) : Prop :=
  ∀ a ∈ aliases.entries, ∀ b ∈ aliases.entries, ∀ name,
    language.writeEnumAlias unicode name [a.1] [a.2] =
        language.writeEnumAlias unicode name [b.1] [b.2] ∧
      language.writeEnumExport unicode name [a.2] = language.writeEnumExport unicode name [b.2]

/-- What is written for each entry of a map is written in every order, if it is the same for all
entries. -/
theorem flatMap_range_eq {K V : Type} (order order' : MapOrder) {m : ProtoMap K V}
    {f : (_ : K) × V → List String} (hf : ∀ a ∈ m.entries, ∀ b ∈ m.entries, f a = f b) :
    (order.range m).flatMap f = (order'.range m).flatMap f := by
  have hperm := (order.perm m).trans (order'.perm m).symm
  rw [List.flatMap_def, List.flatMap_def]
  congr 1
  have hsame (order : MapOrder) : ((order.range m).map f).Pairwise fun a b => a = b :=
    List.pairwise_map.mpr (List.pairwise_of_forall_mem_list fun a ha b hb =>
      hf a ((order.perm m).mem_iff.mp ha) b ((order.perm m).mem_iff.mp hb))
  exact List.Perm.eq_of_pairwise (fun a b _ _ h _ => h) (hsame order) (hsame order') (hperm.map f)

section Same

variable {unicode : Unicode} {language : Language} {e e' : EnumEntry}
  (hsame : e.Same e') (hlines : SameLines unicode language (e.aliases.getD ∅))
include hsame hlines

theorem writeEnumType_eq (order order' : MapOrder) (keys : List ℕ) (name : List String) :
    writeEnumType unicode language order e keys name =
      writeEnumType unicode language order' e' keys name := by
  have haliases := flatMap_range_eq order order' fun a ha b hb => (hlines a ha b hb name).1
  simp only [writeEnumType, hsame.events, haliases, ← hsame.aliases]

theorem writeEnumExports_eq (order order' : MapOrder) (keys : List ℕ) (name : List String) :
    writeEnumExports unicode language order e keys name =
      writeEnumExports unicode language order' e' keys name := by
  have haliases := flatMap_range_eq order order' fun a ha b hb => (hlines a ha b hb name).2
  simp only [writeEnumExports, hsame.events, haliases, ← hsame.aliases]

theorem writeEnumName_eq (order₁ order₁' order₂ order₂' : MapOrder) (keys : List ℕ)
    (projectName : String) (hasGlobalName : Bool) (first : EnumName) (name : EnumName × ℕ) :
    writeEnumName unicode language order₁ order₂ e keys projectName hasGlobalName first name =
      writeEnumName unicode language order₁' order₂' e' keys projectName hasGlobalName first
        name := by
  simp only [writeEnumName, writeEnumType_eq hsame hlines order₁ order₁',
    writeEnumExports_eq hsame hlines order₂ order₂']

end Same

theorem hasGlobalName_eq (language : Language) {e e' : EnumEntry} (hsame : e.Same e')
    (firstSuffix : String) {enums enums' : List EnumEntry}
    (h : List.Forall₂ EnumEntry.Same enums enums') :
    hasGlobalName language e firstSuffix enums = hasGlobalName language e' firstSuffix enums' := by
  have hall : (enums.all fun enum => enum.deepEqual e ||
        enum.names.all fun name => name.suffix ≠ firstSuffix) =
      enums'.all fun enum => enum.deepEqual e' ||
        enum.names.all fun name => name.suffix ≠ firstSuffix := by
    induction h with
    | nil => rfl
    | cons henum _ ih => rw [List.all_cons, List.all_cons, henum.deepEqual hsame, henum.names, ih]
  rw [hasGlobalName, hasGlobalName, hall, hsame.names]

/-- An enum whose aliases have the same lines is written in the same way for every order. -/
theorem writeEnum_eq {unicode : Unicode} {language : Language} {e e' : EnumEntry}
    (hsame : e.Same e')
    (hlines : e.events.entries ≠ [] → SameLines unicode language (e.aliases.getD ∅))
    (orders orders' : RangeOrders) (projectName : String) {enums enums' : List EnumEntry}
    (h : List.Forall₂ EnumEntry.Same enums enums') (i : ℕ) :
    writeEnum unicode language orders projectName enums (e, i) =
      writeEnum unicode language orders' projectName enums' (e', i) := by
  have hlength := (entries_perm_of_lookup hsame.events).length_eq
  rw [writeEnum, writeEnum, hlength]
  split_ifs with hempty
  · rfl
  · have hlines := hlines fun hnil => hempty (hlength ▸ by rw [hnil]; rfl)
    rw [← hsame.names]
    rcases e.names with _ | ⟨first, names⟩
    · rfl
    · simp only [enumKeys_eq (orders.enumKeys i) (orders'.enumKeys i) hsame.events,
        hasGlobalName_eq language hsame first.suffix h]
      exact List.flatMap_congr fun name _ => writeEnumName_eq hsame hlines _ _ _ _ _ _ _ _ _

/-- The registry has a single project. -/
def singleProject (customerName : String) (customerId : ℕ) (project : ProjectConfig) :
    CobaltRegistry :=
  ⟨[⟨customerName, customerId, [project]⟩]⟩

/-- What is written before the enums. -/
def linesBeforeEnums (unicode : Unicode) (language : Language) (forTesting : Bool)
    (orders : RangeOrders) (customerName : String) (customerId : ℕ) (project : ProjectConfig) :
    List String :=
  writeNames unicode language ⟨customerName, customerId, [project]⟩ project ++ [""] ++
    writeAllIntBuckets unicode language project.metrics ++
    writeIdConstants unicode language (orders.idConstants "Metric") "Metric"
      (metricIds project.metrics) ++
    if forTesting then
      writeIdConstants unicode language (orders.idConstants "Report") "Report"
        (reportIds project.metrics)
    else []

section SingleProject

variable {unicode : Unicode} {language : Language} {forTesting : Bool} {customerName : String}
  {customerId : ℕ} {project : ProjectConfig}

theorem writeV1Constants_singleProject (orders : RangeOrders) :
    writeV1Constants unicode language forTesting orders
        (singleProject customerName customerId project) =
      some (.ok (linesBeforeEnums unicode language forTesting orders customerName customerId
        project ++
        (enumEntries orders project.metrics).zipIdx.flatMap
          (writeEnum unicode language orders project.projectName
            (enumEntries orders project.metrics)))) :=
  rfl

theorem writeIdConstants_eq (order order' : MapOrder) (constType : String)
    (entries : ProtoMap String ℕ) :
    writeIdConstants unicode language order constType entries =
      writeIdConstants unicode language order' constType entries := by
  rw [writeIdConstants, writeIdConstants, idKeys_eq order order']

theorem linesBeforeEnums_eq (orders orders' : RangeOrders) :
    linesBeforeEnums unicode language forTesting orders customerName customerId project =
      linesBeforeEnums unicode language forTesting orders' customerName customerId project := by
  rw [linesBeforeEnums, linesBeforeEnums,
    writeIdConstants_eq (orders.idConstants "Metric") (orders'.idConstants "Metric"),
    writeIdConstants_eq (orders.idConstants "Report") (orders'.idConstants "Report")]

theorem flatMap_zipIdx_eq {α : Type} {r : α → α → Prop} {f g : α × ℕ → List String}
    {l l' : List α} (h : List.Forall₂ r l l')
    (hfg : ∀ a ∈ l, ∀ a' i, r a a' → f (a, i) = g (a', i)) (k : ℕ) :
    (l.zipIdx k).flatMap f = (l'.zipIdx k).flatMap g := by
  induction h generalizing k with
  | nil => rfl
  | cons ha _ ih =>
    obtain ⟨hhead, htail⟩ := List.forall_mem_cons.mp hfg
    rw [List.zipIdx_cons, List.zipIdx_cons, List.flatMap_cons, List.flatMap_cons,
      hhead _ _ ha, ih htail]

/-- Aliases of a dimension have the same identifiers, of the event codes and of the aliases. -/
def AliasesAgree (unicode : Unicode) (md : MetricDimension) : Prop :=
  ∀ a ∈ md.eventCodeAliases.entries, ∀ b ∈ md.eventCodeAliases.entries,
    toPascalCase unicode [a.1] = toPascalCase unicode [b.1] ∧
      toPascalCase unicode [a.2] = toPascalCase unicode [b.2]

theorem getD_aliases (md : MetricDimension) : md.aliases.getD ∅ = md.eventCodeAliases := by
  rw [MetricDimension.aliases]
  split_ifs with hempty
  · exact AList.ext hempty.1.symm
  · rfl

/-- The enum of a dimension has the entries of its maps. -/
theorem EnumEntry.Of.aliases_perm {e : EnumEntry} {md : MetricDimension} (h : e.Of md) :
    (e.aliases.getD ∅).entries.Perm md.eventCodeAliases.entries := by
  rw [← getD_aliases md]
  exact entries_perm_of_lookup (aliasesDeepEqual_iff.mp h.aliases).2

theorem EnumEntry.Of.events_eq_nil_iff {e : EnumEntry} {md : MetricDimension} (h : e.Of md) :
    e.events.entries = [] ↔ md.eventCodes.entries = [] :=
  ⟨fun hnil => List.nil_perm.mp (hnil ▸ entries_perm_of_lookup h.events),
    fun hnil => List.perm_nil.mp (hnil ▸ entries_perm_of_lookup h.events)⟩

theorem sameLines_of_aliasesAgree {e : EnumEntry} {md : MetricDimension} (h : e.Of md)
    (hagree : AliasesAgree unicode md) : SameLines unicode language (e.aliases.getD ∅) := by
  intro a ha b hb name
  obtain ⟨hfrom, hto⟩ := hagree a (h.aliases_perm.mem_iff.mp ha) b (h.aliases_perm.mem_iff.mp hb)
  cases language <;> simp only [Language.writeEnumAlias, Language.writeEnumExport, hfrom, hto,
    and_self]

/-- Nothing is written for aliases in Go. -/
theorem sameLines_go (aliases : ProtoMap String String) : SameLines unicode .Go aliases :=
  fun _ _ _ _ _ => ⟨rfl, rfl⟩

/-- Enums whose aliases have the same lines make the text the same for every order. -/
theorem writeV1Constants_eq (orders orders' : RangeOrders)
    (hlines : ∀ e ∈ enumEntries orders project.metrics, e.events.entries ≠ [] →
      SameLines unicode language (e.aliases.getD ∅)) :
    writeV1Constants unicode language forTesting orders
        (singleProject customerName customerId project) =
      writeV1Constants unicode language forTesting orders'
        (singleProject customerName customerId project) := by
  have hsame := enumEntries_same orders orders' project.metrics
  rw [writeV1Constants_singleProject, writeV1Constants_singleProject,
    linesBeforeEnums_eq orders orders', flatMap_zipIdx_eq hsame fun e he e' i hee' => ?_]
  exact writeEnum_eq hee' (hlines e he) orders orders' _ hsame i

end SingleProject

/-! ### Aliases with other lines -/

/-- The characters of an ident are none of those that follow it. -/
theorem notMem_toPascalCase {unicode : Unicode} {nameParts : List String} {c : Char}
    (hc : isIdentChar c = false) : c ∉ (toPascalCase unicode nameParts).toList := by
  intro hmem
  rw [isIdentChar_toPascalCase hmem] at hc
  cases hc

/-- The lines of an alias determine its identifiers. -/
theorem toPascalCase_eq_of_writeEnumAlias {unicode : Unicode} {language : Language}
    (hlanguage : language ≠ .Go) {name fromName toName fromName' toName' lines lines' : List String}
    (h : linesText (language.writeEnumAlias unicode name fromName toName ++ lines) =
      linesText (language.writeEnumAlias unicode name fromName' toName' ++ lines')) :
    toPascalCase unicode fromName = toPascalCase unicode fromName' ∧
      toPascalCase unicode toName = toPascalCase unicode toName' := by
  have hchars := congrArg String.toList h
  cases language with
  | Go => exact absurd rfl hlanguage
  | CPP | Dart | Rust =>
    simp [linesText, Language.writeEnumAlias] at hchars
    obtain ⟨hto, hrest⟩ := Separated.append_inj_of_first (notMem_toPascalCase rfl)
      (notMem_toPascalCase rfl) hchars
    simp at hrest
    obtain ⟨hfrom, -⟩ := Separated.append_inj_of_first (notMem_toPascalCase rfl)
      (notMem_toPascalCase rfl) hrest
    exact ⟨String.toList_inj.mp hfrom, String.toList_inj.mp hto⟩

/-- The entries from a position on, and then those before it. -/
def rotated (n : ℕ) : MapOrder where
  range m := m.entries.rotate n
  perm m := List.rotate_perm m.entries n

/-- The orders in which only the aliases of one enum, under its first name, are not in the order of
the entries. -/
def rotatedAt (i n : ℕ) : RangeOrders where
  idConstants _ := .lastFirst
  eventCodes _ _ := .lastFirst
  enumKeys _ := .lastFirst
  enumAliases i' j := if i' = i ∧ j = 0 then rotated n else .lastFirst
  enumExports _ _ := .lastFirst

theorem enumAliases_rotatedAt_self (i n : ℕ) : (rotatedAt i n).enumAliases i 0 = rotated n :=
  if_pos ⟨rfl, rfl⟩

theorem enumAliases_rotatedAt_of_ne {i i' j : ℕ} (h : i' ≠ i ∨ j ≠ 0) (n : ℕ) :
    (rotatedAt i n).enumAliases i' j = .lastFirst :=
  if_neg fun hij => h.elim (absurd hij.1) (absurd hij.2)

/-- What is written for `n` is the same for all `n`, but for some lines in it. -/
def Around (lines inner : ℕ → List String) : Prop :=
  ∃ before after, ∀ n, lines n = before ++ inner n ++ after

theorem Around.congr {lines lines' inner : ℕ → List String} (h : Around lines inner)
    (heq : ∀ n, lines' n = lines n) : Around lines' inner := by
  obtain ⟨before, after, h⟩ := h
  exact ⟨before, after, fun n => (heq n).trans (h n)⟩

theorem Around.append_left {lines inner : ℕ → List String} (h : Around lines inner)
    (l : List String) : Around (fun n => l ++ lines n) inner := by
  obtain ⟨before, after, h⟩ := h
  exact ⟨l ++ before, after, fun n => by simp only [h, List.append_assoc]⟩

theorem Around.append_right {lines inner : ℕ → List String} (h : Around lines inner)
    (l : List String) : Around (fun n => lines n ++ l) inner := by
  obtain ⟨before, after, h⟩ := h
  exact ⟨before, after ++ l, fun n => by simp only [h, List.append_assoc]⟩

theorem linesText_append (l l' : List String) :
    linesText (l ++ l') = linesText l ++ linesText l' := by
  refine String.toList_inj.mp ?_
  simp only [linesText, String.toList_append, String.toList_join, List.map_append,
    List.flatMap_append]

/-- The same text has the same lines in it. -/
theorem Around.linesText_eq {lines inner : ℕ → List String} (h : Around lines inner) {p q : ℕ}
    (heq : linesText (lines p) = linesText (lines q)) :
    linesText (inner p) = linesText (inner q) := by
  obtain ⟨before, after, h⟩ := h
  rw [h, h] at heq
  simp only [linesText_append] at heq
  have hchars := congrArg String.toList heq
  simp only [String.toList_append] at hchars
  exact String.toList_inj.mp (List.append_cancel_left (List.append_cancel_right hchars))

section Around

variable (unicode : Unicode) (language : Language)

/-- The lines of the aliases. -/
def aliasLines (e : EnumEntry) (name : List String) (n : ℕ) : List String :=
  ((rotated n).range (e.aliases.getD ∅)).flatMap fun a =>
    language.writeEnumAlias unicode name [a.1] [a.2]

theorem around_writeEnumType {e : EnumEntry} (haliases : (e.aliases.getD ∅).entries ≠ [])
    (keys : List ℕ) (name : List String) :
    Around (fun n => writeEnumType unicode language (rotated n) e keys name)
      (aliasLines unicode language e name) := by
  have hpos : 0 < (e.aliases.getD ∅).entries.length := List.length_pos_iff.mpr haliases
  refine ⟨language.writeEnumBegin unicode name ++
    (keys.flatMap fun id =>
      language.writeEnumEntry unicode id [(e.events.lookup id).getD ""]) ++
    language.writeEnumAliasesBegin unicode name, language.writeEnumEnd unicode name, fun n => ?_⟩
  simp only [writeEnumType, if_pos hpos, aliasLines, List.append_assoc]

theorem around_writeEnumName {e : EnumEntry} (haliases : (e.aliases.getD ∅).entries ≠ [])
    (order : MapOrder) (keys : List ℕ) (projectName : String) (hasGlobalName : Bool)
    (first name : EnumName) :
    Around (fun n => writeEnumName unicode language (rotated n) order e keys projectName
        hasGlobalName first (name, 0))
      (aliasLines unicode language e
        [if hasGlobalName then projectName else name.namePrefix, name.suffix]) := by
  simp only [writeEnumName, true_or, if_true]
  have htype := around_writeEnumType unicode language haliases keys
    [if hasGlobalName then projectName else name.namePrefix, name.suffix]
  exact (((htype.append_left _).append_right _).append_right _).append_right _

/-- The enum, under its first name. -/
theorem around_writeEnum {e : EnumEntry} (haliases : (e.aliases.getD ∅).entries ≠ [])
    (hevents : e.events.entries ≠ []) (hnames : e.names ≠ []) (projectName : String)
    (enums : List EnumEntry) (i : ℕ) :
    ∃ name, Around (fun n => writeEnum unicode language (rotatedAt i n) projectName enums (e, i))
      (aliasLines unicode language e name) := by
  obtain ⟨first, names, hcons⟩ := List.exists_cons_of_ne_nil hnames
  have hlength : ¬ e.events.entries.length = 0 := fun h => hevents (List.length_eq_zero_iff.mp h)
  have haround := (around_writeEnumName unicode language haliases
    .lastFirst (enumKeys .lastFirst e.events) projectName
    (hasGlobalName language e first.suffix enums) first first).append_right
      ((names.zipIdx 1).flatMap fun name => writeEnumName unicode language .lastFirst .lastFirst e
        (enumKeys .lastFirst e.events) projectName
        (hasGlobalName language e first.suffix enums) first name)
  refine ⟨_, haround.congr fun n => ?_⟩
  simp only [writeEnum, if_neg hlength, hcons, List.zipIdx_cons, List.flatMap_cons, zero_add,
    enumAliases_rotatedAt_self]
  refine congrArg₂ _ rfl (List.flatMap_congr fun name hname => ?_)
  have hpos : name.2 ≠ 0 := Nat.one_le_iff_ne_zero.mp (List.le_snd_of_mem_zipIdx hname)
  rw [enumAliases_rotatedAt_of_ne (Or.inr hpos)]
  rfl

/-- The other enums do not depend on it. -/
theorem writeEnum_rotatedAt_of_ne {i i' : ℕ} (hi : i' ≠ i) (n : ℕ) (projectName : String)
    (enums : List EnumEntry) (e : EnumEntry) :
    writeEnum unicode language (rotatedAt i n) projectName enums (e, i') =
      writeEnum unicode language (rotatedAt i 0) projectName enums (e, i') := by
  simp only [writeEnum, enumAliases_rotatedAt_of_ne (Or.inl hi)]
  rfl

/-- All enums. -/
theorem around_enums {before after enums : List EnumEntry} {e : EnumEntry}
    (henums : enums = before ++ e :: after) (haliases : (e.aliases.getD ∅).entries ≠ [])
    (hevents : e.events.entries ≠ []) (hnames : e.names ≠ []) (projectName : String) :
    ∃ name, Around (fun n => enums.zipIdx.flatMap
        (writeEnum unicode language (rotatedAt before.length n) projectName enums))
      (aliasLines unicode language e name) := by
  obtain ⟨name, haround⟩ := around_writeEnum unicode language haliases
    hevents hnames projectName enums before.length
  have hother (l : List (EnumEntry × ℕ)) (hl : ∀ enum ∈ l, enum.2 ≠ before.length) (n : ℕ) :
      l.flatMap (writeEnum unicode language (rotatedAt before.length n) projectName enums) =
        l.flatMap (writeEnum unicode language (rotatedAt before.length 0) projectName enums) :=
    List.flatMap_congr fun enum henum =>
      writeEnum_rotatedAt_of_ne unicode language (hl enum henum) n _ _ enum.1
  refine ⟨name, ((haround.append_right ((after.zipIdx (before.length + 1)).flatMap
    (writeEnum unicode language (rotatedAt before.length 0) projectName enums))).append_left
      (before.zipIdx.flatMap
        (writeEnum unicode language (rotatedAt before.length 0) projectName enums))).congr
          fun n => ?_⟩
  rw [← hother before.zipIdx (fun enum henum => ?_) n, ← hother (after.zipIdx _)
    (fun enum henum => ?_) n]
  · conv_lhs => rw [henums, List.zipIdx_append, List.zipIdx_cons, List.flatMap_append,
      List.flatMap_cons, zero_add, ← henums]
  · exact Nat.ne_of_gt (List.le_snd_of_mem_zipIdx henum)
  · exact Nat.ne_of_lt (List.snd_lt_of_mem_zipIdx henum)

end Around

/-! ### Reproducible text -/

/-- Two runs on the registry produce the same text, whatever the orders of their iterations. -/
def Reproducible (unicode : Unicode) (language : Language) (forTesting : Bool)
    (c : CobaltRegistry) : Prop :=
  ∀ orders orders', generatedText unicode language forTesting orders c =
    generatedText unicode language forTesting orders' c

/-- The aliases from a position on begin with the alias at that position. -/
theorem exists_aliasLines_eq (unicode : Unicode) (language : Language) {e : EnumEntry}
    {a : (_ : String) × String} (ha : a ∈ (e.aliases.getD ∅).entries) (name : List String) :
    ∃ n lines, aliasLines unicode language e name n =
      language.writeEnumAlias unicode name [a.1] [a.2] ++ lines := by
  obtain ⟨n, hn, rfl⟩ := List.getElem_of_mem ha
  have hrotate : (e.aliases.getD ∅).entries.rotate n = (e.aliases.getD ∅).entries[n] ::
      ((e.aliases.getD ∅).entries.drop (n + 1) ++ (e.aliases.getD ∅).entries.take n) := by
    rw [List.rotate_eq_drop_append_take hn.le, List.drop_eq_getElem_cons hn, List.cons_append]
  have hlines := congrArg (List.flatMap fun a : (_ : String) × String =>
    language.writeEnumAlias unicode name [a.1] [a.2]) hrotate
  rw [List.flatMap_cons] at hlines
  exact ⟨n, _, hlines⟩

/-- The aliases of an enum agree, if the text is the same for every order. -/
theorem Reproducible.aliasesAgree {unicode : Unicode} {language : Language} {forTesting : Bool}
    {customerName : String} {customerId : ℕ} {project : ProjectConfig}
    (h : Reproducible unicode language forTesting (singleProject customerName customerId project))
    (hlanguage : language ≠ .Go) {e : EnumEntry}
    (he : e ∈ enumEntries (rotatedAt 0 0) project.metrics) (hevents : e.events.entries ≠ [])
    (hnames : e.names ≠ []) {a b : (_ : String) × String}
    (ha : a ∈ (e.aliases.getD ∅).entries) (hb : b ∈ (e.aliases.getD ∅).entries) :
    toPascalCase unicode [a.1] = toPascalCase unicode [b.1] ∧
      toPascalCase unicode [a.2] = toPascalCase unicode [b.2] := by
  obtain ⟨before, after, henums⟩ := List.append_of_mem he
  obtain ⟨name, haround⟩ := around_enums unicode language henums
    (List.ne_nil_of_mem ha) hevents hnames project.projectName
  obtain ⟨p, lines, hp⟩ := exists_aliasLines_eq unicode language ha name
  obtain ⟨q, lines', hq⟩ := exists_aliasLines_eq unicode language hb name
  have htext := h (rotatedAt before.length p) (rotatedAt before.length q)
  simp only [generatedText, writeV1Constants_singleProject, Option.map_some, Except.map,
    Option.some_inj, Except.ok.injEq] at htext
  rw [linesBeforeEnums_eq (rotatedAt before.length p) (rotatedAt before.length q)] at htext
  have hlines := (haround.append_left _).linesText_eq htext
  rw [hp, hq] at hlines
  exact toPascalCase_eq_of_writeEnumAlias hlanguage hlines

/-- **The text is the same for every order of the iterations** if and only if nothing is written for
aliases, as in Go, or the aliases of each dimension that has event codes have the same
identifiers. -/
theorem reproducible_iff (unicode : Unicode) (language : Language) (forTesting : Bool)
    (customerName : String) (customerId : ℕ) (project : ProjectConfig) :
    Reproducible unicode language forTesting (singleProject customerName customerId project) ↔
      language = .Go ∨ ∀ metric ∈ project.metrics, ∀ md ∈ metric.metricDimensions,
        md.eventCodes.entries ≠ [] → AliasesAgree unicode md := by
  have hmem {metric : MetricDefinition} {md : MetricDimension} :
      (∃ i j, ((metric, i), md, j) ∈ dimensionsOf project.metrics) ↔
        metric ∈ project.metrics ∧ md ∈ metric.metricDimensions := mem_dimensionsOf
  constructor
  · intro h
    rw [or_iff_not_imp_left]
    intro hlanguage metric hmetric md hmd hcodes a ha b hb
    obtain ⟨i, j, hd⟩ := hmem.mpr ⟨hmetric, hmd⟩
    have henums := enumsOf_enumEntries (rotatedAt 0 0) project.metrics
    obtain ⟨e, he, hof⟩ := henums.complete md (List.mem_map.mpr ⟨_, hd, rfl⟩)
    exact h.aliasesAgree hlanguage he (mt hof.events_eq_nil_iff.mp hcodes) (henums.sound e he).1
      (hof.aliases_perm.mem_iff.mpr ha) (hof.aliases_perm.mem_iff.mpr hb)
  · intro h orders orders'
    rw [generatedText, generatedText, writeV1Constants_eq orders orders' fun e he hevents => ?_]
    rcases h with rfl | hagree
    · exact sameLines_go _
    · obtain ⟨-, md, hmd, hof⟩ := (enumsOf_enumEntries orders project.metrics).sound e he
      obtain ⟨⟨⟨metric, i⟩, md, j⟩, hd, rfl⟩ := List.mem_map.mp hmd
      obtain ⟨hmetric, hmd⟩ := hmem.mp ⟨i, j, hd⟩
      exact sameLines_of_aliasesAgree hof
        (hagree metric hmetric md hmd (mt hof.events_eq_nil_iff.mpr hevents))

/-- A project with one metric, which has one dimension with two event codes, each with an alias. -/
def twoAliases : ProjectConfig where
  projectName := "ledger"
  projectId := 10
  metrics := [{
    metricName := "opened"
    id := 1
    metricDimensions := [{
      dimension := "kind"
      eventCodes := .ofPairs [(0, "New"), (1, "Known")]
      eventCodeAliases := .ofPairs [("New", "Fresh"), ("Known", "Old")] }] }]

/-- Two aliases in a dimension. In C++, the line of the first alias is written before that of
the second one, or after it. -/
theorem not_reproducible_twoAliases :
    ¬ Reproducible .ascii .CPP false (singleProject "fuchsia" 20 twoAliases) := by
  intro h
  have henums : enumEntries (rotatedAt 0 0) twoAliases.metrics = [{
      events := .ofPairs [(1, "Known"), (0, "New")]
      aliases := some (.ofPairs [("New", "Fresh"), ("Known", "Old")])
      names := [⟨"opened", "Metric Dimension kind"⟩] }] := rfl
  obtain ⟨hagree, -⟩ := h.aliasesAgree Language.noConfusion
    (henums ▸ List.mem_singleton_self _) (List.cons_ne_nil _ _) (List.cons_ne_nil _ _)
    (a := ProtoMap.entry "Known" "Old") (b := ProtoMap.entry "New" "Fresh")
    List.mem_cons_self (List.mem_cons_of_mem _ List.mem_cons_self)
  revert hagree
  decide

end Cobalt.SourceGenerator
