import Cobalt.SourceGenerator.Reproducible
import Cobalt.SourceGenerator.Spelling

/-!
# Distinct generated names

The validation asks that the names of the metrics of a project are distinct, and those of the event
codes of a dimension. The generator makes constants and identifiers of them, and some distinct names
have the same one: the names are the same to a client if they have the same spelling.

## Main definitions

* `idConstantNames`, `enumIdentifiers`: the names that are generated.
* `DistinctNames`: no two of them are the same.
* `DistinctSpelling`: no two metrics have the same spelling, and no two names in an enum.

## Main results

* `spelling_of_constName`: constants with the same name, in each language.
* `nodup_enumIdentifiers_iff`: the identifiers of an enum.
* `distinctNames_iff`: for which projects the names are distinct.
-/

namespace Cobalt.SourceGenerator

open ConfigParser (perm_sliceStable)
open ConfigValidator (isValidName)

/-! ### Valid names -/

theorem isAscii_of_isIdentChar {c : Char} (hc : isIdentChar c = true) : isAscii c = true := by
  have hz : c.toNat ≤ 'z'.toNat := by
    rcases (Bool.or_eq_true c.isAlphanum _).mp hc with halphanum | hunderscore
    · rcases (Bool.or_eq_true c.isAlpha c.isDigit).mp halphanum with halpha | hdigit
      · rcases (Bool.or_eq_true c.isUpper c.isLower).mp halpha with hupper | hlower
        · have hZ : c.toNat ≤ 'Z'.toNat := (of_decide_eq_true hupper).2
          exact hZ.trans (by decide)
        · exact of_decide_eq_true ((Bool.and_eq_true _ _).mp hlower).2
      · have h9 : c.toNat ≤ '9'.toNat := of_decide_eq_true ((Bool.and_eq_true _ _).mp hdigit).2
        exact h9.trans (by decide)
    · rw [beq_iff_eq.mp hunderscore]
      decide
  exact decide_eq_true (hz.trans_lt (by decide))

/-- A valid name begins with a letter, and has the characters of idents. -/
theorem exists_of_isValidName {name : String} (h : isValidName name = true) :
    ∃ c cs, name.toList = c :: cs ∧ c.isAlpha = true ∧ ∀ d ∈ name.toList, isIdentChar d = true := by
  rw [isValidName] at h
  split at h
  · cases h
  · rename_i c cs hname
    simp only [Bool.and_eq_true, List.all_eq_true] at h
    obtain ⟨⟨⟨halpha, -⟩, -⟩, hall⟩ := h
    refine ⟨c, cs, hname, halpha, fun d hd => ?_⟩
    rw [hname] at hd
    rw [isIdentChar, Char.isAlphanum]
    rcases List.mem_cons.mp hd with rfl | hd
    · rw [halpha]
      rfl
    · have hd := hall d hd
      rw [Bool.or_comm] at hd
      exact hd

theorem isAsciiName_of_isValidName {name : String} (h : isValidName name = true) :
    IsAsciiName name := by
  obtain ⟨-, -, -, -, hident⟩ := exists_of_isValidName h
  exact fun c hc => isAscii_of_isIdentChar (hident c hc)

/-! ### The constants of metrics -/

/-- What follows the name of a metric in the name of its constant. -/
theorem flatMap_capitals_metric (name : String) :
    [name, "Metric", "id"].flatMap capitals = capitals name ++ "MetricId".toList := by
  have hmetric : capitals "Metric" ++ capitals "id" = "MetricId".toList := by decide +kernel
  rw [List.flatMap_cons, List.flatMap_cons, List.flatMap_singleton, hmetric]

theorem isAsciiName_parts {name : String} (hname : IsAsciiName name) :
    ∀ part ∈ [name, "Metric", "id"], IsAsciiName part := by
  intro part hpart
  simp only [List.mem_cons, List.not_mem_nil, or_false] at hpart
  rcases hpart with rfl | rfl | rfl
  · exact hname
  · exact isAsciiName_of_all (by decide +kernel)
  · exact isAsciiName_of_all (by decide +kernel)

section Names

variable (unicode : Unicode) {name name' : String}

theorem underscore_notMem_metric (hname : IsAsciiName name) :
    '_' ∉ capitals name ++ "MetricId".toList := by
  rw [List.mem_append, not_or]
  exact ⟨underscore_notMem_capitals hname, by decide⟩

theorem toList_toPascalCase_metric (hname : IsAsciiName name) :
    (toPascalCase unicode [name, "Metric", "id"]).toList =
      sanitizeIdent (capitals name ++ "MetricId".toList) := by
  rw [toList_toPascalCase unicode (isAsciiName_parts hname), flatMap_capitals_metric]

/-- What is shown of the name of a constant is what is shown of the name of the metric. -/
theorem map_sanitizeChar_metric_iff (hname : IsAsciiName name) (hname' : IsAsciiName name') :
    (capitals name ++ "MetricId".toList).map sanitizeChar =
        (capitals name' ++ "MetricId".toList).map sanitizeChar ↔
      spelling name = spelling name' := by
  rw [List.map_append, List.map_append, List.append_cancel_right_eq,
    map_sanitizeChar_capitals_eq_iff hname hname']

theorem toPascalCase_metric_iff (hname : IsAsciiName name) (hname' : IsAsciiName name') :
    toPascalCase unicode [name, "Metric", "id"] = toPascalCase unicode [name', "Metric", "id"] ↔
      spelling name = spelling name' := by
  rw [← String.toList_inj, toList_toPascalCase_metric unicode hname,
    toList_toPascalCase_metric unicode hname',
    sanitizeIdent_inj (underscore_notMem_metric hname) (underscore_notMem_metric hname'),
    map_sanitizeChar_metric_iff hname hname']

/-- In C++ the name of a constant has a prefix, the only letter whose case is changed. -/
theorem spelling_of_toCamelCase_prefixed (hname : IsAsciiName name) (hname' : IsAsciiName name')
    (h : toCamelCase unicode ["k", name, "Metric", "id"] =
      toCamelCase unicode ["k", name', "Metric", "id"]) : spelling name = spelling name' := by
  have htoList {name : String} (hname : IsAsciiName name) :
      (toCamelCase unicode ["k", name, "Metric", "id"]).toList =
        unicode.ToLower 'K' :: (capitals name ++ "MetricId".toList).map sanitizeChar := by
    have hk : IsAsciiName "k" := isAsciiName_of_all (by decide +kernel)
    have hparts := List.forall_mem_cons.mpr ⟨hk, isAsciiName_parts hname⟩
    have hcapitals : capitals "k" = ['K'] := by decide +kernel
    rw [toCamelCase, String.toList_ofList, toList_toPascalCase unicode hparts, List.flatMap_cons,
      flatMap_capitals_metric, hcapitals]
    rfl
  have hchars := congrArg String.toList h
  rw [htoList hname, htoList hname'] at hchars
  exact (map_sanitizeChar_metric_iff hname hname').mp (List.cons.inj hchars).2

/-- A valid name shows its first letter as a capital. -/
theorem exists_capitals_eq (hname : isValidName name = true) :
    ∃ c rest, isAscii c = true ∧ c.isAlpha = true ∧ capitals name = c.toLower.toUpper :: rest := by
  obtain ⟨c, cs, htoList, halpha, hident⟩ := exists_of_isValidName hname
  have hc : isAscii c = true := isAscii_of_isIdentChar (hident c (htoList ▸ List.mem_cons_self))
  refine ⟨c, (letters c cs).map capital, hc, halpha, ?_⟩
  rw [capitals, htoList, letters_cons (isWordSeparator_of_isAlpha hc halpha)]
  rfl

/-- In Dart the case of the first letter is changed, which is a capital. -/
theorem spelling_of_toCamelCase (hname : isValidName name = true)
    (hname' : isValidName name' = true)
    (h : toCamelCase unicode [name, "Metric", "id"] = toCamelCase unicode [name', "Metric", "id"]) :
    spelling name = spelling name' := by
  have htoList {name : String} (hname : isValidName name = true) :
      ((toCamelCase unicode [name, "Metric", "id"]).toList.modifyHead Char.toUpper) =
        (capitals name ++ "MetricId".toList).map sanitizeChar := by
    have hascii := isAsciiName_of_isValidName hname
    obtain ⟨c, rest, hc, halpha, hcapitals⟩ := exists_capitals_eq hname
    rw [toCamelCase, String.toList_ofList, toList_toPascalCase_metric unicode hascii,
      sanitizeIdent_eq (underscore_notMem_metric hascii), hcapitals]
    obtain ⟨hhead, hshown, hcapital⟩ := sanitizeChar_toUpper_toLower hc halpha
    rw [List.cons_append, List.map_cons, List.head?_cons, Option.any_some, if_pos hhead,
      List.modifyHead_cons, List.modifyHead_cons, unicode.toLower_ascii _ hshown, hcapital]
  have hascii := isAsciiName_of_isValidName hname
  have hascii' := isAsciiName_of_isValidName hname'
  refine (map_sanitizeChar_metric_iff hascii hascii').mp ?_
  rw [← htoList hname, ← htoList hname', h]

/-- In Rust the words of a name are separated, and shown in upper case. -/
theorem spelling_of_toUpperSnakeCase (hname : isValidName name = true)
    (hname' : isValidName name' = true)
    (h : toUpperSnakeCase unicode [name, "Metric", "id"] =
      toUpperSnakeCase unicode [name', "Metric", "id"]) : spelling name = spelling name' := by
  have htitle {name : String} (hname : isValidName name = true) :
      title unicode true ((toUpperSnakeCase unicode [name, "Metric", "id"]).toList.map
        Char.toLower) = capitals name ++ "MetricId".toList := by
    have hascii := isAsciiName_parts (isAsciiName_of_isValidName hname)
    have hparts : ∀ part ∈ [name, "Metric", "id"], ∀ c ∈ part.toList,
        isIdentChar c = true ∧ isAscii c = true := by
      obtain ⟨-, -, -, -, hident⟩ := exists_of_isValidName hname
      have hmetric : ∀ part ∈ ["Metric", "id"], ∀ c ∈ part.toList, isIdentChar c = true :=
        List.forall_mem_cons.mpr ⟨List.all_eq_true.mp (by decide +kernel),
          List.forall_mem_singleton.mpr (List.all_eq_true.mp (by decide +kernel))⟩
      exact fun part hpart c hc =>
        ⟨List.forall_mem_cons.mpr ⟨hident, hmetric⟩ part hpart c hc, hascii part hpart c hc⟩
    rw [title_toUpperSnakeCase unicode hparts, title_splitIdentWords unicode hascii,
      flatMap_capitals_metric]
  have hascii := isAsciiName_of_isValidName hname
  have hascii' := isAsciiName_of_isValidName hname'
  refine (map_sanitizeChar_metric_iff hascii hascii').mp ?_
  rw [← htitle hname, ← htitle hname', h]

/-- Constants with the same name are those of metrics with the same spelling. -/
theorem spelling_of_constName (language : Language) (hname : isValidName name = true)
    (hname' : isValidName name' = true)
    (h : language.constName unicode [name, "Metric", "id"] =
      language.constName unicode [name', "Metric", "id"]) : spelling name = spelling name' := by
  have hascii := isAsciiName_of_isValidName hname
  have hascii' := isAsciiName_of_isValidName hname'
  cases language with
  | CPP => exact spelling_of_toCamelCase_prefixed unicode hascii hascii' h
  | Dart => exact spelling_of_toCamelCase unicode hname hname' h
  | Go => exact (toPascalCase_metric_iff unicode hascii hascii').mp h
  | Rust => exact spelling_of_toUpperSnakeCase unicode hname hname' h

end Names

/-! ### The names that are generated -/

/-- The names of the constants that `writeIdConstants` writes. -/
def idConstantNames (unicode : Unicode) (language : Language) (order : MapOrder)
    (constType : String) (entries : ProtoMap String ℕ) : List String :=
  (idKeys order entries).map fun name => language.constName unicode [name, constType, "id"]

/-- The identifiers that `writeEnum` writes in the enum, of the event codes and of the aliases. -/
def enumIdentifiers (unicode : Unicode) (keysOrder aliasesOrder : MapOrder) (entry : EnumEntry) :
    List String :=
  ((enumKeys keysOrder entry.events).map fun id =>
    toPascalCase unicode [(entry.events.lookup id).getD ""]) ++
  (aliasesOrder.range (entry.aliases.getD ∅)).map fun a => toPascalCase unicode [a.2]

/-- No two names that are generated are the same. -/
structure DistinctNames (unicode : Unicode) (metrics : List MetricDefinition) : Prop where
  constants : ∀ language order,
    (idConstantNames unicode language order "Metric" (metricIds metrics)).Nodup
  enums : ∀ orders, ∀ e ∈ enumEntries orders metrics, e.events.entries ≠ [] →
    ∀ keysOrder aliasesOrder, (enumIdentifiers unicode keysOrder aliasesOrder e).Nodup

/-- The names of the event codes of a dimension, and of the aliases. -/
def eventNames (md : MetricDimension) : List String :=
  md.eventCodes.entries.map Sigma.snd ++ md.eventCodeAliases.entries.map Sigma.snd

/-- No two metrics have the same spelling, and no two event codes or aliases of a dimension. -/
structure DistinctSpelling (metrics : List MetricDefinition) : Prop where
  names : (metrics.map fun metric => spelling metric.metricName).Nodup
  events : ∀ metric ∈ metrics, ∀ md ∈ metric.metricDimensions, md.eventCodes.entries ≠ [] →
    ((eventNames md).map spelling).Nodup

/-- The definition that was validated is the one that the generator reads. -/
structure Describes (metric : MetricDefinition)
    (definition : ConfigValidator.MetricDefinition) : Prop where
  metricName : definition.metricName = metric.metricName
  id : definition.id = metric.id
  metricDimensions : definition.metricDimensions =
    metric.metricDimensions.map MetricDimension.toMetricDimension
  reports : (definition.reports.map fun report => report.reportName) =
    metric.reports.map fun report => report.reportName

theorem nodup_map_of {α β γ : Type} {l : List α} {f : α → β} {g : α → γ}
    (h : ∀ a ∈ l, ∀ b ∈ l, f a = f b → g a = g b) (hg : (l.map g).Nodup) : (l.map f).Nodup := by
  rw [List.Nodup, List.pairwise_map] at hg ⊢
  exact hg.imp_of_mem fun {a b} ha hb hne heq => hne (h a ha b hb heq)

/-- The keys of a map that is built from distinct keys. -/
theorem keys_ofPairs_perm {K V : Type} [DecidableEq K] {l : List (K × V)}
    (h : (l.map Prod.fst).Nodup) :
    ((ProtoMap.ofPairs l).entries.map Sigma.fst).Perm (l.map Prod.fst) := by
  refine (List.perm_ext_iff_of_nodup (ProtoMap.ofPairs l).nodupKeys h).mpr fun k => ?_
  constructor
  · intro hk
    obtain ⟨⟨k, v⟩, he, rfl⟩ := List.mem_map.mp hk
    have hlookup := (ProtoMap.lookup_ofPairs_iff h).mp (ProtoMap.mem_entries_iff.mp he)
    exact List.mem_map.mpr ⟨(k, v), hlookup, rfl⟩
  · intro hk
    obtain ⟨⟨k, v⟩, hp, rfl⟩ := List.mem_map.mp hk
    have he : ProtoMap.entry k v ∈ (ProtoMap.ofPairs l).entries :=
      ProtoMap.mem_entries_iff.mpr ((ProtoMap.lookup_ofPairs_iff h).mpr hp)
    exact List.mem_map.mpr ⟨_, he, rfl⟩

theorem idKeys_perm (order : MapOrder) (entries : ProtoMap String ℕ) :
    (idKeys order entries).Perm (entries.entries.map Sigma.fst) :=
  (perm_sliceStable _ _).trans ((order.perm entries).map _)

/-- The constants are those of the metrics. -/
theorem idKeys_metricIds_perm (order : MapOrder) {metrics : List MetricDefinition}
    (hnames : (metrics.map fun metric => metric.metricName).Nodup)
    (hvalid : ∀ metric ∈ metrics, isValidName metric.metricName = true) :
    (idKeys order (metricIds metrics)).Perm (metrics.map fun metric => metric.metricName) := by
  have hall : metrics.filter (fun metric => metric.metricName ≠ "") = metrics := by
    refine List.filter_eq_self.mpr fun metric hmetric => decide_eq_true fun hempty => ?_
    have hinvalid := hvalid metric hmetric
    rw [hempty] at hinvalid
    exact absurd hinvalid (by decide)
  refine (idKeys_perm order _).trans ?_
  rw [metricIds, hall]
  refine (keys_ofPairs_perm ?_).trans (List.Perm.of_eq ?_)
  · rw [List.map_map]
    exact hnames
  · rw [List.map_map]
    rfl

/-- The identifiers of an enum are those of a dimension. -/
theorem enumIdentifiers_perm (unicode : Unicode) (keysOrder aliasesOrder : MapOrder)
    {e : EnumEntry} {md : MetricDimension} (hof : e.Of md) :
    (enumIdentifiers unicode keysOrder aliasesOrder e).Perm
      ((eventNames md).map fun name => toPascalCase unicode [name]) := by
  rw [enumIdentifiers, eventNames, List.map_append, List.map_map, List.map_map]
  refine List.Perm.append ?_ ?_
  · have hkeys : (enumKeys keysOrder e.events).Perm (e.events.entries.map Sigma.fst) :=
      (perm_sliceStable _ _).trans ((keysOrder.perm e.events).map _)
    refine (hkeys.map _).trans ?_
    rw [List.map_map]
    refine (List.Perm.of_eq (List.map_congr_left fun a ha => ?_)).trans
      ((entries_perm_of_lookup hof.events).map _)
    rw [Function.comp_apply, Function.comp_apply, ProtoMap.mem_entries_iff.mp ha,
      Option.getD_some]
  · exact ((aliasesOrder.perm _).trans hof.aliases_perm).map _

theorem map_metricName_eq {metrics : List MetricDefinition}
    {definitions : List ConfigValidator.MetricDefinition}
    (h : List.Forall₂ Describes metrics definitions) :
    (metrics.map fun metric => metric.metricName) =
      definitions.map ConfigValidator.MetricDefinition.metricName := by
  induction h with
  | nil => rfl
  | cons hmetric _ ih => rw [List.map_cons, List.map_cons, hmetric.metricName, ih]

/-- The constants have distinct names if and only if the metrics have distinct spellings. -/
theorem nodup_idConstantNames_iff (unicode : Unicode) {metrics : List MetricDefinition}
    (hnames : (metrics.map fun metric => metric.metricName).Nodup)
    (hvalid : ∀ metric ∈ metrics, isValidName metric.metricName = true) :
    (∀ language order,
        (idConstantNames unicode language order "Metric" (metricIds metrics)).Nodup) ↔
      (metrics.map fun metric => spelling metric.metricName).Nodup := by
  have hperm (language : Language) (order : MapOrder) :
      (idConstantNames unicode language order "Metric" (metricIds metrics)).Perm
        (metrics.map fun metric =>
          language.constName unicode [metric.metricName, "Metric", "id"]) := by
    have hkeys := (idKeys_metricIds_perm order hnames hvalid).map fun name =>
      language.constName unicode [name, "Metric", "id"]
    rwa [List.map_map] at hkeys
  constructor
  · intro h
    refine nodup_map_of (fun a ha b hb hspelling => ?_)
      ((hperm .Go .lastFirst).nodup_iff.mp (h .Go .lastFirst))
    exact (toPascalCase_metric_iff unicode (isAsciiName_of_isValidName (hvalid a ha))
      (isAsciiName_of_isValidName (hvalid b hb))).mpr hspelling
  · intro h language order
    refine (hperm language order).nodup_iff.mpr (nodup_map_of (fun a ha b hb hname => ?_) h)
    exact spelling_of_constName unicode language (hvalid a ha) (hvalid b hb) hname

/-- The identifiers of an enum are distinct if and only if the names have distinct
spellings. -/
theorem nodup_enumIdentifiers_iff (unicode : Unicode) (keysOrder aliasesOrder : MapOrder)
    {e : EnumEntry} {md : MetricDimension} (hof : e.Of md)
    (hascii : ∀ name ∈ eventNames md, IsAsciiName name) :
    (enumIdentifiers unicode keysOrder aliasesOrder e).Nodup ↔
      ((eventNames md).map spelling).Nodup := by
  rw [(enumIdentifiers_perm unicode keysOrder aliasesOrder hof).nodup_iff]
  have hiff (a : String) (ha : a ∈ eventNames md) (b : String) (hb : b ∈ eventNames md) :
      toPascalCase unicode [a] = toPascalCase unicode [b] ↔ spelling a = spelling b :=
    toPascalCase_eq_iff unicode (hascii a ha) (hascii b hb)
  exact ⟨nodup_map_of fun a ha b hb => (hiff a ha b hb).mpr,
    nodup_map_of fun a ha b hb => (hiff a ha b hb).mp⟩

/-- **Distinct generated names.** No two constants of metrics, and no two identifiers in an enum,
are the same if and only if no two metrics have the same spelling, and no two event codes or aliases
of a dimension that has event codes. -/
theorem distinctNames_iff (unicode : Unicode) {others : ConfigValidator.OtherValidators}
    {metrics : List MetricDefinition} {definitions : List ConfigValidator.MetricDefinition}
    (hdefinitions : List.Forall₂ Describes metrics definitions)
    (hvalid : ConfigValidator.validateConfiguredMetricDefinitions others definitions = none)
    (hascii : ∀ metric ∈ metrics, ∀ md ∈ metric.metricDimensions, ∀ name ∈ eventNames md,
      IsAsciiName name) :
    DistinctNames unicode metrics ↔ DistinctSpelling metrics := by
  obtain ⟨hnodup, hvalidNames⟩ :=
    ConfigValidator.names_of_validateConfiguredMetricDefinitions hvalid
  rw [← map_metricName_eq hdefinitions] at hnodup
  have hnames : ∀ metric ∈ metrics, isValidName metric.metricName = true := by
    intro metric hmetric
    obtain ⟨definition, hdefinition, hdescribes⟩ := Checks.exists_mem_right hdefinitions hmetric
    exact hdescribes.metricName ▸ hvalidNames definition hdefinition
  have hconstants := nodup_idConstantNames_iff unicode hnodup hnames
  constructor
  · intro h
    refine ⟨hconstants.mp h.constants, fun metric hmetric md hmd hcodes => ?_⟩
    obtain ⟨i, j, hd⟩ := mem_dimensionsOf.mpr ⟨hmetric, hmd⟩
    obtain ⟨e, he, hof⟩ := (enumsOf_enumEntries (rotatedAt 0 0) metrics).complete md
      (List.mem_map.mpr ⟨_, hd, rfl⟩)
    refine (nodup_enumIdentifiers_iff unicode .lastFirst .lastFirst hof
      (hascii metric hmetric md hmd)).mp (h.enums _ e he ?_ _ _)
    exact mt hof.events_eq_nil_iff.mp hcodes
  · intro h
    refine ⟨hconstants.mpr h.names, fun orders e he hevents keysOrder aliasesOrder => ?_⟩
    obtain ⟨-, md, hmd, hof⟩ := (enumsOf_enumEntries orders metrics).sound e he
    obtain ⟨⟨⟨metric, i⟩, md, j⟩, hd, rfl⟩ := List.mem_map.mp hmd
    obtain ⟨hmetric, hmd⟩ := mem_dimensionsOf.mp ⟨i, j, hd⟩
    exact (nodup_enumIdentifiers_iff unicode keysOrder aliasesOrder hof
      (hascii metric hmetric md hmd)).mpr
        (h.events metric hmetric md hmd (mt hof.events_eq_nil_iff.mpr hevents))

/-- A metric of the type `EVENT_OCCURRED`, as it is validated. -/
def validatedMetric (metricName : String) (id : ℕ) : ConfigValidator.MetricDefinition where
  metricName := metricName
  id := id
  metricType := .EVENT_OCCURRED
  metaData := some {}
  metricDimensions := [{
    dimension := "kind"
    eventCodes := .ofPairs [(0, "New"), (1, "Known")]
    maxEventCode := 1 }]

/-- The metric, as the generator reads it. -/
def generatedMetric (metricName : String) (id : ℕ) : MetricDefinition where
  metricName := metricName
  id := id
  metricDimensions := (validatedMetric metricName id).metricDimensions.map fun md =>
    { toMetricDimension := md }

theorem describes_validatedMetric (metricName : String) (id : ℕ) :
    Describes (generatedMetric metricName id) (validatedMetric metricName id) :=
  ⟨rfl, rfl, rfl, rfl⟩

/-- Validators that find no errors in the metadata and the reports. -/
def noErrors : ConfigValidator.OtherValidators :=
  ⟨fun _ => none, fun _ => none⟩

theorem isAsciiName_generatedMetric {metricName : String} {id : ℕ} {md : MetricDimension}
    (hmd : md ∈ (generatedMetric metricName id).metricDimensions) :
    ∀ name ∈ eventNames md, IsAsciiName name := by
  obtain rfl := List.mem_singleton.mp hmd
  change ∀ name ∈ ["Known", "New"], IsAsciiName name
  exact List.forall_mem_cons.mpr ⟨isAsciiName_of_all (by decide +kernel),
    List.forall_mem_singleton.mpr (isAsciiName_of_all (by decide +kernel))⟩

/-- Metrics with the names `foo_bar` and `foo_baz`. -/
theorem distinctNames_iff_two :
    DistinctNames .ascii [generatedMetric "foo_bar" 1, generatedMetric "foo_baz" 2] ↔
      DistinctSpelling [generatedMetric "foo_bar" 1, generatedMetric "foo_baz" 2] := by
  have hvalid : ConfigValidator.validateConfiguredMetricDefinitions noErrors
      [validatedMetric "foo_bar" 1, validatedMetric "foo_baz" 2] = none := by
    decide +kernel
  refine distinctNames_iff .ascii (.cons (describes_validatedMetric "foo_bar" 1)
    (.cons (describes_validatedMetric "foo_baz" 2) .nil)) hvalid ?_
  intro metric hmetric md hmd
  rcases List.mem_pair.mp hmetric with rfl | rfl
  · exact isAsciiName_generatedMetric hmd
  · exact isAsciiName_generatedMetric hmd

/-- Two metrics with one constant. The names `foo_bar` and `FooBar` are distinct and valid, and
the constant of both metrics is `kFooBarMetricId` in C++. -/
theorem not_distinctNames_fooBar :
    ConfigValidator.validateConfiguredMetricDefinitions noErrors
        [validatedMetric "foo_bar" 1, validatedMetric "FooBar" 2] = none ∧
      List.Forall₂ Describes [generatedMetric "foo_bar" 1, generatedMetric "FooBar" 2]
        [validatedMetric "foo_bar" 1, validatedMetric "FooBar" 2] ∧
      ¬ DistinctNames .ascii [generatedMetric "foo_bar" 1, generatedMetric "FooBar" 2] := by
  refine ⟨by decide +kernel, .cons (describes_validatedMetric "foo_bar" 1)
    (.cons (describes_validatedMetric "FooBar" 2) .nil), fun h => ?_⟩
  have hconstants := h.constants .CPP .lastFirst
  revert hconstants
  decide +kernel

end Cobalt.SourceGenerator
