import Cobalt.LocalAggregation.GenerateObservations

/-!
# The event codes of a store

Which packed event codes a store has numeric aggregates for, and how the calls change that.

## Main results

* `hasCode_updateNumericAggregate`: aggregating an event adds its code and no other one.
* `hasCode_garbageCollect`, `hasCode_maybeInsertReportConfig`, `Rehashed.hasCode`: the other
  operations add no code.
* `storedDays_updateNumericAggregate`: aggregating an event changes the aggregates of its own
  report, component and code alone.
-/

namespace Cobalt.LocalAggregation

variable {store : LocalAggregateStore} {s s' s₁ : AggregateStore} {key : ReportAggregationKey}
  {component : String} {code : ℕ}

/-- The daily aggregates of a report, a component and an event code, empty where there are none. -/
def storedDays (store : LocalAggregateStore) (key : ReportAggregationKey) (component : String)
    (code : ℕ) : DailyAggregates :=
  match store.byReportKey.lookup key with
  | some aggregates => aggregates.numericAggregates.dailyAggregates component code
  | none => ∅

theorem storedDays_eq {aggregates : ReportAggregates} {byEventCode : EventCodeAggregates}
    {daily : DailyAggregates} (hlookup : store.byReportKey.lookup key = some aggregates)
    (hcomponent : aggregates.numericAggregates.lookup component = some byEventCode)
    (hcode : byEventCode.lookup code = some daily) : storedDays store key component code = daily := by
  simp only [storedDays, hlookup, PerDeviceNumericAggregates.dailyAggregates, hcomponent,
    Option.getD_some, hcode]

/-- The aggregates of a report are those of a store. -/
theorem hasCode_iff {aggregates : ReportAggregates}
    (hlookup : store.byReportKey.lookup key = some aggregates) :
    HasCode store key component code ↔
      ∃ byEventCode daily, aggregates.numericAggregates.lookup component = some byEventCode ∧
        byEventCode.lookup code = some daily := by
  constructor
  · rintro ⟨aggregates', byEventCode, daily, hlookup', hcomponent, hcode⟩
    obtain rfl := Option.some.inj (hlookup.symm.trans hlookup')
    exact ⟨byEventCode, daily, hcomponent, hcode⟩
  · rintro ⟨byEventCode, daily, hcomponent, hcode⟩
    exact ⟨aggregates, byEventCode, daily, hlookup, hcomponent, hcode⟩

/-- A report without numeric aggregates has no code. -/
theorem not_hasCode_of_numericAggregates_eq_empty {aggregates : ReportAggregates}
    (hlookup : store.byReportKey.lookup key = some aggregates)
    (hempty : aggregates.numericAggregates = ∅) : ¬ HasCode store key component code := by
  rw [hasCode_iff hlookup, hempty]
  rintro ⟨byEventCode, daily, hcomponent, -⟩
  exact absurd hcomponent (by simp)

theorem not_hasCode_makeNewLocalAggregateStore :
    ¬ HasCode makeNewLocalAggregateStore key component code := by
  rintro ⟨aggregates, byEventCode, daily, hlookup, -⟩
  exact absurd hlookup (by simp [makeNewLocalAggregateStore])

/-- Stores that agree on a report agree on its codes. -/
theorem hasCode_congr {store' : LocalAggregateStore}
    (h : store'.byReportKey.lookup key = store.byReportKey.lookup key) :
    HasCode store' key component code ↔ HasCode store key component code := by
  simp only [HasCode, h]

/-! ### Rehashing and garbage collection -/

private theorem SameEntries.exists_lookup {K V : Type} [DecidableEq K] {R : V → V → Prop}
    {m m' : ProtoMap K V} (h : SameEntries R m m') {k : K} {v' : V} (hv' : m'.lookup k = some v') :
    ∃ v, m.lookup k = some v ∧ R v v' := by
  have hk := h k
  rw [hv'] at hk
  cases hv : m.lookup k with
  | none => rw [hv] at hk; cases hk
  | some v =>
    rw [hv] at hk
    cases hk with | some hR => exact ⟨v, rfl, hR⟩

theorem Rehashed.hasCode (h : Rehashed s s₁)
    (hcode : HasCode s₁.localAggregateStore key component code) :
    HasCode s.localAggregateStore key component code := by
  obtain ⟨store', hsame, rfl⟩ := h
  obtain ⟨⟨type', config'⟩, byEventCode', daily', hlookup', hcomponent', hcode'⟩ := hcode
  obtain ⟨⟨type, config⟩, hlookup, _, htype⟩ := SameEntries.exists_lookup hsame hlookup'
  cases htype with
  | typeNotSet => exact absurd hcomponent' (by simp [ReportAggregates.numericAggregates])
  | uniqueActives => exact absurd hcomponent' (by simp [ReportAggregates.numericAggregates])
  | numeric hsame' =>
    obtain ⟨byEventCode, hcomponent, hsame''⟩ := hsame'.exists_lookup hcomponent'
    obtain ⟨daily, hcode, _⟩ := hsame''.exists_lookup hcode'
    exact ⟨_, byEventCode, daily, hlookup, hcomponent, hcode⟩

/-- Garbage collection adds no event code to a report. -/
private theorem exists_lookup_of_garbageCollectNumeric {dayIndex maxDays backfillDays : ℕ}
    {byComponent : PerDeviceNumericAggregates} {byEventCode : EventCodeAggregates}
    {daily : DailyAggregates}
    (hcomponent : (garbageCollectNumericReportAggregates dayIndex maxDays backfillDays
      byComponent).lookup component = some byEventCode)
    (hcode : byEventCode.lookup code = some daily) :
    ∃ byEventCode₀ daily₀, byComponent.lookup component = some byEventCode₀ ∧
      byEventCode₀.lookup code = some daily₀ := by
  rw [garbageCollectNumericReportAggregates, ProtoMap.lookup_filterMap] at hcomponent
  obtain ⟨byEventCode₀, hcomponent₀, hkept⟩ := Option.bind_eq_some_iff.mp hcomponent
  dsimp only at hkept
  split_ifs at hkept
  rw [← Option.some.inj hkept, ProtoMap.lookup_filterMap] at hcode
  obtain ⟨daily₀, hcode₀, _⟩ := Option.bind_eq_some_iff.mp hcode
  exact ⟨byEventCode₀, daily₀, hcomponent₀, hcode₀⟩

/-- Garbage collection adds no event code. -/
theorem hasCode_garbageCollect {utc loc : ℕ} {status : Status}
    (h : garbageCollect utc loc s = some (status, s'))
    (hcode : HasCode s'.localAggregateStore key component code) :
    HasCode s.localAggregateStore key component code := by
  obtain ⟨_, _, _, hgc⟩ := lookup_garbageCollect h
  obtain ⟨aggregates', byEventCode, daily, hlookup', hcomponent, hcode⟩ := hcode
  rw [hgc key] at hlookup'
  obtain ⟨aggregates, hlookup, rfl⟩ := Option.map_eq_some_iff.mp hlookup'
  rcases garbageCollectReport_cases s.backfillDays utc (localDayIndex utc loc) aggregates with
    heq | ⟨dayIndex, maxDays, _, _, _, _, hnumeric⟩
  · rw [heq] at hcomponent
    exact ⟨aggregates, byEventCode, daily, hlookup, hcomponent, hcode⟩
  · rw [hnumeric] at hcomponent
    obtain ⟨byEventCode₀, daily₀, hcomponent₀, hcode₀⟩ :=
      exists_lookup_of_garbageCollectNumeric hcomponent hcode
    exact ⟨aggregates, byEventCode₀, daily₀, hlookup, hcomponent₀, hcode₀⟩

/-! ### Registering reports -/

private theorem hasCode_insertReportConfig {store' : LocalAggregateStore}
    {key' : ReportAggregationKey} {context : ProjectContext} {metric : MetricDefinition}
    {report : ReportDefinition}
    (h : insertReportConfig store key' (populateReportAggregates context metric report) =
      some store') (hcode : HasCode store' key component code) :
    HasCode store key component code := by
  rw [insertReportConfig] at h
  split_ifs at h
  · rwa [← Option.some.inj h] at hcode
  · obtain ⟨a, ha, rfl⟩ := Option.map_eq_some_iff.mp h
    obtain ⟨windows, _, ha⟩ := Option.bind_eq_some_iff.mp ha
    have hempty : a.numericAggregates = ∅ := by
      cases hr : report.reportType <;> rw [hr] at ha <;> cases ha <;> rfl
    by_cases hkey : key = key'
    · subst hkey
      exact absurd hcode (not_hasCode_of_numericAggregates_eq_empty (AList.lookup_insert _) hempty)
    · exact (hasCode_congr (AList.lookup_insert_ne hkey)).mp hcode

/-- A report is registered without aggregates, with the store and with the empty store. -/
theorem hasCode_maybeInsertReportConfig (context : ProjectContext) (metric : MetricDefinition)
    (report : ReportDefinition) (s : AggregateStore) :
    (HasCode (maybeInsertReportConfig context metric report s).2.localAggregateStore key component
        code → HasCode s.localAggregateStore key component code) ∧
      (HasCode (maybeInsertReportConfig context metric report s).2.emptyLocalAggregateStore key
        component code → HasCode s.emptyLocalAggregateStore key component code) := by
  simp only [maybeInsertReportConfig]
  split
  · exact ⟨id, id⟩
  · next store hstore =>
    split
    · exact ⟨hasCode_insertReportConfig hstore, id⟩
    · next empty hempty =>
      exact ⟨hasCode_insertReportConfig hstore, hasCode_insertReportConfig hempty⟩

/-! ### Aggregating events -/

/-- Replacing the aggregates of one report. -/
private theorem hasCode_setAggregates {key' : ReportAggregationKey} {aggregates : ReportAggregates} :
    HasCode (s.setAggregates key' aggregates).localAggregateStore key component code ↔
      (key = key' ∧ ∃ byEventCode daily,
        aggregates.numericAggregates.lookup component = some byEventCode ∧
          byEventCode.lookup code = some daily) ∨
      (key ≠ key' ∧ HasCode s.localAggregateStore key component code) := by
  by_cases hkey : key = key'
  · subst hkey
    have hlookup : (s.setAggregates key aggregates).localAggregateStore.byReportKey.lookup key =
        some aggregates := AList.lookup_insert _
    rw [hasCode_iff hlookup]
    simp
  · have hlookup : (s.setAggregates key' aggregates).localAggregateStore.byReportKey.lookup key =
        s.localAggregateStore.byReportKey.lookup key := AList.lookup_insert_ne hkey
    rw [hasCode_congr hlookup]
    simp [hkey]

theorem hasCode_setActive {key' : ReportAggregationKey} {eventCode dayIndex : ℕ}
    (h : HasCode (setActive key' eventCode dayIndex s).2.localAggregateStore key component code) :
    HasCode s.localAggregateStore key component code := by
  unfold setActive at h
  split_ifs at h
  · exact h
  · split at h
    · exact h
    · next aggregates hlookup =>
      split at h
      · rcases hasCode_setAggregates.mp h with ⟨_, _, _, hcomponent, _⟩ | ⟨_, h⟩
        · exact absurd hcomponent (by simp [ReportAggregates.numericAggregates])
        · exact h
      · exact h

/-- **Aggregating an event adds its code and no other one.** -/
theorem hasCode_updateNumericAggregate {key' : ReportAggregationKey} {component' : String}
    {code' dayIndex : ℕ} {value : ℤ}
    (h : HasCode (updateNumericAggregate key' component' code' dayIndex value
      s).2.localAggregateStore key component code) :
    HasCode s.localAggregateStore key component code ∨
      (key = key' ∧ component = component' ∧ code = code') := by
  unfold updateNumericAggregate at h
  split_ifs at h
  · exact Or.inl h
  · split at h
    · exact Or.inl h
    · next aggregates hlookup =>
      split at h
      · next byComponent htype =>
        have hnumeric : aggregates.numericAggregates = byComponent := by
          rw [ReportAggregates.numericAggregates, htype]
        rcases hasCode_setAggregates.mp h with ⟨rfl, byEventCode, daily, hcomponent, hcode⟩ | ⟨_, h⟩
        · rw [hasCode_iff hlookup, hnumeric]
          simp only [ReportAggregates.numericAggregates, ProtoMap.lookup_update] at hcomponent
          split_ifs at hcomponent with hc
          · rw [← Option.some.inj hcomponent, ProtoMap.lookup_update] at hcode
            split_ifs at hcode with he
            · exact Or.inr ⟨rfl, hc, he⟩
            · subst hc
              cases hold : byComponent.lookup component with
              | none => rw [hold] at hcode; exact absurd hcode (by simp)
              | some byEventCode₀ =>
                rw [hold] at hcode
                exact Or.inl ⟨byEventCode₀, daily, rfl, hcode⟩
          · exact Or.inl ⟨byEventCode, daily, hcomponent, hcode⟩
        · exact Or.inl h
      · exact Or.inl h

/-- A report that is made active has no numeric aggregates. -/
theorem storedDays_setActive (key' : ReportAggregationKey) (eventCode dayIndex : ℕ)
    (s : AggregateStore) :
    storedDays (setActive key' eventCode dayIndex s).2.localAggregateStore key component code =
      storedDays s.localAggregateStore key component code := by
  unfold setActive
  split_ifs
  · rfl
  · split
    · rfl
    · next aggregates hlookup =>
      split
      · next byEventCode htype =>
        by_cases hkey : key = key'
        · subst hkey
          simp only [storedDays, AggregateStore.setAggregates, AList.lookup_insert, hlookup,
            ReportAggregates.numericAggregates, htype]
        · simp only [storedDays, AggregateStore.setAggregates, AList.lookup_insert_ne hkey]
      · rfl

/-- Aggregating an event changes the aggregates of its own code alone. -/
theorem storedDays_updateNumericAggregate {key' : ReportAggregationKey} {component' : String}
    {code' : ℕ} (hne : ¬ (key = key' ∧ component = component' ∧ code = code')) (dayIndex : ℕ)
    (value : ℤ) (s : AggregateStore) :
    storedDays (updateNumericAggregate key' component' code' dayIndex value
      s).2.localAggregateStore key component code =
      storedDays s.localAggregateStore key component code := by
  unfold updateNumericAggregate
  split_ifs
  · rfl
  · split
    · rfl
    · next aggregates hlookup =>
      split
      · next byComponent htype =>
        by_cases hkey : key = key'
        · subst hkey
          simp only [storedDays, AggregateStore.setAggregates, AList.lookup_insert, hlookup,
            htype, ReportAggregates.numericAggregates,
            PerDeviceNumericAggregates.dailyAggregates, ProtoMap.lookup_update]
          split_ifs with hc
          · subst hc
            rw [Option.getD_some, ProtoMap.lookup_update,
              if_neg fun he => hne ⟨rfl, rfl, he⟩]
          · rfl
        · simp only [storedDays, AggregateStore.setAggregates, AList.lookup_insert_ne hkey]
      · rfl

end Cobalt.LocalAggregation
