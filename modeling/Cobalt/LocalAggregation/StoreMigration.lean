import Cobalt.LocalAggregation.RegisteredReports

/-!
# Migration of a stored `LocalAggregateStore`

Version 0 of the store had the sizes of the aggregation windows in days; version 1 has the windows
themselves. The constructor of `AggregateStore` upgrades what it reads from the disk.

The upgrade visits the entries of the map of reports and rewrites each of them through
`(*store->mutable_by_report_key())[key]`. The keys are all there, so nothing is inserted, and every
report is visited once.

## Main definitions

* `upgradeLocalAggregateStoreFromVersion0`, `maybeUpgrade`: the functions of the source, with the
  store that they leave.

## Main results

* `lookup_convertReports`: every report is converted once.
* `sameReports_maybeUpgrade`: this is the upgrade that `restoreAggregateStore` uses.
-/

namespace Cobalt.LocalAggregation.StoreMigration

/-- The `ReportAggregates` message in which no field is set. -/
def defaultReportAggregates : ReportAggregates where
  type := .typeNotSet
  aggregationConfig :=
    { project := ⟨0, 0⟩
      metric := { customerId := 0, projectId := 0, id := 0, metricType := .other 0 }
      report := { id := 0, reportType := .other 0 } }

/-- The body of the loop of `ConvertWindowSizesToAggregationDays`. -/
def convertReport (aggregates : ReportAggregates) : ReportAggregates :=
  { aggregates with
    aggregationConfig := convertWindowSizesToAggregationDays aggregates.aggregationConfig }

/-- `ConvertWindowSizesToAggregationDays`: the loop over the entries of the map. -/
def convertReports (store : LocalAggregateStore) : LocalAggregateStore :=
  { store with
    byReportKey := store.byReportKey.keys.foldl
      (fun byReportKey key => byReportKey.update key defaultReportAggregates convertReport)
      store.byReportKey }

/-- `UpgradeLocalAggregateStoreFromVersion0`. -/
def upgradeLocalAggregateStoreFromVersion0 (store : LocalAggregateStore) :
    Status × LocalAggregateStore :=
  (.kOK, { convertReports store with version := kCurrentLocalAggregateStoreVersion })

/-- `MaybeUpgradeLocalAggregateStore`, with the store that it leaves. -/
def maybeUpgrade (store : LocalAggregateStore) : Status × LocalAggregateStore :=
  if store.version = kCurrentLocalAggregateStoreVersion then (.kOK, store)
  else match store.version with
  | 0 => upgradeLocalAggregateStoreFromVersion0 store
  | _ => (.kInvalidArguments, store)

/-- Every report is converted once. -/
theorem lookup_convertReports (store : LocalAggregateStore) (key : ReportAggregationKey) :
    (convertReports store).byReportKey.lookup key =
      (store.byReportKey.lookup key).map convertReport := by
  rw [convertReports, ProtoMap.lookup_foldl_update _ _ store.byReportKey.keys_nodup]
  by_cases hkey : key ∈ store.byReportKey.keys
  · obtain ⟨aggregates, hlookup⟩ := Option.isSome_iff_exists.mp
      (AList.lookup_isSome.mpr (AList.mem_keys.mp hkey))
    rw [if_pos hkey, hlookup, Option.getD_some, Option.map_some]
  · have hnone : store.byReportKey.lookup key = none :=
      AList.lookup_eq_none.mpr fun h => hkey (AList.mem_keys.mpr h)
    rw [if_neg hkey, hnone, Option.map_none]

/-- The configuration of a converted report: the windows of days for the window sizes, if there were
any. -/
theorem convertWindowSizesToAggregationDays_eq (config : AggregationConfig) :
    convertWindowSizesToAggregationDays config =
      { config with
        windowSize := []
        aggregationWindow :=
          if config.windowSize = [] then config.aggregationWindow
          else config.windowSize.map .days } := by
  rw [convertWindowSizesToAggregationDays]
  by_cases hsizes : config.windowSize = []
  · simp [hsizes]
  · by_cases hwindows : config.aggregationWindow = [] <;> simp [hsizes, hwindows]

/-- The upgrade leaves the store that is used from then on. -/
theorem sameReports_maybeUpgrade {store store' : LocalAggregateStore}
    (h : maybeUpgradeLocalAggregateStore store = some store') :
    (maybeUpgrade store).1 = .kOK ∧ (maybeUpgrade store).2.version = store'.version ∧
      ∀ key, (maybeUpgrade store).2.byReportKey.lookup key = store'.byReportKey.lookup key := by
  rw [maybeUpgradeLocalAggregateStore] at h
  rw [maybeUpgrade]
  split_ifs at h ⊢ with hcurrent hzero
  · obtain rfl := Option.some.inj h
    exact ⟨rfl, rfl, fun _ => rfl⟩
  · obtain rfl := Option.some.inj h
    rw [hzero]
    refine ⟨rfl, rfl, fun key => ?_⟩
    refine (lookup_convertReports store key).trans ?_
    rw [ProtoMap.lookup_filterMap]
    cases store.byReportKey.lookup key <;> rfl

/-- **Migration.** A store of version 0 becomes one of the current version with the same reports, in
which the windows of days take the place of the window sizes, if there were any, and all else is
unchanged; the current version is left alone, and so is a version that is not supported, which is
an error. -/
theorem maybeUpgrade_spec (store : LocalAggregateStore) :
    (store.version = 0 →
      (maybeUpgrade store).1 = .kOK ∧
      (maybeUpgrade store).2.version = kCurrentLocalAggregateStoreVersion ∧
      (∀ key, (maybeUpgrade store).2.byReportKey.lookup key =
        (store.byReportKey.lookup key).map fun aggregates =>
          { aggregates with
            aggregationConfig :=
              { aggregates.aggregationConfig with
                windowSize := []
                aggregationWindow :=
                  if aggregates.aggregationConfig.windowSize = [] then
                    aggregates.aggregationConfig.aggregationWindow
                  else aggregates.aggregationConfig.windowSize.map .days } }) ∧
      maybeUpgrade (maybeUpgrade store).2 = (.kOK, (maybeUpgrade store).2)) ∧
    (store.version = kCurrentLocalAggregateStoreVersion → maybeUpgrade store = (.kOK, store)) ∧
    (store.version ≠ 0 → store.version ≠ kCurrentLocalAggregateStoreVersion →
      (maybeUpgrade store).1 ≠ .kOK ∧ (maybeUpgrade store).2 = store) := by
  refine ⟨fun hzero => ?_, fun hcurrent => if_pos hcurrent, fun hzero hcurrent => ?_⟩
  · have hne : ¬ (0 = kCurrentLocalAggregateStoreVersion) := by decide
    have hupgrade : maybeUpgrade store = upgradeLocalAggregateStoreFromVersion0 store := by
      rw [maybeUpgrade, hzero, if_neg hne]
      rfl
    rw [hupgrade]
    refine ⟨rfl, rfl, fun key => ?_, if_pos rfl⟩
    refine (lookup_convertReports store key).trans (congrArg (Option.map · _) ?_)
    funext aggregates
    rw [convertReport, convertWindowSizesToAggregationDays_eq]
  · have herror : maybeUpgrade store = (.kInvalidArguments, store) := by
      rw [maybeUpgrade, if_neg hcurrent]
      split
      · next h => exact absurd h hzero
      · rfl
    rw [herror]
    exact ⟨by simp, rfl⟩

end Cobalt.LocalAggregation.StoreMigration
