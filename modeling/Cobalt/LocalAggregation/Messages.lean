import Cobalt.Lib.MachineInt
import Cobalt.Lib.ProtoMap
import Cobalt.Registry.Definitions

/-!
# Messages of the local aggregator

The two messages that the `AggregateStore` keeps: the daily aggregates of every report and the
history of the observations already generated from them. A message with a single map field is that
map; a `oneof` is an inductive type with one more constructor for the field that is not set, and
its accessors return the default message when another member is set.

## Main definitions

* `ReportAggregationKey`: the key of a report in both messages.
* `LocalAggregateStore`, `ReportAggregates`: the aggregates.
* `AggregatedObservationHistoryStore`, `AggregatedObservationHistory`: the history.
-/

namespace Cobalt.LocalAggregation

def kMaxAllowedBackfillDays : ℕ := 1000

theorem one_le_kMaxAllowedBackfillDays : 1 ≤ kMaxAllowedBackfillDays := by decide

def kMaxAllowedAggregationDays : ℕ := 365

def kMaxAllowedAggregationHours : ℕ := 23

def kCurrentLocalAggregateStoreVersion : ℕ := 1

def kCurrentObservationHistoryStoreVersion : ℕ := 0

/-- The key of a report. The maps are keyed by the base64 form of this message, which determines
it. -/
structure ReportAggregationKey where
  customerId : ℕ
  projectId : ℕ
  metricId : ℕ
  reportId : ℕ
  deriving DecidableEq, Repr

/-! ### Aggregates -/

/-- `DailyAggregate`: the `oneof` field `type`. -/
inductive DailyAggregate
  | typeNotSet
  | activity (activityIndicator : Bool)
  | numeric (value : ℤ)
  deriving DecidableEq, Repr

namespace DailyAggregate

/-- `activity_daily_aggregate().activity_indicator()`. -/
def activityIndicator : DailyAggregate → Bool
  | .activity b => b
  | _ => false

/-- `numeric_daily_aggregate().value()`. -/
def numericValue : DailyAggregate → ℤ
  | .numeric v => v
  | _ => 0

end DailyAggregate

/-- Aggregates by day index. -/
abbrev DailyAggregates : Type := ProtoMap ℕ DailyAggregate

/-- Daily aggregates by event code, a `uint32`. -/
abbrev UniqueActivesReportAggregates : Type := ProtoMap ℕ DailyAggregates

/-- Daily aggregates by packed event code, a `uint64`. -/
abbrev EventCodeAggregates : Type := ProtoMap ℕ DailyAggregates

/-- Aggregates by component. -/
abbrev PerDeviceNumericAggregates : Type := ProtoMap String EventCodeAggregates

/-- `AggregationConfig`. -/
structure AggregationConfig where
  project : Project
  metric : MetricDefinition
  report : ReportDefinition
  windowSize : List ℕ := []
  aggregationWindow : List OnDeviceAggregationWindow := []
  deriving DecidableEq, Repr

/-- The `oneof` field `type` of `ReportAggregates`. -/
inductive ReportAggregatesType
  | typeNotSet
  | uniqueActivesAggregates (aggregates : UniqueActivesReportAggregates)
  | numericAggregates (aggregates : PerDeviceNumericAggregates)
  deriving DecidableEq

/-- `ReportAggregates`. -/
structure ReportAggregates where
  type : ReportAggregatesType
  aggregationConfig : AggregationConfig
  deriving DecidableEq

namespace ReportAggregates

/-- `unique_actives_aggregates()`. -/
def uniqueActivesAggregates (aggregates : ReportAggregates) : UniqueActivesReportAggregates :=
  match aggregates.type with
  | .uniqueActivesAggregates a => a
  | _ => ∅

/-- `numeric_aggregates()`. -/
def numericAggregates (aggregates : ReportAggregates) : PerDeviceNumericAggregates :=
  match aggregates.type with
  | .numericAggregates a => a
  | _ => ∅

end ReportAggregates

/-- `LocalAggregateStore`. -/
structure LocalAggregateStore where
  version : ℕ
  byReportKey : ProtoMap ReportAggregationKey ReportAggregates
  deriving DecidableEq

/-- `MakeNewLocalAggregateStore`. -/
def makeNewLocalAggregateStore : LocalAggregateStore :=
  ⟨kCurrentLocalAggregateStoreVersion, ∅⟩

/-! ### History -/

/-- The last day for which an observation was generated, by window size. -/
abbrev HistoryByWindowSize : Type := ProtoMap ℕ ℕ

/-- Histories by event code, a `uint32`. -/
abbrev UniqueActivesObservationHistory : Type := ProtoMap ℕ HistoryByWindowSize

/-- Histories by packed event code, a `uint64`. -/
abbrev HistoryByEventCode : Type := ProtoMap ℕ HistoryByWindowSize

/-- Histories by component. -/
abbrev PerDeviceNumericObservationHistory : Type := ProtoMap String HistoryByEventCode

/-- The `oneof` field `type` of `AggregatedObservationHistory`. -/
inductive ObservationHistoryType
  | typeNotSet
  | uniqueActivesHistory (history : UniqueActivesObservationHistory)
  | perDeviceNumericHistory (history : PerDeviceNumericObservationHistory)
  deriving DecidableEq

/-- `AggregatedObservationHistory`. Of the participation history the field `last_generated` is
kept; it is zero while the message is not set. -/
structure AggregatedObservationHistory where
  type : ObservationHistoryType := .typeNotSet
  participationLastGenerated : ℕ := 0
  deriving DecidableEq

namespace AggregatedObservationHistory

/-- `unique_actives_history()`. -/
def uniqueActivesHistory (history : AggregatedObservationHistory) :
    UniqueActivesObservationHistory :=
  match history.type with
  | .uniqueActivesHistory h => h
  | _ => ∅

/-- `per_device_numeric_history()`. -/
def perDeviceNumericHistory (history : AggregatedObservationHistory) :
    PerDeviceNumericObservationHistory :=
  match history.type with
  | .perDeviceNumericHistory h => h
  | _ => ∅

end AggregatedObservationHistory

/-- `AggregatedObservationHistoryStore`. -/
structure AggregatedObservationHistoryStore where
  version : ℕ
  byReportKey : ProtoMap ReportAggregationKey AggregatedObservationHistory
  deriving DecidableEq

/-- `MakeNewObservationHistoryStore`. -/
def makeNewObservationHistoryStore : AggregatedObservationHistoryStore :=
  ⟨kCurrentObservationHistoryStoreVersion, ∅⟩

/-! ### The state of the `AggregateStore` -/

/-- The fields of the class `AggregateStore`. The constructor checks the bound on the backfill. -/
structure AggregateStore where
  localAggregateStore : LocalAggregateStore
  emptyLocalAggregateStore : LocalAggregateStore
  obsHistory : AggregatedObservationHistoryStore
  isDisabled : Bool
  backfillDays : ℕ
  backfillDays_le : backfillDays ≤ kMaxAllowedBackfillDays

end Cobalt.LocalAggregation
