import Cobalt.LocalAggregation.Messages

/-!
# The observation history

For every report, event code and window the `AggregateStore` records the last day for which an
observation was generated. The accessors of the numeric history take the packed event code as a
`uint32_t`, although the map is keyed by the whole `uint64`.

## Main definitions

* `getUniqueActivesLastGeneratedDayIndex`, `getPerDeviceNumericLastGeneratedDayIndex`,
  `getReportParticipationLastGeneratedDayIndex` and the three matching `set` functions.

## Main results

* One lemma for each pair of accessors: what is read after a write.
* The numeric and the unique-actives history of one report share a `oneof`, so a write to one
  of them forgets the other; it never touches another report.
-/

namespace Cobalt.LocalAggregation

variable (history : AggregatedObservationHistoryStore) (reportKey : ReportAggregationKey)

/-- `GetUniqueActivesLastGeneratedDayIndex`; zero where nothing was recorded. -/
def getUniqueActivesLastGeneratedDayIndex (eventCode aggregationDays : ℕ) : ℕ :=
  ((do
    let reportHistory ← history.byReportKey.lookup reportKey
    let eventCodeHistory ← reportHistory.uniqueActivesHistory.lookup eventCode
    eventCodeHistory.lookup aggregationDays) : Option ℕ).getD 0

/-- `SetUniqueActivesLastGeneratedDayIndex`. The mutable accessor of the `oneof` replaces a history
of the other kind by an empty one. -/
def setUniqueActivesLastGeneratedDayIndex (eventCode aggregationDays value : ℕ) :
    AggregatedObservationHistoryStore :=
  { history with
    byReportKey := history.byReportKey.update reportKey {} fun reportHistory =>
      { reportHistory with
        type := .uniqueActivesHistory <|
          reportHistory.uniqueActivesHistory.update eventCode ∅ fun byWindowSize =>
            byWindowSize.insert aggregationDays value } }

/-- `GetPerDeviceNumericLastGeneratedDayIndex`. -/
def getPerDeviceNumericLastGeneratedDayIndex (component : String)
    (eventCode aggregationDays : ℕ) : ℕ :=
  ((do
    let reportHistory ← history.byReportKey.lookup reportKey
    let componentHistory ← reportHistory.perDeviceNumericHistory.lookup component
    let eventCodeHistory ← componentHistory.lookup (U32.ofNat eventCode)
    eventCodeHistory.lookup aggregationDays) : Option ℕ).getD 0

/-- `SetPerDeviceNumericLastGeneratedDayIndex`. -/
def setPerDeviceNumericLastGeneratedDayIndex (component : String)
    (eventCode aggregationDays value : ℕ) : AggregatedObservationHistoryStore :=
  { history with
    byReportKey := history.byReportKey.update reportKey {} fun reportHistory =>
      { reportHistory with
        type := .perDeviceNumericHistory <|
          reportHistory.perDeviceNumericHistory.update component ∅ fun byEventCode =>
            byEventCode.update (U32.ofNat eventCode) ∅ fun byWindowSize =>
              byWindowSize.insert aggregationDays value } }

/-- `GetReportParticipationLastGeneratedDayIndex`. -/
def getReportParticipationLastGeneratedDayIndex : ℕ :=
  match history.byReportKey.lookup reportKey with
  | none => 0
  | some reportHistory => reportHistory.participationLastGenerated

/-- `SetReportParticipationLastGeneratedDayIndex`. -/
def setReportParticipationLastGeneratedDayIndex (value : ℕ) :
    AggregatedObservationHistoryStore :=
  { history with
    byReportKey := history.byReportKey.update reportKey {} fun reportHistory =>
      { reportHistory with participationLastGenerated := value } }

variable {history reportKey}

/-! ### Writes to one report and reads of another -/

/-- What an accessor reads depends on the entry of its report alone. -/
theorem getUniqueActives_congr {history' : AggregatedObservationHistoryStore}
    (h : history'.byReportKey.lookup reportKey = history.byReportKey.lookup reportKey)
    (code days : ℕ) :
    getUniqueActivesLastGeneratedDayIndex history' reportKey code days =
      getUniqueActivesLastGeneratedDayIndex history reportKey code days := by
  simp only [getUniqueActivesLastGeneratedDayIndex, h]

theorem getPerDeviceNumeric_congr {history' : AggregatedObservationHistoryStore}
    (h : history'.byReportKey.lookup reportKey = history.byReportKey.lookup reportKey)
    (component : String) (code days : ℕ) :
    getPerDeviceNumericLastGeneratedDayIndex history' reportKey component code days =
      getPerDeviceNumericLastGeneratedDayIndex history reportKey component code days := by
  simp only [getPerDeviceNumericLastGeneratedDayIndex, h]

theorem getReportParticipation_congr {history' : AggregatedObservationHistoryStore}
    (h : history'.byReportKey.lookup reportKey = history.byReportKey.lookup reportKey) :
    getReportParticipationLastGeneratedDayIndex history' reportKey =
      getReportParticipationLastGeneratedDayIndex history reportKey := by
  simp only [getReportParticipationLastGeneratedDayIndex, h]

section Frame

variable {key : ReportAggregationKey} (hne : key ≠ reportKey) (code days value : ℕ)
include hne

theorem lookup_setUniqueActives_of_ne :
    (setUniqueActivesLastGeneratedDayIndex history reportKey code days
      value).byReportKey.lookup key = history.byReportKey.lookup key := by
  rw [setUniqueActivesLastGeneratedDayIndex, ProtoMap.lookup_update_of_ne _ hne]

theorem lookup_setPerDeviceNumeric_of_ne (component : String) :
    (setPerDeviceNumericLastGeneratedDayIndex history reportKey component code days
      value).byReportKey.lookup key = history.byReportKey.lookup key := by
  rw [setPerDeviceNumericLastGeneratedDayIndex, ProtoMap.lookup_update_of_ne _ hne]

omit code days in
theorem lookup_setReportParticipation_of_ne :
    (setReportParticipationLastGeneratedDayIndex history reportKey
      value).byReportKey.lookup key = history.byReportKey.lookup key := by
  rw [setReportParticipationLastGeneratedDayIndex, ProtoMap.lookup_update_of_ne _ hne]

end Frame

/-! ### Reads after writes -/

section Reads

variable (history reportKey) (key : ReportAggregationKey) (component component' : String)
  (code code' days days' value : ℕ)

/-- The entry of a report, the default message where there is none. -/
def reportHistory : AggregatedObservationHistory :=
  (history.byReportKey.lookup reportKey).getD {}

/-- A missing message on the way to a window is read as the default one. -/
theorem getUniqueActives_eq :
    getUniqueActivesLastGeneratedDayIndex history reportKey code days =
      ((((reportHistory history reportKey).uniqueActivesHistory.lookup code).getD ∅).lookup
        days).getD 0 := by
  rw [reportHistory, getUniqueActivesLastGeneratedDayIndex]
  cases history.byReportKey.lookup reportKey with
  | none => rfl
  | some h => simp only [Option.bind_eq_bind, Option.bind_some, ProtoMap.bind_lookup,
      Option.getD_some]

theorem getPerDeviceNumeric_eq :
    getPerDeviceNumericLastGeneratedDayIndex history reportKey component code days =
      ((((((reportHistory history reportKey).perDeviceNumericHistory.lookup component).getD
        ∅).lookup (U32.ofNat code)).getD ∅).lookup days).getD 0 := by
  rw [reportHistory, getPerDeviceNumericLastGeneratedDayIndex]
  cases history.byReportKey.lookup reportKey with
  | none => rfl
  | some h =>
    cases hcomponent : h.perDeviceNumericHistory.lookup component with
    | none => simp only [Option.bind_eq_bind, Option.bind_some, Option.getD_some, hcomponent]; rfl
    | some c => simp only [Option.bind_eq_bind, Option.bind_some, Option.getD_some, hcomponent,
        ProtoMap.bind_lookup]

theorem getReportParticipation_eq :
    getReportParticipationLastGeneratedDayIndex history reportKey =
      (reportHistory history reportKey).participationLastGenerated := by
  rw [reportHistory, getReportParticipationLastGeneratedDayIndex]
  cases history.byReportKey.lookup reportKey <;> rfl

/-- Unique actives, read after write. -/
theorem getUniqueActives_setUniqueActives :
    getUniqueActivesLastGeneratedDayIndex
        (setUniqueActivesLastGeneratedDayIndex history reportKey code days value) key code' days' =
      if key = reportKey ∧ code' = code ∧ days' = days then value
      else getUniqueActivesLastGeneratedDayIndex history key code' days' := by
  by_cases hkey : key = reportKey
  · subst hkey
    simp only [getUniqueActives_eq, reportHistory, setUniqueActivesLastGeneratedDayIndex,
      ProtoMap.lookup_update_self, Option.getD_some, true_and]
    rw [AggregatedObservationHistory.uniqueActivesHistory, ProtoMap.lookup_update]
    by_cases hcode : code' = code
    · subst hcode
      simp only [↓reduceIte, Option.getD_some, ProtoMap.lookup_insert_eq_ite, true_and]
      split_ifs <;> rfl
    · simp only [hcode, ↓reduceIte, false_and]
  · rw [getUniqueActives_congr (lookup_setUniqueActives_of_ne hkey code days value)]
    simp only [hkey, false_and, ↓reduceIte]

/-- Numeric aggregates, read after write. Packed codes that agree in their lower 32 bits are
one code here. -/
theorem getPerDeviceNumeric_setPerDeviceNumeric :
    getPerDeviceNumericLastGeneratedDayIndex
        (setPerDeviceNumericLastGeneratedDayIndex history reportKey component code days value)
        key component' code' days' =
      if key = reportKey ∧ component' = component ∧ U32.ofNat code' = U32.ofNat code ∧
        days' = days then value
      else getPerDeviceNumericLastGeneratedDayIndex history key component' code' days' := by
  by_cases hkey : key = reportKey
  · subst hkey
    simp only [getPerDeviceNumeric_eq, reportHistory, setPerDeviceNumericLastGeneratedDayIndex,
      ProtoMap.lookup_update_self, Option.getD_some, true_and]
    rw [AggregatedObservationHistory.perDeviceNumericHistory, ProtoMap.lookup_update]
    by_cases hcomponent : component' = component
    · subst hcomponent
      simp only [↓reduceIte, Option.getD_some, ProtoMap.lookup_update, true_and]
      by_cases hcode : U32.ofNat code' = U32.ofNat code
      · simp only [hcode, ↓reduceIte, Option.getD_some, ProtoMap.lookup_insert_eq_ite, true_and]
        split_ifs
        · rfl
        · rw [hcode]
      · simp only [hcode, ↓reduceIte, false_and]
    · simp only [hcomponent, ↓reduceIte, false_and]
  · rw [getPerDeviceNumeric_congr (lookup_setPerDeviceNumeric_of_ne hkey code days value component)]
    simp only [hkey, false_and, ↓reduceIte]

/-- A write to the history of the other kind leaves an empty one. -/
theorem getUniqueActives_setPerDeviceNumeric :
    getUniqueActivesLastGeneratedDayIndex
        (setPerDeviceNumericLastGeneratedDayIndex history reportKey component code days value)
        key code' days' =
      if key = reportKey then 0
      else getUniqueActivesLastGeneratedDayIndex history key code' days' := by
  split_ifs with hkey
  · subst hkey
    simp only [getUniqueActives_eq, reportHistory, setPerDeviceNumericLastGeneratedDayIndex,
      ProtoMap.lookup_update_self, Option.getD_some]
    rfl
  · rw [getUniqueActives_congr (lookup_setPerDeviceNumeric_of_ne hkey code days value component)]

theorem getPerDeviceNumeric_setUniqueActives :
    getPerDeviceNumericLastGeneratedDayIndex
        (setUniqueActivesLastGeneratedDayIndex history reportKey code days value)
        key component code' days' =
      if key = reportKey then 0
      else getPerDeviceNumericLastGeneratedDayIndex history key component code' days' := by
  split_ifs with hkey
  · subst hkey
    simp only [getPerDeviceNumeric_eq, reportHistory, setUniqueActivesLastGeneratedDayIndex,
      ProtoMap.lookup_update_self, Option.getD_some]
    rfl
  · rw [getPerDeviceNumeric_congr (lookup_setUniqueActives_of_ne hkey code days value)]

/-- The participation history is a field of its own, so writes to it change no other history. -/
theorem getUniqueActives_setReportParticipation :
    getUniqueActivesLastGeneratedDayIndex
        (setReportParticipationLastGeneratedDayIndex history reportKey value) key code days =
      getUniqueActivesLastGeneratedDayIndex history key code days := by
  by_cases hkey : key = reportKey
  · subst hkey
    simp only [getUniqueActives_eq, reportHistory, setReportParticipationLastGeneratedDayIndex,
      ProtoMap.lookup_update_self, Option.getD_some]
    rfl
  · rw [getUniqueActives_congr (lookup_setReportParticipation_of_ne hkey value)]

theorem getPerDeviceNumeric_setReportParticipation :
    getPerDeviceNumericLastGeneratedDayIndex
        (setReportParticipationLastGeneratedDayIndex history reportKey value) key component code
        days =
      getPerDeviceNumericLastGeneratedDayIndex history key component code days := by
  by_cases hkey : key = reportKey
  · subst hkey
    simp only [getPerDeviceNumeric_eq, reportHistory, setReportParticipationLastGeneratedDayIndex,
      ProtoMap.lookup_update_self, Option.getD_some]
    rfl
  · rw [getPerDeviceNumeric_congr (lookup_setReportParticipation_of_ne hkey value)]

theorem getReportParticipation_setPerDeviceNumeric :
    getReportParticipationLastGeneratedDayIndex
        (setPerDeviceNumericLastGeneratedDayIndex history reportKey component code days value) key =
      getReportParticipationLastGeneratedDayIndex history key := by
  simp only [getReportParticipation_eq, reportHistory, setPerDeviceNumericLastGeneratedDayIndex,
    ProtoMap.lookup_update]
  split_ifs with hkey
  · rw [hkey]
    rfl
  · rfl

theorem getReportParticipation_setUniqueActives :
    getReportParticipationLastGeneratedDayIndex
        (setUniqueActivesLastGeneratedDayIndex history reportKey code days value) key =
      getReportParticipationLastGeneratedDayIndex history key := by
  simp only [getReportParticipation_eq, reportHistory, setUniqueActivesLastGeneratedDayIndex,
    ProtoMap.lookup_update]
  split_ifs with hkey
  · rw [hkey]
    rfl
  · rfl

theorem getReportParticipation_setReportParticipation :
    getReportParticipationLastGeneratedDayIndex
        (setReportParticipationLastGeneratedDayIndex history reportKey value) key =
      if key = reportKey then value
      else getReportParticipationLastGeneratedDayIndex history key := by
  simp only [getReportParticipation_eq, reportHistory,
    setReportParticipationLastGeneratedDayIndex, ProtoMap.lookup_update]
  split_ifs <;> rfl

end Reads

end Cobalt.LocalAggregation
