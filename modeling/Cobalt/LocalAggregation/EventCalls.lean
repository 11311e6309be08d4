import Cobalt.Lib.Fold1
import Cobalt.Lib.MapView
import Cobalt.LocalAggregation.GenerateObservations

/-!
# Sequences of aggregated events

`SetActive` and `UpdateNumericAggregate` each write to one cell of the `LocalAggregateStore`: the
daily aggregate of a report, a component, an event code and a day. The cell and the maps that lead
to it are created on demand.

The store is read as a nest of functions (`StoreView`), in which the order of map entries is gone.
There a call is the replacement of one cell by a function of its old value, and two calls commute.

## Main definitions

* `EventCall`, `runEvents`: calls of the two functions, and sequences of them.
* `Cell`, `StoreView`, `LocalAggregateStore.view`: the store by its cells.
* `aggregateOf`: the sum, the minimum or the maximum of a list of values.

## Main results

* `view_run`: a call replaces its cell and changes nothing else.
* `replaceCell_comm`: the calls commute.
* `foldl_updateDayAggregate`: a cell that is updated several times has the aggregate of the values.
-/

namespace Cobalt.LocalAggregation

open PartialMap (alter adjust)

/-! ### Calls -/

/-- A call that aggregates an event. -/
inductive EventCall
  | setActive (key : ReportAggregationKey) (eventCode dayIndex : ℕ)
  | updateNumericAggregate (key : ReportAggregationKey) (component : String)
      (eventCode dayIndex : ℕ) (value : ℤ)
  deriving DecidableEq

/-- A call on a store. -/
def EventCall.run (s : AggregateStore) : EventCall → Status × AggregateStore
  | .setActive key eventCode dayIndex => LocalAggregation.setActive key eventCode dayIndex s
  | .updateNumericAggregate key component eventCode dayIndex value =>
    LocalAggregation.updateNumericAggregate key component eventCode dayIndex value s

/-- A sequence of calls, with the status of each. -/
def runEvents : List EventCall → AggregateStore → List Status × AggregateStore
  | [], s => ([], s)
  | call :: calls, s =>
    let r := call.run s
    let rest := runEvents calls r.2
    (r.1 :: rest.1, rest.2)

/-! ### The store by its cells -/

/-- Days with their aggregates. -/
abbrev DaysView : Type := ℕ → Option DailyAggregate

/-- The aggregates of a report, read as functions. -/
inductive AggregatesView
  | typeNotSet
  | uniqueActives (byEventCode : ℕ → Option DaysView)
  | numeric (byComponent : String → Option (ℕ → Option DaysView))

/-- The reports of a store, read as functions. -/
abbrev StoreView : Type := ReportAggregationKey → Option (AggregationConfig × AggregatesView)

def ReportAggregatesType.view : ReportAggregatesType → AggregatesView
  | .typeNotSet => .typeNotSet
  | .uniqueActivesAggregates a => .uniqueActives (ProtoMap.view (ProtoMap.view id) a)
  | .numericAggregates a => .numeric (ProtoMap.view (ProtoMap.view (ProtoMap.view id)) a)

def ReportAggregates.view (aggregates : ReportAggregates) : AggregationConfig × AggregatesView :=
  (aggregates.aggregationConfig, aggregates.type.view)

def LocalAggregateStore.view (store : LocalAggregateStore) : StoreView :=
  ProtoMap.view ReportAggregates.view store.byReportKey

theorem sameAggregates_iff (a a' : ReportAggregatesType) :
    SameAggregates a a' ↔ a.view = a'.view := by
  have hdays : ∀ m m' : DailyAggregates, SameEntries Eq m m' ↔
      ProtoMap.view id m = ProtoMap.view id m' :=
    ProtoMap.view_eq_iff fun _ _ => Iff.rfl
  have hcodes : ∀ m m' : EventCodeAggregates, SameEntries (SameEntries Eq) m m' ↔
      ProtoMap.view (ProtoMap.view id) m = ProtoMap.view (ProtoMap.view id) m' :=
    ProtoMap.view_eq_iff hdays
  constructor
  · rintro (_ | h | h)
    · rfl
    · exact congrArg AggregatesView.uniqueActives ((hcodes _ _).mp h)
    · exact congrArg AggregatesView.numeric ((ProtoMap.view_eq_iff hcodes _ _).mp h)
  · intro h
    cases a <;> cases a' <;> simp only [ReportAggregatesType.view, reduceCtorEq,
      AggregatesView.uniqueActives.injEq, AggregatesView.numeric.injEq] at h
    · exact .typeNotSet
    · exact .uniqueActives ((hcodes _ _).mpr h)
    · exact .numeric ((ProtoMap.view_eq_iff hcodes _ _).mpr h)

/-- Stores with the same reports are those with the same view. -/
theorem sameReports_iff (store store' : LocalAggregateStore) :
    SameReports store store' ↔ store.view = store'.view := by
  refine ProtoMap.view_eq_iff (fun a a' => ?_) _ _
  rw [sameAggregates_iff, ReportAggregates.view, ReportAggregates.view, Prod.mk.injEq]

/-- The place of a daily aggregate in a store. -/
inductive Cell
  | activity (key : ReportAggregationKey) (eventCode dayIndex : ℕ)
  | numeric (key : ReportAggregationKey) (component : String) (eventCode dayIndex : ℕ)
  deriving DecidableEq

/-- The report of a cell. -/
def Cell.key : Cell → ReportAggregationKey
  | .activity key _ _ => key
  | .numeric key _ _ _ => key

/-- The aggregates with the cell replaced by a function of its old value. Aggregates that are not of
the kind of the cell have no such cell. -/
def AggregatesView.replaceCell (f : Option DailyAggregate → DailyAggregate) :
    Cell → AggregatesView → AggregatesView
  | .activity _ eventCode dayIndex, .uniqueActives byEventCode =>
    .uniqueActives <| alter byEventCode eventCode fun days =>
      alter (days.getD fun _ => none) dayIndex f
  | .numeric _ component eventCode dayIndex, .numeric byComponent =>
    .numeric <| alter byComponent component fun byEventCode =>
      alter (byEventCode.getD fun _ => none) eventCode fun days =>
        alter (days.getD fun _ => none) dayIndex f
  | _, aggregates => aggregates

/-- The store with one cell replaced by a function of the configuration of its report and its old
value. -/
def StoreView.replaceCell (cell : Cell)
    (f : AggregationConfig → Option DailyAggregate → DailyAggregate) (view : StoreView) :
    StoreView :=
  adjust view cell.key fun report => (report.1, report.2.replaceCell (f report.1) cell)

/-- The cell that a call addresses. -/
def EventCall.cell : EventCall → Cell
  | .setActive key eventCode dayIndex => .activity key (U32.ofNat eventCode) dayIndex
  | .updateNumericAggregate key component eventCode dayIndex _ =>
    .numeric key component eventCode dayIndex

/-- What a call leaves in its cell. -/
def EventCall.newValue (call : EventCall) (config : AggregationConfig)
    (old : Option DailyAggregate) : DailyAggregate :=
  match call with
  | .setActive _ _ _ => .activity true
  | .updateNumericAggregate _ _ _ _ value =>
    (updateDayAggregate config.report.aggregationType old value).2

/-! ### What a call does -/

section Run

variable {s : AggregateStore} {key : ReportAggregationKey}

private theorem view_updateActivity (a : UniqueActivesReportAggregates) (eventCode dayIndex : ℕ)
    (new : DailyAggregate) :
    (ReportAggregatesType.uniqueActivesAggregates
      (a.update eventCode ∅ fun days => days.insert dayIndex new)).view =
    AggregatesView.replaceCell (fun _ => new) (.activity key eventCode dayIndex)
      (ReportAggregatesType.uniqueActivesAggregates a).view :=
  congrArg AggregatesView.uniqueActives <|
    ProtoMap.view_update _ (fun days => alter days dayIndex fun _ => new)
      (fun days => ProtoMap.view_insert id days dayIndex new) a eventCode ∅

private theorem view_updateNumeric (a : PerDeviceNumericAggregates) (component : String)
    (eventCode dayIndex : ℕ) (new : DailyAggregate) :
    (ReportAggregatesType.numericAggregates
      (a.update component ∅ fun byEventCode =>
        byEventCode.update eventCode ∅ fun days => days.insert dayIndex new)).view =
    AggregatesView.replaceCell (fun _ => new) (.numeric key component eventCode dayIndex)
      (ReportAggregatesType.numericAggregates a).view := by
  refine congrArg AggregatesView.numeric ?_
  have hcodes : ∀ byEventCode : EventCodeAggregates, ProtoMap.view (ProtoMap.view id)
      (byEventCode.update eventCode ∅ fun days => days.insert dayIndex new) =
      alter (ProtoMap.view (ProtoMap.view id) byEventCode) eventCode fun days =>
        alter (days.getD fun _ => none) dayIndex fun _ => new := fun byEventCode =>
    ProtoMap.view_update _ (fun days => alter days dayIndex fun _ => new)
      (fun days => ProtoMap.view_insert id days dayIndex new) byEventCode eventCode ∅
  exact ProtoMap.view_update _ (fun byEventCode => alter byEventCode eventCode fun days =>
    alter (days.getD fun _ => none) dayIndex fun _ => new) hcodes a component ∅

/-- The value in a cell. -/
def AggregatesView.cellAt : Cell → AggregatesView → Option DailyAggregate
  | .activity _ eventCode dayIndex, .uniqueActives byEventCode =>
    (byEventCode eventCode).bind (· dayIndex)
  | .numeric _ component eventCode dayIndex, .numeric byComponent =>
    ((byComponent component).bind (· eventCode)).bind (· dayIndex)
  | _, _ => none

/-- Only the image of the old value matters. -/
private theorem replaceCell_congr {f f' : Option DailyAggregate → DailyAggregate} {cell : Cell}
    {aggregates : AggregatesView}
    (h : f (aggregates.cellAt cell) = f' (aggregates.cellAt cell)) :
    aggregates.replaceCell f cell = aggregates.replaceCell f' cell := by
  cases cell with
  | activity key eventCode dayIndex =>
    cases aggregates with
    | uniqueActives byEventCode =>
      refine congrArg AggregatesView.uniqueActives (PartialMap.alter_congr ?_)
      refine PartialMap.alter_congr ?_
      rw [PartialMap.getD_empty_apply]
      exact h
    | typeNotSet => rfl
    | numeric => rfl
  | numeric key component eventCode dayIndex =>
    cases aggregates with
    | numeric byComponent =>
      refine congrArg AggregatesView.numeric (PartialMap.alter_congr ?_)
      refine PartialMap.alter_congr (PartialMap.alter_congr ?_)
      rw [PartialMap.getD_empty_apply, PartialMap.getD_empty_apply]
      exact h
    | typeNotSet => rfl
    | uniqueActives => rfl

private theorem cellAt_numeric (a : PerDeviceNumericAggregates) (component : String)
    (eventCode dayIndex : ℕ) :
    (ReportAggregatesType.numericAggregates a).view.cellAt
        (.numeric key component eventCode dayIndex) =
      (PerDeviceNumericAggregates.dailyAggregates a component eventCode).lookup dayIndex := by
  rw [PerDeviceNumericAggregates.dailyAggregates]
  simp only [ReportAggregatesType.view, AggregatesView.cellAt, ProtoMap.view_apply]
  cases a.lookup component with
  | none => rfl
  | some byEventCode =>
    simp only [Option.map_some, Option.bind_some, ProtoMap.view_apply, Option.getD_some]
    cases byEventCode.lookup eventCode <;> simp

theorem StoreView.replaceCell_eq_self {view : StoreView} {cell : Cell}
    {f : AggregationConfig → Option DailyAggregate → DailyAggregate}
    (h : ∀ report, view cell.key = some report → report.2.replaceCell (f report.1) cell = report.2) :
    view.replaceCell cell f = view :=
  PartialMap.adjust_eq_self_iff.mpr fun report hreport => congrArg (Prod.mk _) (h report hreport)

theorem LocalAggregateStore.view_eq_some_iff {store : LocalAggregateStore}
    {report : AggregationConfig × AggregatesView} :
    store.view key = some report ↔
      ∃ aggregates, store.byReportKey.lookup key = some aggregates ∧ aggregates.view = report :=
  Option.map_eq_some_iff

private theorem view_setAggregates (call : EventCall) {aggregates : ReportAggregates}
    {type : ReportAggregatesType}
    (hlookup : s.localAggregateStore.byReportKey.lookup call.cell.key = some aggregates)
    (htype : type.view = aggregates.type.view.replaceCell
      (call.newValue aggregates.aggregationConfig) call.cell) :
    (s.setAggregates call.cell.key { aggregates with type := type }).localAggregateStore.view =
      s.localAggregateStore.view.replaceCell call.cell call.newValue := by
  simp only [AggregateStore.setAggregates, LocalAggregateStore.view, ProtoMap.view_insert, alter,
    StoreView.replaceCell, adjust, ProtoMap.view_apply, hlookup, Option.map_some,
    ReportAggregates.view, htype]

/-- One call. On a store that is not disabled a call replaces its cell and changes nothing
else; where the report has no such cell it changes nothing. -/
theorem view_run (henabled : s.isDisabled = false) (call : EventCall) :
    (call.run s).2.localAggregateStore.view =
      s.localAggregateStore.view.replaceCell call.cell call.newValue := by
  have hother : ∀ {type : ReportAggregatesType},
      (∀ f, type.view.replaceCell f call.cell = type.view) →
      ∀ aggregates, s.localAggregateStore.byReportKey.lookup call.cell.key = some aggregates →
      aggregates.type = type → s.localAggregateStore.view =
        s.localAggregateStore.view.replaceCell call.cell call.newValue := by
    intro type hkind aggregates hlookup htype
    refine (StoreView.replaceCell_eq_self fun report hreport => ?_).symm
    obtain ⟨aggregates', hlookup', rfl⟩ := LocalAggregateStore.view_eq_some_iff.mp hreport
    obtain rfl := Option.some.inj (hlookup.symm.trans hlookup')
    rw [ReportAggregates.view, htype]
    exact hkind _
  have hnone : s.localAggregateStore.byReportKey.lookup call.cell.key = none →
      s.localAggregateStore.view =
        s.localAggregateStore.view.replaceCell call.cell call.newValue := by
    intro hlookup
    refine (StoreView.replaceCell_eq_self fun report hreport => ?_).symm
    obtain ⟨aggregates', hlookup', -⟩ := LocalAggregateStore.view_eq_some_iff.mp hreport
    exact absurd (hlookup.symm.trans hlookup') (by simp)
  cases call with
  | setActive key eventCode dayIndex =>
    simp only [EventCall.run, setActive, henabled, Bool.false_eq_true, ↓reduceIte]
    split
    · next hlookup => exact hnone hlookup
    · next aggregates hlookup =>
      split
      · next a htype =>
        refine view_setAggregates (.setActive key eventCode dayIndex) hlookup ?_
        rw [htype]
        exact view_updateActivity a _ _ _
      · next hkind =>
        cases htype : aggregates.type with
        | uniqueActivesAggregates a => exact absurd htype (hkind a)
        | typeNotSet => exact hother (fun f => rfl) aggregates hlookup htype
        | numericAggregates a => exact hother (fun f => rfl) aggregates hlookup htype
  | updateNumericAggregate key component eventCode dayIndex value =>
    simp only [EventCall.run, updateNumericAggregate, henabled, Bool.false_eq_true, ↓reduceIte]
    split
    · next hlookup => exact hnone hlookup
    · next aggregates hlookup =>
      split
      · next a htype =>
        refine view_setAggregates
          (.updateNumericAggregate key component eventCode dayIndex value) hlookup ?_
        rw [htype]
        refine (view_updateNumeric a _ _ _ _).trans (replaceCell_congr ?_)
        -- the new value is computed from the cell itself
        simp only [EventCall.newValue, cellAt_numeric]
      · next hkind =>
        cases htype : aggregates.type with
        | numericAggregates a => exact absurd htype (hkind a)
        | typeNotSet => exact hother (fun f => rfl) aggregates hlookup htype
        | uniqueActivesAggregates a => exact hother (fun f => rfl) aggregates hlookup htype

end Run

/-! ### Statuses -/

section Status

variable {s : AggregateStore}

/-- The status of a call, from the report that it addresses. -/
def EventCall.statusFor (call : EventCall) :
    Option (AggregationConfig × AggregatesView) → Status
  | none => .kInvalidArguments
  | some (config, aggregates) =>
    match call, aggregates with
    | .setActive _ _ _, .uniqueActives _ => .kOK
    | .updateNumericAggregate _ _ _ _ value, .numeric _ =>
      (updateDayAggregate config.report.aggregationType (aggregates.cellAt call.cell) value).1
    | _, _ => .kInvalidArguments

theorem status_run (henabled : s.isDisabled = false) (call : EventCall) :
    (call.run s).1 = call.statusFor (s.localAggregateStore.view call.cell.key) := by
  cases call with
  | setActive key eventCode dayIndex =>
    simp only [EventCall.run, setActive, henabled, Bool.false_eq_true, ↓reduceIte, EventCall.cell,
      Cell.key, LocalAggregateStore.view, ProtoMap.view_apply]
    cases s.localAggregateStore.byReportKey.lookup key with
    | none => rfl
    | some aggregates =>
      simp only [Option.map_some, ReportAggregates.view]
      cases aggregates.type <;> rfl
  | updateNumericAggregate key component eventCode dayIndex value =>
    simp only [EventCall.run, updateNumericAggregate, henabled, Bool.false_eq_true, ↓reduceIte,
      EventCall.cell, Cell.key, LocalAggregateStore.view, ProtoMap.view_apply]
    cases s.localAggregateStore.byReportKey.lookup key with
    | none => rfl
    | some aggregates =>
      simp only [Option.map_some, ReportAggregates.view]
      cases aggregates.type with
      | typeNotSet => rfl
      | uniqueActivesAggregates => rfl
      | numericAggregates a =>
        exact congrArg (fun old => (updateDayAggregate _ old value).1)
          (cellAt_numeric a component eventCode dayIndex).symm

/-- An update of a cell fails if and only if the cell has a value and the aggregation type is not
one that the code knows. -/
theorem updateDayAggregate_ne_kOK_iff {aggregationType : OnDeviceAggregationType}
    {stored : Option DailyAggregate} {value : ℤ} :
    (updateDayAggregate aggregationType stored value).1 ≠ .kOK ↔
      ¬ Recognized aggregationType ∧ stored.isSome := by
  cases stored with
  | none => simp [updateDayAggregate, getUpdatedAggregate]
  | some old =>
    cases aggregationType <;> simp [updateDayAggregate, getUpdatedAggregate, Recognized]

/-- An update that fails leaves a numeric aggregate, whatever the cell had. -/
theorem updateDayAggregate_of_ne_kOK {aggregationType : OnDeviceAggregationType}
    {stored : Option DailyAggregate} {value : ℤ}
    (h : (updateDayAggregate aggregationType stored value).1 ≠ .kOK) :
    (updateDayAggregate aggregationType stored value).2 =
      .numeric (stored.getD .typeNotSet).numericValue := by
  have hstatus : (getUpdatedAggregate aggregationType
      (stored.map fun _ => (stored.getD .typeNotSet).numericValue) value).1 ≠ .kOK := h
  simp only [updateDayAggregate, hstatus, ↓reduceIte]

end Status

/-! ### Calls that fail -/

section Atomic

variable {s : AggregateStore}

/-- The same store, up to the order of map entries. -/
def SameStore (store store' : LocalAggregateStore) : Prop :=
  store'.version = store.version ∧ SameReports store store'

/-- The second store is the first one with a value written to the cell, if it is not the same. -/
def OnlyCellChanged (cell : Cell) (store store' : LocalAggregateStore) : Prop :=
  store'.version = store.version ∧
    (store'.view = store.view ∨ ∃ new, store'.view = store.view.replaceCell cell fun _ _ => new)

/-- A call that fails, or is made on a disabled store, leaves the store as it was, and one that
succeeds changes its cell only. -/
def EventCall.Atomic (s : AggregateStore) (call : EventCall) : Prop :=
  ((call.run s).1 ≠ .kOK ∨ s.isDisabled = true →
    SameStore s.localAggregateStore (call.run s).2.localAggregateStore) ∧
  ((call.run s).1 = .kOK →
    OnlyCellChanged call.cell s.localAggregateStore (call.run s).2.localAggregateStore)

theorem run_of_disabled (h : s.isDisabled = true) (call : EventCall) : call.run s = (.kOK, s) := by
  cases call <;> simp only [EventCall.run, setActive, updateNumericAggregate, h, ↓reduceIte]

/-- A call changes nothing but the reports of the store. -/
theorem run_eq (s : AggregateStore) (call : EventCall) :
    ∃ reports, (call.run s).2 = { s with localAggregateStore :=
      { s.localAggregateStore with byReportKey := reports } } := by
  cases call with
  | setActive key eventCode dayIndex =>
    rw [EventCall.run, setActive]
    split_ifs
    · exact ⟨_, rfl⟩
    · split
      · exact ⟨_, rfl⟩
      · split <;> exact ⟨_, rfl⟩
  | updateNumericAggregate key component eventCode dayIndex value =>
    rw [EventCall.run, updateNumericAggregate]
    split_ifs
    · exact ⟨_, rfl⟩
    · split
      · exact ⟨_, rfl⟩
      · split <;> exact ⟨_, rfl⟩

theorem version_run (s : AggregateStore) (call : EventCall) :
    (call.run s).2.localAggregateStore.version = s.localAggregateStore.version := by
  obtain ⟨reports, h⟩ := run_eq s call
  rw [h]

theorem isDisabled_run (s : AggregateStore) (call : EventCall) :
    (call.run s).2.isDisabled = s.isDisabled := by
  obtain ⟨reports, h⟩ := run_eq s call
  rw [h]

theorem StoreView.replaceCell_eq_const (view : StoreView) (cell : Cell)
    (f : AggregationConfig → Option DailyAggregate → DailyAggregate) :
    view.replaceCell cell f = view ∨
      ∃ new, view.replaceCell cell f = view.replaceCell cell fun _ _ => new := by
  cases hreport : view cell.key with
  | none =>
    refine Or.inl (replaceCell_eq_self fun report h => ?_)
    exact absurd (hreport.symm.trans h) (by simp)
  | some report =>
    refine Or.inr ⟨f report.1 (report.2.cellAt cell), ?_⟩
    simp only [replaceCell, adjust, hreport, Option.map_some]
    rw [replaceCell_congr]
    rfl

/-- The replacement of a numeric cell changes nothing if and only if the cell has that value
already. -/
private theorem replaceCell_numeric_eq_self_iff {f : Option DailyAggregate → DailyAggregate}
    {key : ReportAggregationKey} {component : String} {eventCode dayIndex : ℕ}
    {byComponent : String → Option (ℕ → Option DaysView)} :
    let cell := Cell.numeric key component eventCode dayIndex
    let aggregates := AggregatesView.numeric byComponent
    aggregates.replaceCell f cell = aggregates ↔
      aggregates.cellAt cell = some (f (aggregates.cellAt cell)) := by
  dsimp only [AggregatesView.replaceCell, AggregatesView.cellAt]
  rw [AggregatesView.numeric.injEq, PartialMap.alter_eq_self_iff]
  cases byComponent component with
  | none => simp
  | some byEventCode =>
    rw [Option.some.injEq, eq_comm, Option.getD_some, PartialMap.alter_eq_self_iff,
      Option.bind_some]
    cases byEventCode eventCode with
    | none => simp
    | some days =>
      rw [Option.some.injEq, eq_comm, Option.getD_some, PartialMap.alter_eq_self_iff,
        Option.bind_some]

/-- The call is an update of a cell that exists without a numeric value, for a report whose
aggregation type the code does not know: it fails after the cell was made numeric. -/
def EventCall.OverwritesOnError (s : AggregateStore) : EventCall → Prop
  | .setActive _ _ _ => False
  | .updateNumericAggregate key component eventCode dayIndex _ =>
    s.isDisabled = false ∧ ∃ aggregates byComponent old,
      s.localAggregateStore.byReportKey.lookup key = some aggregates ∧
      aggregates.type = .numericAggregates byComponent ∧
      ¬ Recognized aggregates.aggregationConfig.report.aggregationType ∧
      (PerDeviceNumericAggregates.dailyAggregates byComponent component eventCode).lookup
        dayIndex = some old ∧ ∀ value, old ≠ .numeric value

private theorem overwritesOnError_iff {key : ReportAggregationKey} {component : String}
    {eventCode dayIndex : ℕ} {value : ℤ} :
    (EventCall.updateNumericAggregate key component eventCode dayIndex value).OverwritesOnError s ↔
      s.isDisabled = false ∧ ∃ config byComponent old,
        s.localAggregateStore.view key = some (config, .numeric byComponent) ∧
        ¬ Recognized config.report.aggregationType ∧
        (AggregatesView.numeric byComponent).cellAt (.numeric key component eventCode dayIndex) =
          some old ∧ ∀ value, old ≠ .numeric value := by
  refine and_congr_right fun _ => ?_
  constructor
  · rintro ⟨aggregates, a, old, hlookup, htype, hrec, hold, hkind⟩
    refine ⟨aggregates.aggregationConfig, _, old, LocalAggregateStore.view_eq_some_iff.mpr
      ⟨aggregates, hlookup, Prod.ext rfl (congrArg ReportAggregatesType.view htype)⟩, hrec, ?_,
      hkind⟩
    exact (cellAt_numeric a component eventCode dayIndex).trans hold
  · rintro ⟨config, byComponent, old, hview, hrec, hold, hkind⟩
    obtain ⟨aggregates, hlookup, hreport⟩ := LocalAggregateStore.view_eq_some_iff.mp hview
    obtain ⟨rfl, htype⟩ := Prod.mk.inj hreport
    cases ha : aggregates.type with
    | typeNotSet => exact absurd (ha ▸ htype) (by simp [ReportAggregatesType.view])
    | uniqueActivesAggregates a =>
      exact absurd (ha ▸ htype) (by simp [ReportAggregatesType.view])
    | numericAggregates a =>
      rw [ha] at htype
      rw [← htype] at hold
      exact ⟨aggregates, a, old, hlookup, ha, hrec,
        (cellAt_numeric a component eventCode dayIndex).symm.trans hold, hkind⟩

private theorem ne_kOK_of_overwritesOnError {call : EventCall} (h : call.OverwritesOnError s) :
    (call.run s).1 ≠ .kOK := by
  cases call with
  | setActive => exact absurd h id
  | updateNumericAggregate key component eventCode dayIndex value =>
    obtain ⟨henabled, config, byComponent, old, hview, hrec, hold, -⟩ := overwritesOnError_iff.mp h
    rw [status_run henabled]
    simp only [EventCall.cell, Cell.key, hview]
    refine updateDayAggregate_ne_kOK_iff.mpr ⟨hrec, ?_⟩
    exact Option.isSome_iff_exists.mpr ⟨old, hold⟩

private theorem eq_numeric_iff {old : DailyAggregate} :
    old = .numeric old.numericValue ↔ ¬ ∀ value, old ≠ .numeric value := by
  cases old <;> simp [DailyAggregate.numericValue]

/-- A call that fails leaves the store as it was, unless it overwrites its cell. -/
private theorem view_run_eq_iff (henabled : s.isDisabled = false) {call : EventCall}
    (hfailed : (call.run s).1 ≠ .kOK) :
    (call.run s).2.localAggregateStore.view = s.localAggregateStore.view ↔
      ¬ call.OverwritesOnError s := by
  rw [view_run henabled, StoreView.replaceCell, PartialMap.adjust_eq_self_iff]
  rw [status_run henabled] at hfailed
  cases call with
  | setActive key eventCode dayIndex =>
    refine iff_of_true (fun report hreport => ?_) id
    rw [hreport] at hfailed
    obtain ⟨config, aggregates⟩ := report
    cases aggregates with
    | uniqueActives byEventCode => exact absurd rfl hfailed
    | typeNotSet => rfl
    | numeric => rfl
  | updateNumericAggregate key component eventCode dayIndex value =>
    rw [overwritesOnError_iff]
    simp only [EventCall.cell, Cell.key] at hfailed ⊢
    rcases hreport : s.localAggregateStore.view key with _ | ⟨config, aggregates⟩
    · simp
    · rw [hreport] at hfailed
      cases aggregates with
      | typeNotSet => simp [AggregatesView.replaceCell]
      | uniqueActives => simp [AggregatesView.replaceCell]
      | numeric byComponent =>
        obtain ⟨hrec, hsome⟩ := updateDayAggregate_ne_kOK_iff.mp hfailed
        obtain ⟨old, hold⟩ := Option.isSome_iff_exists.mp hsome
        have hnew := updateDayAggregate_of_ne_kOK hfailed
        rw [hold] at hnew
        rw [EventCall.cell] at hold
        have hself : (∀ report, some (config, AggregatesView.numeric byComponent) = some report →
            (report.1, report.2.replaceCell ((EventCall.updateNumericAggregate key component
              eventCode dayIndex value).newValue report.1)
                (.numeric key component eventCode dayIndex)) = report) ↔
            old = .numeric old.numericValue := by
          simp only [Option.some.injEq, forall_eq', Prod.mk.injEq, true_and]
          refine replaceCell_numeric_eq_self_iff.trans ?_
          rw [hold, Option.some.injEq, EventCall.newValue, hnew, Option.getD_some]
        rw [hself, eq_numeric_iff, not_iff_not]
        constructor
        · exact fun hkind => ⟨henabled, config, byComponent, old, rfl, hrec, hold, hkind⟩
        · rintro ⟨-, config', byComponent', old', hreport', -, hold', hkind⟩
          obtain ⟨rfl, heq⟩ := Prod.mk.inj (Option.some.inj hreport')
          obtain rfl := AggregatesView.numeric.inj heq
          obtain rfl := Option.some.inj (hold.symm.trans hold')
          exact hkind

/-- **Failed calls.** A call is atomic unless it overwrites a cell of another kind and then fails
because of an aggregation type that the code does not know. -/
theorem atomic_iff_not_overwritesOnError (s : AggregateStore) (call : EventCall) :
    call.Atomic s ↔ ¬ call.OverwritesOnError s := by
  cases hdisabled : s.isDisabled with
  | true =>
    have hover : ¬ call.OverwritesOnError s := by
      cases call with
      | setActive => exact id
      | updateNumericAggregate => exact fun h => absurd (hdisabled.symm.trans h.1) (by simp)
    have hrun := run_of_disabled hdisabled call
    refine iff_of_true ⟨fun _ => ?_, fun _ => ?_⟩ hover
    · rw [hrun]
      exact ⟨rfl, SameReports.refl _⟩
    · rw [hrun]
      exact ⟨rfl, Or.inl rfl⟩
  | false =>
    by_cases hok : (call.run s).1 = .kOK
    · refine iff_of_true ⟨fun h => ?_, fun _ => ⟨version_run s call, ?_⟩⟩ fun h => ?_
      · exact absurd h (by simp [hok, hdisabled])
      · rw [view_run hdisabled]
        exact StoreView.replaceCell_eq_const _ _ _
      · exact ne_kOK_of_overwritesOnError h hok
    · have hview := view_run_eq_iff hdisabled hok
      rw [← hview, EventCall.Atomic, SameStore, sameReports_iff]
      constructor
      · exact fun h => (h.1 (Or.inl hok)).2.symm
      · exact fun h => ⟨fun _ => ⟨version_run s call, h.symm⟩, fun h' => absurd h' hok⟩

/-- The aggregates of a report with one cell. -/
def oneCellAggregates (aggregationType : OnDeviceAggregationType) (cell : DailyAggregate) :
    ReportAggregates where
  type := .numericAggregates (AList.singleton "c" (AList.singleton 5 (AList.singleton 400 cell)))
  aggregationConfig :=
    { project := ⟨1, 2⟩
      metric := { customerId := 1, projectId := 2, id := 3, metricType := .EVENT_COUNT }
      report :=
        { id := 4
          reportType := .PER_DEVICE_NUMERIC_STATS
          aggregationType := aggregationType }
      aggregationWindow := [.days 1] }

/-- A store with one report and one cell. -/
def oneCellStore (aggregationType : OnDeviceAggregationType) (cell : DailyAggregate) :
    AggregateStore where
  localAggregateStore :=
    ⟨kCurrentLocalAggregateStoreVersion,
      AList.singleton ⟨1, 2, 3, 4⟩ (oneCellAggregates aggregationType cell)⟩
  emptyLocalAggregateStore := makeNewLocalAggregateStore
  obsHistory := makeNewObservationHistoryStore
  isDisabled := false
  backfillDays := 0
  backfillDays_le := Nat.zero_le _

/-- A cell that was stored without a value is a numeric one after the failed update. -/
theorem not_atomic_of_typeNotSet :
    ¬ (EventCall.updateNumericAggregate ⟨1, 2, 3, 4⟩ "c" 5 400 7).Atomic
      (oneCellStore (.unrecognized 3) .typeNotSet) := by
  intro h
  have hfailed : ((EventCall.updateNumericAggregate ⟨1, 2, 3, 4⟩ "c" 5 400 7).run
      (oneCellStore (.unrecognized 3) .typeNotSet)).1 ≠ .kOK := by decide
  have hsame := (sameReports_iff _ _).mp (h.1 (Or.inl hfailed)).2
  refine (view_run_eq_iff rfl hfailed).mp hsame.symm ⟨rfl, _, _, _, rfl, rfl, id, rfl, ?_⟩
  intro value
  simp

end Atomic

/-! ### The aggregate of a list of values -/

section Aggregate

variable {aggregationType : OnDeviceAggregationType}

/-- The sum, the minimum or the maximum of a list of values, `none` when there are none. -/
def aggregateOf (aggregationType : OnDeviceAggregationType) (values : List ℤ) : Option ℤ :=
  match aggregationType with
  | .SUM => if values = [] then none else some values.sum
  | .MIN => values.min?
  | .MAX => values.max?
  | .unrecognized _ => none

/-- The operation of an aggregation type that the code knows. -/
def aggregationOp : OnDeviceAggregationType → ℤ → ℤ → ℤ
  | .MIN => min
  | .MAX => max
  | _ => (· + ·)

instance : Std.Associative (aggregationOp aggregationType) := by
  constructor
  intro a b c
  cases aggregationType with
  | MIN => exact min_assoc a b c
  | MAX => exact max_assoc a b c
  | SUM => exact add_assoc a b c
  | unrecognized => exact add_assoc a b c

instance : Std.Commutative (aggregationOp aggregationType) := by
  constructor
  intro a b
  cases aggregationType with
  | MIN => exact min_comm a b
  | MAX => exact max_comm a b
  | SUM => exact add_comm a b
  | unrecognized => exact add_comm a b

theorem aggregateOf_eq_fold1 (h : Recognized aggregationType) (values : List ℤ) :
    aggregateOf aggregationType values = Fold1.fold1 (aggregationOp aggregationType) values := by
  cases values with
  | nil => cases aggregationType <;> rfl
  | cons v values =>
    cases aggregationType with
    | MIN => rfl
    | MAX => rfl
    | SUM =>
      refine congrArg some ?_
      rw [List.sum_eq_foldl, List.foldl_cons, zero_add]
      rfl
    | unrecognized => exact absurd h id

/-- `GetUpdatedAggregate` for a type that the code knows. -/
theorem getUpdatedAggregate_eq (h : Recognized aggregationType) (stored : Option ℤ) (value : ℤ) :
    getUpdatedAggregate aggregationType stored value =
      (.kOK, stored.elim value (aggregationOp aggregationType · value)) := by
  cases stored with
  | none => rfl
  | some a =>
    cases aggregationType with
    | MIN => exact congrArg (Prod.mk _) (min_comm value a)
    | MAX => exact congrArg (Prod.mk _) (max_comm value a)
    | SUM => exact congrArg (Prod.mk _) (add_comm value a)
    | unrecognized => exact absurd h id

/-- An update for a type that the code knows. -/
theorem updateDayAggregate_eq (h : Recognized aggregationType) (stored : Option DailyAggregate)
    (value : ℤ) :
    updateDayAggregate aggregationType stored value =
      (.kOK, .numeric ((stored.map (·.numericValue)).elim value
        (aggregationOp aggregationType · value))) := by
  rw [updateDayAggregate, getUpdatedAggregate_eq h]
  cases stored <;> rfl

/-- One cell. Updates of one cell leave the aggregate of their values and of the one that was
stored before. -/
theorem foldl_updateDayAggregate (h : Recognized aggregationType) (values : List ℤ)
    (stored : Option DailyAggregate) :
    values.foldl (fun old value => some (updateDayAggregate aggregationType old value).2) stored =
      if values = [] then stored
      else (aggregateOf aggregationType
        (stored.toList.map (·.numericValue) ++ values)).map .numeric := by
  induction values using List.reverseRecOn with
  | nil => rfl
  | append_singleton values v ih =>
    have hne : values ++ [v] ≠ [] := by simp
    rw [List.foldl_append, ih, List.foldl_cons, List.foldl_nil, updateDayAggregate_eq h,
      if_neg hne, aggregateOf_eq_fold1 h, aggregateOf_eq_fold1 h, ← List.append_assoc,
      Fold1.fold1_concat, Option.map_some]
    by_cases hnil : values = []
    · subst hnil
      cases stored <;> rfl
    · rw [if_neg hnil, Option.map_map]
      cases Fold1.fold1 (aggregationOp aggregationType)
        (stored.toList.map (·.numericValue) ++ values) <;> rfl

end Aggregate

/-! ### Calls commute -/

section Commute

/-- Replacements at two cells of a report commute when the cells are different, or each function
gives the same value after the other one. -/
theorem AggregatesView.replaceCell_comm {f f' : Option DailyAggregate → DailyAggregate}
    {cell cell' : Cell} (hkey : cell.key = cell'.key)
    (h : cell = cell' → ∀ old, f (some (f' old)) = f' (some (f old)))
    (aggregates : AggregatesView) :
    (aggregates.replaceCell f cell).replaceCell f' cell' =
      (aggregates.replaceCell f' cell').replaceCell f cell := by
  cases cell with
  | activity key code day =>
    cases cell' with
    | numeric key' component' code' day' => cases aggregates <;> rfl
    | activity key' code' day' =>
      cases aggregates with
      | typeNotSet => rfl
      | numeric => rfl
      | uniqueActives byEventCode =>
        obtain rfl : key = key' := hkey
        refine congrArg uniqueActives (PartialMap.alter_comm fun hcode old => ?_)
        simp only [Option.getD_some]
        refine PartialMap.alter_comm fun hday old => ?_
        subst hcode hday
        exact (h rfl old).symm
  | numeric key component code day =>
    cases cell' with
    | activity key' code' day' => cases aggregates <;> rfl
    | numeric key' component' code' day' =>
      cases aggregates with
      | typeNotSet => rfl
      | uniqueActives => rfl
      | numeric byComponent =>
        obtain rfl : key = key' := hkey
        refine congrArg numeric (PartialMap.alter_comm fun hcomponent old => ?_)
        simp only [Option.getD_some]
        refine PartialMap.alter_comm fun hcode old => ?_
        simp only [Option.getD_some]
        refine PartialMap.alter_comm fun hday old => ?_
        subst hcomponent hcode hday
        exact h rfl old

/-- All reports aggregate in a way that the code knows. -/
def StoreView.Recognized (view : StoreView) : Prop :=
  ∀ key config aggregates, view key = some (config, aggregates) →
    LocalAggregation.Recognized config.report.aggregationType

theorem StoreView.Recognized.replaceCell {view : StoreView} (h : view.Recognized) (cell : Cell)
    (f : AggregationConfig → Option DailyAggregate → DailyAggregate) :
    (view.replaceCell cell f).Recognized := by
  intro key config aggregates hview
  by_cases hkey : key = cell.key
  · subst hkey
    rw [StoreView.replaceCell, PartialMap.adjust_self] at hview
    obtain ⟨⟨config', aggregates'⟩, hview', heq⟩ := Option.map_eq_some_iff.mp hview
    obtain ⟨rfl, -⟩ := Prod.mk.inj heq
    exact h _ _ _ hview'
  · rw [StoreView.replaceCell, PartialMap.adjust_of_ne _ hkey] at hview
    exact h _ _ _ hview

/-- Two calls to one cell leave the same value in either order. -/
private theorem newValue_comm {config : AggregationConfig}
    (h : Recognized config.report.aggregationType) {call call' : EventCall}
    (hcell : call.cell = call'.cell) (old : Option DailyAggregate) :
    call.newValue config (some (call'.newValue config old)) =
      call'.newValue config (some (call.newValue config old)) := by
  cases call with
  | setActive key code day =>
    cases call' with
    | setActive key' code' day' => rfl
    | updateNumericAggregate => exact absurd hcell (by simp [EventCall.cell])
  | updateNumericAggregate key component code day value =>
    cases call' with
    | setActive key' code' day' => exact absurd hcell (by simp [EventCall.cell])
    | updateNumericAggregate key' component' code' day' value' =>
      have hassoc : ∀ a b c, aggregationOp config.report.aggregationType
          (aggregationOp config.report.aggregationType a b) c =
          aggregationOp config.report.aggregationType a
            (aggregationOp config.report.aggregationType b c) := Std.Associative.assoc
      have hcomm : aggregationOp config.report.aggregationType value value' =
          aggregationOp config.report.aggregationType value' value := Std.Commutative.comm _ _
      simp only [EventCall.newValue, updateDayAggregate_eq h, Option.map_some, Option.elim_some,
        DailyAggregate.numericValue, DailyAggregate.numeric.injEq]
      cases old with
      | none => exact hcomm.symm
      | some a => simp only [Option.map_some, Option.elim_some, hassoc, hcomm]

/-- Two calls commute. -/
theorem replaceCell_comm {view : StoreView} (h : view.Recognized) (call call' : EventCall) :
    (view.replaceCell call.cell call.newValue).replaceCell call'.cell call'.newValue =
      (view.replaceCell call'.cell call'.newValue).replaceCell call.cell call.newValue := by
  refine PartialMap.adjust_comm fun hkey report hreport => ?_
  refine congrArg (Prod.mk report.1) ?_
  refine AggregatesView.replaceCell_comm hkey (fun hcell old => ?_) report.2
  exact newValue_comm (h _ report.1 report.2 hreport) hcell old

end Commute

/-! ### Sequences of calls -/

section Events

variable {s : AggregateStore}

theorem version_runEvents (calls : List EventCall) (s : AggregateStore) :
    (runEvents calls s).2.localAggregateStore.version = s.localAggregateStore.version := by
  induction calls generalizing s with
  | nil => rfl
  | cons call calls ih => exact (ih _).trans (version_run s call)

theorem runEvents_of_disabled (h : s.isDisabled = true) (calls : List EventCall) :
    runEvents calls s = (calls.map fun _ => .kOK, s) := by
  induction calls with
  | nil => rfl
  | cons call calls ih => simp only [runEvents, run_of_disabled h, ih, List.map_cons]

/-- The view of a store after a sequence of calls. -/
def StoreView.replaceCells (calls : List EventCall) (view : StoreView) : StoreView :=
  calls.foldl (fun view call => view.replaceCell call.cell call.newValue) view

theorem view_runEvents (henabled : s.isDisabled = false) (calls : List EventCall) :
    (runEvents calls s).2.localAggregateStore.view =
      s.localAggregateStore.view.replaceCells calls := by
  induction calls generalizing s with
  | nil => rfl
  | cons call calls ih =>
    have hrest := ih ((isDisabled_run s call).trans henabled)
    rw [view_run henabled] at hrest
    exact hrest

/-- The order of the calls does not matter. -/
theorem StoreView.replaceCells_perm {calls calls' : List EventCall} (hperm : calls.Perm calls')
    {view : StoreView} (h : view.Recognized) :
    view.replaceCells calls = view.replaceCells calls' := by
  induction hperm generalizing view with
  | nil => rfl
  | cons call _ ih => exact ih (h.replaceCell call.cell call.newValue)
  | swap call call' calls =>
    exact congrArg (replaceCells calls) (LocalAggregation.replaceCell_comm h call' call)
  | trans _ _ ih ih' => exact (ih h).trans (ih' h)

/-- A replacement keeps the status that a call has for a report. -/
private theorem statusFor_replaceCell {view : StoreView} (h : view.Recognized) (call : EventCall)
    (cell : Cell) (f : AggregationConfig → Option DailyAggregate → DailyAggregate) :
    call.statusFor (view.replaceCell cell f call.cell.key) =
      call.statusFor (view call.cell.key) := by
  by_cases hkey : call.cell.key = cell.key
  · rw [StoreView.replaceCell, hkey, PartialMap.adjust_self]
    rcases hreport : view cell.key with _ | ⟨config, aggregates⟩
    · rfl
    · have hok : ∀ old value,
          (updateDayAggregate config.report.aggregationType old value).1 = .kOK := fun old value =>
        congrArg Prod.fst (updateDayAggregate_eq (h _ _ _ hreport) old value)
      cases call <;> cases aggregates <;> cases cell <;>
        simp only [Option.map_some, EventCall.statusFor, AggregatesView.replaceCell, hok]
  · rw [StoreView.replaceCell, PartialMap.adjust_of_ne _ hkey]

/-- Every call has the status that it would have as the first one. -/
theorem statuses_runEvents (henabled : s.isDisabled = false)
    (h : s.localAggregateStore.view.Recognized) (calls : List EventCall) :
    (runEvents calls s).1 =
      calls.map fun call => call.statusFor (s.localAggregateStore.view call.cell.key) := by
  induction calls generalizing s with
  | nil => rfl
  | cons call calls ih =>
    have hview := view_run henabled call
    have hrest := ih ((isDisabled_run s call).trans henabled)
      (hview ▸ h.replaceCell call.cell call.newValue)
    rw [runEvents, List.map_cons, status_run henabled, hrest, hview]
    simp only [statusFor_replaceCell h]

/-! ### The values in the cells -/

/-- The aggregates are of the kind of the cell. -/
def AggregatesView.HasKind : Cell → AggregatesView → Prop
  | .activity _ _ _, .uniqueActives _ => True
  | .numeric _ _ _ _, .numeric _ => True
  | _, _ => False

theorem AggregatesView.hasKind_replaceCell {f : Option DailyAggregate → DailyAggregate}
    {cell cell' : Cell} {aggregates : AggregatesView} (h : aggregates.HasKind cell) :
    (aggregates.replaceCell f cell').HasKind cell := by
  cases aggregates <;> cases cell <;> cases cell' <;> trivial

/-- The value in a cell after a replacement. -/
theorem AggregatesView.cellAt_replaceCell {f : Option DailyAggregate → DailyAggregate}
    {cell cell' : Cell} (hkey : cell.key = cell'.key) {aggregates : AggregatesView}
    (h : aggregates.HasKind cell) :
    (aggregates.replaceCell f cell').cellAt cell =
      if cell = cell' then some (f (aggregates.cellAt cell)) else aggregates.cellAt cell := by
  cases cell with
  | activity key code day =>
    cases aggregates with
    | typeNotSet => exact absurd h id
    | numeric => exact absurd h id
    | uniqueActives byEventCode =>
      cases cell' with
      | numeric => simp [replaceCell]
      | activity key' code' day' =>
        obtain rfl : key = key' := hkey
        simp only [replaceCell, cellAt, PartialMap.alter_apply, Cell.activity.injEq, true_and]
        by_cases hcode : code = code'
        · subst hcode
          simp only [↓reduceIte, Option.bind_some, PartialMap.alter_apply,
            PartialMap.getD_empty_apply, true_and]
          split_ifs with hday
          · rw [hday]
          · rfl
        · simp [hcode]
  | numeric key component code day =>
    cases aggregates with
    | typeNotSet => exact absurd h id
    | uniqueActives => exact absurd h id
    | numeric byComponent =>
      cases cell' with
      | activity => simp [replaceCell]
      | numeric key' component' code' day' =>
        obtain rfl : key = key' := hkey
        simp only [replaceCell, cellAt, PartialMap.alter_apply, Cell.numeric.injEq, true_and]
        by_cases hcomponent : component = component'
        · subst hcomponent
          by_cases hcode : code = code'
          · subst hcode
            simp only [↓reduceIte, Option.bind_some, PartialMap.alter_apply,
              PartialMap.getD_empty_apply, true_and]
            split_ifs with hday
            · rw [hday]
            · rfl
          · simp [hcode, PartialMap.getD_empty_apply]
        · simp [hcomponent]

/-- The value in a cell after a sequence of calls: those that address the cell replace it one after
the other. -/
theorem StoreView.cellAt_replaceCells {view : StoreView} {cell : Cell} {config : AggregationConfig}
    {aggregates : AggregatesView} (hview : view cell.key = some (config, aggregates))
    (hkind : aggregates.HasKind cell) (calls : List EventCall) :
    ∃ aggregates', view.replaceCells calls cell.key = some (config, aggregates') ∧
      aggregates'.cellAt cell = (calls.filter (·.cell = cell)).foldl
        (fun old call => some (call.newValue config old)) (aggregates.cellAt cell) := by
  induction calls generalizing view aggregates with
  | nil => exact ⟨aggregates, hview, rfl⟩
  | cons call calls ih =>
    by_cases hkey : cell.key = call.cell.key
    · have hreport : view.replaceCell call.cell call.newValue cell.key =
          some (config, aggregates.replaceCell (call.newValue config) call.cell) := by
        rw [StoreView.replaceCell, hkey, PartialMap.adjust_self, ← hkey, hview, Option.map_some]
      obtain ⟨aggregates', hview', hvalue⟩ := ih hreport (AggregatesView.hasKind_replaceCell hkind)
      refine ⟨aggregates', hview', ?_⟩
      rw [hvalue, AggregatesView.cellAt_replaceCell hkey hkind, List.filter_cons]
      by_cases hcell : call.cell = cell
      · simp [hcell]
      · simp [hcell, Ne.symm hcell]
    · have hreport : view.replaceCell call.cell call.newValue cell.key =
          some (config, aggregates) := by
        rw [StoreView.replaceCell, PartialMap.adjust_of_ne _ hkey, hview]
      obtain ⟨aggregates', hview', hvalue⟩ := ih hreport hkind
      have hcell : call.cell ≠ cell := fun h => hkey (congrArg Cell.key h.symm)
      refine ⟨aggregates', hview', ?_⟩
      rw [hvalue, List.filter_cons_of_neg (by simpa using hcell)]

/-- The value that a call adds to a numeric cell. -/
def EventCall.valueFor (cell : Cell) : EventCall → Option ℤ
  | .setActive _ _ _ => none
  | .updateNumericAggregate key component eventCode dayIndex value =>
    if Cell.numeric key component eventCode dayIndex = cell then some value else none

private theorem foldl_newValue_numeric {key : ReportAggregationKey} {component : String}
    {eventCode dayIndex : ℕ} (config : AggregationConfig) (calls : List EventCall)
    (old : Option DailyAggregate) :
    (calls.filter (·.cell = .numeric key component eventCode dayIndex)).foldl
        (fun old call => some (call.newValue config old)) old =
      (calls.filterMap (EventCall.valueFor (.numeric key component eventCode dayIndex))).foldl
        (fun old value => some (updateDayAggregate config.report.aggregationType old value).2)
        old := by
  induction calls generalizing old with
  | nil => rfl
  | cons call calls ih =>
    cases call with
    | setActive key' eventCode' dayIndex' =>
      rw [List.filter_cons_of_neg (by simp [EventCall.cell]), List.filterMap_cons_none rfl]
      exact ih old
    | updateNumericAggregate key' component' eventCode' dayIndex' value =>
      rw [List.filter_cons, List.filterMap_cons, EventCall.valueFor]
      by_cases hcell : Cell.numeric key' component' eventCode' dayIndex' =
        .numeric key component eventCode dayIndex
      · rw [if_pos hcell, if_pos (by simpa [EventCall.cell] using hcell), List.foldl_cons, ih]
        rfl
      · rw [if_neg hcell, if_neg (by simpa [EventCall.cell] using hcell), ih]

private theorem foldl_newValue_activity {key : ReportAggregationKey} {eventCode dayIndex : ℕ}
    (config : AggregationConfig) (calls : List EventCall) (old : Option DailyAggregate) :
    (calls.filter (·.cell = .activity key eventCode dayIndex)).foldl
        (fun old call => some (call.newValue config old)) old =
      if ∃ call ∈ calls, call.cell = .activity key eventCode dayIndex then some (.activity true)
      else old := by
  induction calls using List.reverseRecOn with
  | nil => simp
  | append_singleton calls call ih =>
    rw [List.filter_append, List.foldl_append, ih]
    by_cases hcell : call.cell = .activity key eventCode dayIndex
    · have hnew : ∀ old, call.newValue config old = .activity true := by
        cases call with
        | setActive => exact fun old => rfl
        | updateNumericAggregate => exact absurd hcell (by simp [EventCall.cell])
      simp [hcell, hnew]
    · simp [hcell, or_and_right, exists_or]

/-- The numeric aggregate of a report, a component, an event code and a day. -/
def LocalAggregateStore.numericCell (store : LocalAggregateStore) (key : ReportAggregationKey)
    (component : String) (eventCode dayIndex : ℕ) : Option DailyAggregate :=
  (store.byReportKey.lookup key).bind fun aggregates =>
    (PerDeviceNumericAggregates.dailyAggregates aggregates.numericAggregates component
      eventCode).lookup dayIndex

/-- The event code was active on the day. -/
def LocalAggregateStore.isActive (store : LocalAggregateStore) (key : ReportAggregationKey)
    (eventCode dayIndex : ℕ) : Bool :=
  match store.byReportKey.lookup key with
  | none => false
  | some aggregates =>
    ((((aggregates.uniqueActivesAggregates.lookup eventCode).getD ∅).lookup dayIndex).getD
      .typeNotSet).activityIndicator

private theorem numericCell_eq_cellAt {store : LocalAggregateStore} {key : ReportAggregationKey}
    {config : AggregationConfig} {aggregates : AggregatesView}
    (hview : store.view key = some (config, aggregates)) (component : String)
    (eventCode dayIndex : ℕ) :
    store.numericCell key component eventCode dayIndex =
      aggregates.cellAt (.numeric key component eventCode dayIndex) := by
  obtain ⟨a, hlookup, hreport⟩ := LocalAggregateStore.view_eq_some_iff.mp hview
  obtain ⟨rfl, rfl⟩ := Prod.mk.inj hreport
  rw [LocalAggregateStore.numericCell, hlookup, Option.bind_some, ReportAggregates.numericAggregates]
  cases a.type with
  | typeNotSet => rfl
  | uniqueActivesAggregates => rfl
  | numericAggregates a => exact (cellAt_numeric a component eventCode dayIndex).symm

private theorem isActive_eq_cellAt {store : LocalAggregateStore} {key : ReportAggregationKey}
    {config : AggregationConfig} {aggregates : AggregatesView}
    (hview : store.view key = some (config, aggregates)) (eventCode dayIndex : ℕ) :
    store.isActive key eventCode dayIndex =
      ((aggregates.cellAt (.activity key eventCode dayIndex)).getD
        .typeNotSet).activityIndicator := by
  obtain ⟨a, hlookup, hreport⟩ := LocalAggregateStore.view_eq_some_iff.mp hview
  obtain ⟨rfl, rfl⟩ := Prod.mk.inj hreport
  simp only [LocalAggregateStore.isActive, hlookup, ReportAggregates.uniqueActivesAggregates]
  cases a.type with
  | typeNotSet => rfl
  | numericAggregates => rfl
  | uniqueActivesAggregates a =>
    simp only [ReportAggregatesType.view, AggregatesView.cellAt, ProtoMap.view_apply]
    cases a.lookup eventCode <;> simp

/-- Numeric cells. After a sequence of calls a numeric cell has the aggregate of the values
addressed to it and of its first value. -/
theorem numericCell_runEvents (henabled : s.isDisabled = false)
    {key : ReportAggregationKey} {aggregates : ReportAggregates}
    {byComponent : PerDeviceNumericAggregates}
    (hlookup : s.localAggregateStore.byReportKey.lookup key = some aggregates)
    (htype : aggregates.type = .numericAggregates byComponent)
    (hrec : Recognized aggregates.aggregationConfig.report.aggregationType)
    (calls : List EventCall) (component : String) (eventCode dayIndex : ℕ) :
    let values := calls.filterMap (EventCall.valueFor (.numeric key component eventCode dayIndex))
    let old := s.localAggregateStore.numericCell key component eventCode dayIndex
    (runEvents calls s).2.localAggregateStore.numericCell key component eventCode dayIndex =
      if values = [] then old
      else (aggregateOf aggregates.aggregationConfig.report.aggregationType
        (old.toList.map (·.numericValue) ++ values)).map .numeric := by
  have hview : s.localAggregateStore.view key = some aggregates.view :=
    LocalAggregateStore.view_eq_some_iff.mpr ⟨aggregates, hlookup, rfl⟩
  have hkind : aggregates.view.2.HasKind (.numeric key component eventCode dayIndex) := by
    rw [ReportAggregates.view, htype]
    trivial
  obtain ⟨aggregates', hview', hvalue⟩ := StoreView.cellAt_replaceCells hview hkind calls
  rw [← view_runEvents henabled, Cell.key] at hview'
  dsimp only
  rw [numericCell_eq_cellAt hview', hvalue, foldl_newValue_numeric, numericCell_eq_cellAt hview]
  exact foldl_updateDayAggregate hrec _ _

/-- Activity cells. After a sequence of calls a day is active if it was or a call addressed
it. -/
theorem isActive_runEvents (henabled : s.isDisabled = false)
    {key : ReportAggregationKey} {aggregates : ReportAggregates}
    {byEventCode : UniqueActivesReportAggregates}
    (hlookup : s.localAggregateStore.byReportKey.lookup key = some aggregates)
    (htype : aggregates.type = .uniqueActivesAggregates byEventCode)
    (calls : List EventCall) (eventCode dayIndex : ℕ) :
    (runEvents calls s).2.localAggregateStore.isActive key eventCode dayIndex = true ↔
      s.localAggregateStore.isActive key eventCode dayIndex = true ∨
        ∃ call ∈ calls, call.cell = .activity key eventCode dayIndex := by
  have hview : s.localAggregateStore.view key = some aggregates.view :=
    LocalAggregateStore.view_eq_some_iff.mpr ⟨aggregates, hlookup, rfl⟩
  have hkind : aggregates.view.2.HasKind (.activity key eventCode dayIndex) := by
    rw [ReportAggregates.view, htype]
    trivial
  obtain ⟨aggregates', hview', hvalue⟩ := StoreView.cellAt_replaceCells hview hkind calls
  rw [← view_runEvents henabled, Cell.key] at hview'
  rw [isActive_eq_cellAt hview', hvalue, foldl_newValue_activity, isActive_eq_cellAt hview]
  split_ifs with haddressed
  · exact iff_of_true rfl (Or.inr haddressed)
  · exact (or_iff_left haddressed).symm

/-- **The order of events does not matter.** Any two orders of a sequence of calls give every call
the same status and leave the same store, in which every cell has the aggregate of the values
addressed to it and of its first value. On a disabled store nothing happens. -/
theorem runEvents_perm
    (hrec : ∀ key aggregates, s.localAggregateStore.byReportKey.lookup key = some aggregates →
      Recognized aggregates.aggregationConfig.report.aggregationType)
    {calls calls' : List EventCall} (hperm : calls.Perm calls') :
    (∃ status : EventCall → Status, (runEvents calls s).1 = calls.map status ∧
      (runEvents calls' s).1 = calls'.map status) ∧
    SameStore (runEvents calls s).2.localAggregateStore
      (runEvents calls' s).2.localAggregateStore ∧
    (s.isDisabled = true → (runEvents calls s).2 = s) ∧
    (s.isDisabled = false →
      (∀ key aggregates byComponent,
        s.localAggregateStore.byReportKey.lookup key = some aggregates →
        aggregates.type = .numericAggregates byComponent → ∀ component eventCode dayIndex,
        let values :=
          calls.filterMap (EventCall.valueFor (.numeric key component eventCode dayIndex))
        let old := s.localAggregateStore.numericCell key component eventCode dayIndex
        (runEvents calls s).2.localAggregateStore.numericCell key component eventCode dayIndex =
          if values = [] then old
          else (aggregateOf aggregates.aggregationConfig.report.aggregationType
            (old.toList.map (·.numericValue) ++ values)).map .numeric) ∧
      (∀ key aggregates byEventCode,
        s.localAggregateStore.byReportKey.lookup key = some aggregates →
        aggregates.type = .uniqueActivesAggregates byEventCode → ∀ eventCode dayIndex,
        (runEvents calls s).2.localAggregateStore.isActive key eventCode dayIndex = true ↔
          s.localAggregateStore.isActive key eventCode dayIndex = true ∨
            ∃ call ∈ calls, call.cell = .activity key eventCode dayIndex)) := by
  have hview : s.localAggregateStore.view.Recognized := by
    intro key config aggregates h
    obtain ⟨a, hlookup, hreport⟩ := LocalAggregateStore.view_eq_some_iff.mp h
    obtain ⟨rfl, -⟩ := Prod.mk.inj hreport
    exact hrec key a hlookup
  cases hdisabled : s.isDisabled with
  | true =>
    rw [runEvents_of_disabled hdisabled, runEvents_of_disabled hdisabled]
    exact ⟨⟨fun _ => .kOK, rfl, rfl⟩, ⟨rfl, SameReports.refl _⟩, fun _ => rfl,
      fun h => absurd h (by simp)⟩
  | false =>
    refine ⟨⟨_, statuses_runEvents hdisabled hview calls, statuses_runEvents hdisabled hview calls'⟩,
      ⟨?_, ?_⟩, fun h => absurd h (by simp), fun _ => ⟨?_, ?_⟩⟩
    · rw [version_runEvents, version_runEvents]
    · rw [sameReports_iff, view_runEvents hdisabled, view_runEvents hdisabled]
      exact StoreView.replaceCells_perm hperm hview
    · intro key aggregates byComponent hlookup htype
      exact numericCell_runEvents hdisabled hlookup htype (hrec key aggregates hlookup) calls
    · intro key aggregates byEventCode hlookup htype
      exact isActive_runEvents hdisabled hlookup htype calls

theorem recognized_oneCellStore {aggregationType : OnDeviceAggregationType}
    (h : Recognized aggregationType) (cell : DailyAggregate) (key : ReportAggregationKey)
    (aggregates : ReportAggregates)
    (hlookup : (oneCellStore aggregationType cell).localAggregateStore.byReportKey.lookup key =
      some aggregates) : Recognized aggregates.aggregationConfig.report.aggregationType := by
  have hmem : ProtoMap.entry key aggregates ∈
      (oneCellStore aggregationType cell).localAggregateStore.byReportKey.entries :=
    ProtoMap.mem_entries_iff.mpr hlookup
  obtain ⟨-, rfl⟩ := Sigma.mk.inj (List.mem_singleton.mp hmem)
  exact h

/-- Updates of the one cell of a store. -/
def cellUpdates (values : List ℤ) : List EventCall :=
  values.map (.updateNumericAggregate ⟨1, 2, 3, 4⟩ "c" 5 400)

/-- Two updates of a maximum, in either order. -/
theorem runEvents_perm_cellUpdates :
    SameStore
      (runEvents (cellUpdates [-3, -7]) (oneCellStore .MAX (.numeric (-5)))).2.localAggregateStore
      (runEvents (cellUpdates [-7, -3]) (oneCellStore .MAX (.numeric (-5)))).2.localAggregateStore ∧
    (runEvents (cellUpdates [-3, -7])
      (oneCellStore .MAX (.numeric (-5)))).2.localAggregateStore.numericCell ⟨1, 2, 3, 4⟩ "c" 5
        400 = some (.numeric (-3)) := by
  have hrec := @recognized_oneCellStore .MAX trivial (.numeric (-5))
  have h := runEvents_perm hrec (List.Perm.swap _ _ [] : (cellUpdates [-3, -7]).Perm _)
  exact ⟨h.2.1, ((h.2.2.2 rfl).1 _ _ _ rfl rfl "c" 5 400).trans (by decide)⟩

end Events

end Cobalt.LocalAggregation
