import Cobalt.LocalAggregation.EventCalls

/-!
# The values of the observations for a window

An observation for a window of `n` days that ends on the day `d` is about the days `d - n + 1` to
`d`. Here is what it says about them: the aggregate of the stored values, or whether one of the days
was active. The numeric values are found by a scan that the windows of a day share; the activity by
a search that the days of a window share.

The scan starts a maximum from zero. So the observation of a maximum is right if and only if one of
the values is not negative, or there is none.

## Main definitions

* `storedValues`, `loggedValues`: the values of a window, as they are stored by day and as they were
  logged.
* `EmitsAggregate`: the observation for a window has the aggregate of the values.
* `FlagRight`: the flag of an observation says whether a day of its window was active.

## Main results

* `scanDays_eq`: the result of a scan.
* `emittedValue_eq_iff`: when a scan gives the aggregate of the values.
* `aggregateOf_storedValues`: the stored values have the aggregate of the logged ones.
* `mem_written_iff`: what a call writes for a window.
-/

namespace Cobalt.LocalAggregation

/-! ### The values of a window -/

/-- The values stored for the days of the window. -/
def storedValues (dailyAggregates : DailyAggregates) (obsDayIndex days : ℕ) : List ℤ :=
  (List.range' (obsDayIndex + 1 - days) days).filterMap fun day =>
    (dailyAggregates.lookup day).map (·.numericValue)

/-- A maximum is not one of negative values only. -/
def MaxNotNegative (aggregationType : OnDeviceAggregationType) (values : List ℤ) : Prop :=
  aggregationType = .MAX → values = [] ∨ ∃ v ∈ values, 0 ≤ v

/-! ### The result of a scan -/

section Scan

variable {aggregationType : OnDeviceAggregationType} {dailyAggregates : DailyAggregates}
  {obsDayIndex : ℕ}

/-- The value that a scan finds at the day `k` days before the observation day. -/
def scannedValue (dailyAggregates : DailyAggregates) (obsDayIndex k : ℕ) : Option ℤ :=
  (dailyAggregates.lookup (U32.sub obsDayIndex k)).map (·.numericValue)

/-- The aggregate that a scan computes from the values it finds. -/
def scanAggregate (aggregationType : OnDeviceAggregationType) (values : List ℤ) : ℤ :=
  match aggregationType with
  | .SUM => values.sum
  | .MAX => values.foldl max 0
  | .MIN => values.min?.getD 0
  | .unrecognized _ => 0

/-- A scan that has found the values of a list. -/
def scanOf (aggregationType : OnDeviceAggregationType) (values : List ℤ) (n : ℕ) : Scan :=
  ⟨decide (values ≠ []), scanAggregate aggregationType values, n⟩

/-- One more day. -/
private theorem scanDay_scanOf (h : Recognized aggregationType) (values : List ℤ) (n : ℕ) :
    scanDay aggregationType dailyAggregates obsDayIndex (scanOf aggregationType values n) =
      .ok (scanOf aggregationType
        (values ++ (scannedValue dailyAggregates obsDayIndex n).toList) (n + 1)) := by
  have hvalue : (dailyAggregates.lookup (U32.sub obsDayIndex n)).map (·.numericValue) =
      scannedValue dailyAggregates obsDayIndex n := rfl
  simp only [scanDay, scanOf, hvalue]
  cases scannedValue dailyAggregates obsDayIndex n with
  | none =>
    rw [Option.toList_none, List.append_nil]
    cases aggregationType with
    | unrecognized => exact absurd h id
    | SUM => rfl
    | MAX => rfl
    | MIN => rfl
  | some v =>
    have hfound : decide (values ++ [v] ≠ []) = true := by simp
    rw [Option.toList_some, hfound]
    cases aggregationType with
    | unrecognized => exact absurd h id
    | SUM => simp [Scan.next, scanAggregate]
    | MAX => simp [Scan.next, scanAggregate]
    | MIN =>
      have hmin : (values ++ [v]).min? = some (values.min?.elim v (min · v)) :=
        Fold1.fold1_concat values v
      simp only [scanAggregate, hmin]
      cases values <;> rfl

/-- The result of a scan. It has found a value if there is one, and has aggregated the values in
the order of the scan, a maximum from zero. -/
theorem scanDays_eq (h : Recognized aggregationType) (n : ℕ) :
    scanDays aggregationType dailyAggregates obsDayIndex n {} = .ok (scanOf aggregationType
      ((List.range n).filterMap (scannedValue dailyAggregates obsDayIndex)) n) := by
  induction n with
  | zero => cases aggregationType <;> rfl
  | succ n ih =>
    have hlast : [n].filterMap (scannedValue dailyAggregates obsDayIndex) =
        (scannedValue dailyAggregates obsDayIndex n).toList := by
      cases hv : scannedValue dailyAggregates obsDayIndex n <;> simp [hv]
    rw [scanDays_add, ih, List.range_succ, List.filterMap_append, hlast]
    change scanDays _ _ _ 1 _ = _
    rw [scanDays, scanDay_scanOf h]
    rfl

/-- The scan of a window within the admitted range finds the values of the window, the last one
first. -/
theorem scannedValues_eq_reverse (hobs : obsDayIndex < U32.max) {n : ℕ} (hn : n ≤ obsDayIndex) :
    (List.range n).filterMap (scannedValue dailyAggregates obsDayIndex) =
      (storedValues dailyAggregates obsDayIndex n).reverse := by
  induction n with
  | zero => rfl
  | succ n ih =>
    have hsub : U32.sub obsDayIndex n = obsDayIndex - n :=
      U32.sub_of_le (hobs.trans_le (Nat.sub_le _ _)) (by omega)
    have hrange : List.range' (obsDayIndex + 1 - (n + 1)) (n + 1) =
        (obsDayIndex - n) :: List.range' (obsDayIndex + 1 - n) n := by
      have hfirst : obsDayIndex + 1 - (n + 1) = obsDayIndex - n := by omega
      have hnext : obsDayIndex - n + 1 = obsDayIndex + 1 - n := by omega
      rw [List.range'_succ, hfirst, hnext]
    rw [List.range_succ, List.filterMap_append, ih (by omega)]
    simp only [storedValues]
    rw [hrange, List.filterMap_cons]
    have hvalue : scannedValue dailyAggregates obsDayIndex n =
        (dailyAggregates.lookup (obsDayIndex - n)).map (·.numericValue) := by
      rw [scannedValue, hsub]
    cases hv : (dailyAggregates.lookup (obsDayIndex - n)).map (·.numericValue) with
    | none => simp [hvalue, hv]
    | some v => simp [hvalue, hv]

/-- The value of the observation, if there is one. -/
def emittedValue (aggregationType : OnDeviceAggregationType) (dailyAggregates : DailyAggregates)
    (obsDayIndex days : ℕ) : Option ℤ :=
  match scanDays aggregationType dailyAggregates obsDayIndex days {} with
  | .ok scan => if scan.found then some scan.aggregate else none
  | .error _ => none

theorem aggregateOf_perm (h : Recognized aggregationType) {values values' : List ℤ}
    (hperm : values.Perm values') :
    aggregateOf aggregationType values = aggregateOf aggregationType values' := by
  rw [aggregateOf_eq_fold1 h, aggregateOf_eq_fold1 h, Fold1.fold1_perm hperm]

/-- There is a value that is not negative if and only if the maximum is not. -/
private theorem le_max_iff {values : List ℤ} {m : ℤ} (h : values.max? = some m) :
    0 ≤ m ↔ ∃ v ∈ values, 0 ≤ v := by
  obtain ⟨hmem, hmax⟩ := List.max?_eq_some_iff.mp h
  constructor
  · exact fun hm => ⟨m, hmem, hm⟩
  · rintro ⟨v, hv, hle⟩
    exact hle.trans (hmax v hv)

/-- The condition depends on the aggregate alone. -/
theorem maxNotNegative_iff {values : List ℤ} :
    MaxNotNegative aggregationType values ↔
      (aggregationType = .MAX → ∀ v, aggregateOf aggregationType values = some v → 0 ≤ v) := by
  refine imp_congr_right fun htype => ?_
  subst htype
  cases hmax : values.max? with
  | none => simp [aggregateOf, List.max?_eq_none_iff.mp hmax]
  | some m =>
    have hne : values ≠ [] := by
      rintro rfl
      exact absurd hmax (by simp)
    simp only [hne, false_or, aggregateOf, hmax, Option.some.injEq, forall_eq', le_max_iff hmax]

/-- What a scan makes of a list of values is their aggregate, except for a maximum of negative
values only. -/
private theorem scanOf_eq_iff (h : Recognized aggregationType) (values : List ℤ) (n : ℕ) :
    (if (scanOf aggregationType values n).found then
        some (scanOf aggregationType values n).aggregate else none) =
      aggregateOf aggregationType values ↔ MaxNotNegative aggregationType values := by
  rw [maxNotNegative_iff]
  cases values with
  | nil => cases aggregationType <;> simp [scanOf, aggregateOf]
  | cons v values =>
    cases aggregationType with
    | unrecognized => exact absurd h id
    | SUM => simp [scanOf, aggregateOf, scanAggregate]
    | MIN => simp [scanOf, aggregateOf, scanAggregate]
    | MAX =>
      have hmax : (v :: values).max? = some (values.foldl max v) := rfl
      have hscan : (v :: values).foldl max 0 = max 0 (values.foldl max v) := by
        rw [List.foldl_cons, List.foldl_assoc]
      simp only [scanOf, aggregateOf, scanAggregate, hmax, hscan, ne_eq, reduceCtorEq,
        not_false_eq_true, decide_true, ↓reduceIte, Option.some.injEq, forall_eq', true_imp_iff,
        max_eq_right_iff]

/-- There is no observation without values. -/
theorem emittedValue_eq_none_iff (h : Recognized aggregationType) (hobs : obsDayIndex < U32.max)
    {n : ℕ} (hn : n ≤ obsDayIndex) :
    emittedValue aggregationType dailyAggregates obsDayIndex n = none ↔
      storedValues dailyAggregates obsDayIndex n = [] := by
  rw [emittedValue, scanDays_eq h, scannedValues_eq_reverse hobs hn]
  simp [scanOf]

/-- When a scan is right. The scan of a window gives the aggregate of its values, except for a
maximum of negative values only. -/
theorem emittedValue_eq_iff (h : Recognized aggregationType) (hobs : obsDayIndex < U32.max)
    {n : ℕ} (hn : n ≤ obsDayIndex) :
    emittedValue aggregationType dailyAggregates obsDayIndex n =
        aggregateOf aggregationType (storedValues dailyAggregates obsDayIndex n) ↔
      MaxNotNegative aggregationType (storedValues dailyAggregates obsDayIndex n) := by
  have hperm := (storedValues dailyAggregates obsDayIndex n).reverse_perm
  rw [emittedValue, scanDays_eq h, scannedValues_eq_reverse hobs hn, maxNotNegative_iff,
    ← aggregateOf_perm h hperm, ← maxNotNegative_iff]
  exact scanOf_eq_iff h _ n

end Scan

/-! ### Logged values -/

section Logged

variable {key : ReportAggregationKey} {component : String} {eventCode : ℕ}

/-- The value that a call logs for a day of the window. -/
def loggedValue (key : ReportAggregationKey) (component : String) (eventCode obsDayIndex days : ℕ) :
    EventCall → Option ℤ
  | .setActive _ _ _ => none
  | .updateNumericAggregate key' component' eventCode' dayIndex value =>
    if key' = key ∧ component' = component ∧ eventCode' = eventCode ∧
      obsDayIndex - days < dayIndex ∧ dayIndex ≤ obsDayIndex then some value else none

/-- The values logged for the days of the window. -/
def loggedValues (calls : List EventCall) (key : ReportAggregationKey) (component : String)
    (eventCode obsDayIndex days : ℕ) : List ℤ :=
  calls.filterMap (loggedValue key component eventCode obsDayIndex days)

/-- A call logs its value for one day. -/
private theorem flatMap_valueFor {obsDayIndex days : ℕ} (hdays : days ≤ obsDayIndex)
    (call : EventCall) :
    (List.range' (obsDayIndex + 1 - days) days).flatMap (fun day =>
        (call.valueFor (.numeric key component eventCode day)).toList) =
      (loggedValue key component eventCode obsDayIndex days call).toList := by
  have hone : ∀ (l : List ℕ) (dayIndex : ℕ) (value : ℤ), l.Nodup →
      l.flatMap (fun day => if dayIndex = day then [value] else []) =
        if dayIndex ∈ l then [value] else [] := by
    intro l dayIndex value hnodup
    induction l with
    | nil => rfl
    | cons day l ih =>
      obtain ⟨hday, hnodup⟩ := List.nodup_cons.mp hnodup
      rw [List.flatMap_cons, ih hnodup]
      by_cases hd : dayIndex = day
      · subst hd
        simp [hday]
      · simp [hd]
  cases call with
  | setActive => exact List.flatMap_eq_nil_iff.mpr fun day _ => rfl
  | updateNumericAggregate key' component' eventCode' dayIndex value =>
    by_cases hcell : key' = key ∧ component' = component ∧ eventCode' = eventCode
    · obtain ⟨rfl, rfl, rfl⟩ := hcell
      have hmem : dayIndex ∈ List.range' (obsDayIndex + 1 - days) days ↔
          obsDayIndex - days < dayIndex ∧ dayIndex ≤ obsDayIndex := by
        rw [List.mem_range'_1]
        omega
      simp only [EventCall.valueFor, loggedValue, Cell.numeric.injEq, true_and,
        apply_ite Option.toList, Option.toList_some, Option.toList_none,
        hone _ _ _ List.nodup_range', hmem]
    · have hnone : loggedValue key component eventCode obsDayIndex days
          (.updateNumericAggregate key' component' eventCode' dayIndex value) = none := by
        rw [loggedValue, if_neg fun h => hcell ⟨h.1, h.2.1, h.2.2.1⟩]
      rw [hnone]
      refine List.flatMap_eq_nil_iff.mpr fun day _ => ?_
      have hday : ¬ Cell.numeric key' component' eventCode' dayIndex =
          .numeric key component eventCode day := by
        intro h
        obtain ⟨hkey, hcomponent, hcode, -⟩ := Cell.numeric.inj h
        exact hcell ⟨hkey, hcomponent, hcode⟩
      rw [EventCall.valueFor, if_neg hday]
      rfl

/-- The values of a window, day by day. -/
private theorem flatMap_valueFor_perm (calls : List EventCall) {obsDayIndex days : ℕ}
    (hdays : days ≤ obsDayIndex) :
    ((List.range' (obsDayIndex + 1 - days) days).flatMap fun day =>
      calls.filterMap (EventCall.valueFor (.numeric key component eventCode day))).Perm
    (loggedValues calls key component eventCode obsDayIndex days) := by
  have hcons : ∀ {f : EventCall → Option ℤ} (call : EventCall) (calls : List EventCall),
      (call :: calls).filterMap f = (f call).toList ++ calls.filterMap f := by
    intro f call calls
    rw [List.filterMap_cons]
    cases f call <;> rfl
  induction calls with
  | nil => simp [loggedValues]
  | cons call calls ih =>
    simp only [hcons, loggedValues]
    refine (List.flatMap_append_perm _ _ _).symm.trans ?_
    rw [flatMap_valueFor hdays]
    exact ih.append_left _

/-- Stored and logged values. Daily aggregates that were empty at first have, over a window, the
aggregate of the values that were logged in it since then. -/
theorem aggregateOf_storedValues {s : AggregateStore} (henabled : s.isDisabled = false)
    {aggregates : ReportAggregates}
    (hlookup : s.localAggregateStore.byReportKey.lookup key = some aggregates)
    (htype : aggregates.type = .numericAggregates ∅)
    (hrec : Recognized aggregates.aggregationConfig.report.aggregationType)
    (calls : List EventCall) {aggregates' : ReportAggregates}
    (hlookup' : (runEvents calls s).2.localAggregateStore.byReportKey.lookup key =
      some aggregates') {obsDayIndex days : ℕ} (hdays : days ≤ obsDayIndex) :
    aggregateOf aggregates.aggregationConfig.report.aggregationType
        (storedValues (PerDeviceNumericAggregates.dailyAggregates aggregates'.numericAggregates
          component eventCode) obsDayIndex days) =
      aggregateOf aggregates.aggregationConfig.report.aggregationType
        (loggedValues calls key component eventCode obsDayIndex days) := by
  have hempty : ∀ day, s.localAggregateStore.numericCell key component eventCode day = none := by
    intro day
    rw [LocalAggregateStore.numericCell, hlookup, Option.bind_some,
      ReportAggregates.numericAggregates, htype]
    rfl
  have hvalue : ∀ day, ((PerDeviceNumericAggregates.dailyAggregates aggregates'.numericAggregates
      component eventCode).lookup day).map (·.numericValue) =
      aggregateOf aggregates.aggregationConfig.report.aggregationType
        (calls.filterMap (EventCall.valueFor (.numeric key component eventCode day))) := by
    intro day
    have hcell := numericCell_runEvents henabled hlookup htype hrec calls component eventCode day
    have hafter : (runEvents calls s).2.localAggregateStore.numericCell key component eventCode
        day = (PerDeviceNumericAggregates.dailyAggregates aggregates'.numericAggregates component
          eventCode).lookup day := by
      rw [LocalAggregateStore.numericCell, hlookup', Option.bind_some]
    dsimp only at hcell
    rw [hafter, hempty] at hcell
    rw [hcell]
    split_ifs with hnil
    · rw [hnil, aggregateOf_eq_fold1 hrec]
      rfl
    · rw [Option.toList_none, List.map_nil, List.nil_append, Option.map_map]
      cases aggregateOf aggregates.aggregationConfig.report.aggregationType
        (calls.filterMap (EventCall.valueFor (.numeric key component eventCode day))) <;> rfl
  rw [← aggregateOf_perm hrec (flatMap_valueFor_perm calls hdays), storedValues]
  simp only [hvalue, aggregateOf_eq_fold1 hrec]
  rw [List.flatMap_def, Fold1.fold1_flatten, List.filterMap_map]
  rfl

end Logged

/-! ### What a call writes -/

/-- Observations that satisfy a predicate were written between two states. -/
def Appends (P : Written → Prop) (s t : GenState) : Prop :=
  ∃ new, t.written = s.written ++ new ∧ ∀ w ∈ new, P w

namespace Appends

variable {P : Written → Prop} {s t u : GenState}

theorem refl (s : GenState) : Appends P s s :=
  ⟨[], (List.append_nil _).symm, fun _ h => absurd h List.not_mem_nil⟩

theorem trans (h : Appends P s t) (h' : Appends P t u) : Appends P s u := by
  obtain ⟨new, ht, hnew⟩ := h
  obtain ⟨new', hu, hnew'⟩ := h'
  refine ⟨new ++ new', by rw [hu, ht, List.append_assoc], fun w hw => ?_⟩
  exact (List.mem_append.mp hw).elim (hnew w) (hnew' w)

theorem runAll {α : Type} {f : α → GenState → Status × GenState} {l : List α}
    (h : ∀ a ∈ l, ∀ s, Appends P s (f a s).2) (s : GenState) :
    Appends P s (Loop.runAll .kOK f l s).2 :=
  Loop.runAll_rel refl (fun _ _ _ => trans) h s

theorem generateSingle {backend : Backend} {w : Written} (h : P w) (s : GenState) :
    Appends P s (LocalAggregation.generateSingle backend w s).2 := by
  rcases generateSingle_cases backend w s with ⟨_, heq⟩ | heq
  · rw [heq]
    exact ⟨[], (List.append_nil _).symm, fun _ h => absurd h List.not_mem_nil⟩
  · rw [heq]
    exact ⟨[w], rfl, fun w' hw' => List.mem_singleton.mp hw' ▸ h⟩

theorem runItem {backend : Backend} {item : Item} (h : ∀ w ∈ item.output, P w) (s : GenState) :
    Appends P s (LocalAggregation.runItem backend item s).2 := by
  rcases runItem_cases backend item s with ⟨_, hwritten, _⟩ | ⟨_, _, _, _, _, _, hwritten⟩
  · exact ⟨[], hwritten.trans (List.append_nil _).symm, fun _ h => absurd h List.not_mem_nil⟩
  · exact ⟨item.output, hwritten, h⟩

end Appends

/-- Items that were all worked off have written their outputs. -/
theorem written_runAll_items {backend : Backend} {items : List Item} {s : GenState}
    (hok : (Loop.runAll .kOK (runItem backend) items s).1 = .kOK) :
    (Loop.runAll .kOK (runItem backend) items s).2.written =
      s.written ++ items.flatMap Item.output := by
  induction items generalizing s with
  | nil => exact (List.append_nil _).symm
  | cons item items ih =>
    by_cases hitem : (runItem backend item s).1 = .kOK
    · rw [Loop.runAll_cons_of_ok hitem] at hok ⊢
      rw [ih hok, List.flatMap_cons, ← List.append_assoc]
      rcases runItem_cases backend item s with ⟨_, hwritten, hfail⟩ | ⟨_, _, _, _, _, _, hwritten⟩
      · have houtput : item.output = [] := by rw [hfail hitem]; rfl
        rw [hwritten, houtput, List.append_nil]
      · rw [hwritten]
    · rw [Loop.runAll_cons_of_ne hitem] at hok
      exact absurd hok hitem

section Emission

variable {backend : Backend} {reportKey : ReportAggregationKey} {aggregates : ReportAggregates}

theorem mem_componentCodes {byComponent : PerDeviceNumericAggregates} {component : String}
    {eventCode : ℕ} {dailyAggregates : DailyAggregates} :
    (component, ProtoMap.entry eventCode dailyAggregates) ∈ componentCodes byComponent ↔
      ∃ byEventCode, byComponent.lookup component = some byEventCode ∧
        byEventCode.lookup eventCode = some dailyAggregates := by
  simp only [componentCodes, List.mem_flatMap, List.mem_map, Prod.mk.injEq]
  constructor
  · rintro ⟨⟨component', byEventCode⟩, hcomponent, e, hcode, rfl, rfl⟩
    exact ⟨byEventCode, ProtoMap.mem_entries_iff.mp hcomponent, ProtoMap.mem_entries_iff.mp hcode⟩
  · rintro ⟨byEventCode, hcomponent, hcode⟩
    exact ⟨⟨component, byEventCode⟩, ProtoMap.mem_entries_iff.mpr hcomponent,
      ⟨eventCode, dailyAggregates⟩, ProtoMap.mem_entries_iff.mpr hcode, rfl, rfl⟩

/-- The daily aggregates of an event code that is worked off are the stored ones. -/
theorem dailyAggregates_of_mem_componentCodes {byComponent : PerDeviceNumericAggregates}
    {component : String} {eventCode : ℕ} {dailyAggregates : DailyAggregates}
    (h : (component, ProtoMap.entry eventCode dailyAggregates) ∈ componentCodes byComponent) :
    byComponent.dailyAggregates component eventCode = dailyAggregates := by
  obtain ⟨byEventCode, hcomponent, hcode⟩ := mem_componentCodes.mp h
  rw [PerDeviceNumericAggregates.dailyAggregates, hcomponent, Option.getD_some, hcode,
    Option.getD_some]

/-- No event code is worked off twice. -/
theorem nodup_componentCodes (byComponent : PerDeviceNumericAggregates) :
    ((componentCodes byComponent).map fun x => (x.1, x.2.1)).Nodup := by
  rw [componentCodes, List.map_flatMap, List.nodup_flatMap]
  constructor
  · intro c _
    rw [List.map_map]
    have hkeys : (c.2.entries.map Sigma.fst).Nodup := c.2.nodupKeys
    refine List.Nodup.of_map Prod.snd ?_
    rw [List.map_map]
    exact hkeys
  · refine (List.nodupKeys_iff_pairwise.mp byComponent.nodupKeys).imp ?_
    intro a b hne e ha hb
    simp only [List.map_map, List.mem_map, Function.comp_apply] at ha hb
    obtain ⟨_, _, rfl⟩ := ha
    obtain ⟨_, _, heq⟩ := hb
    exact hne (Prod.mk.inj heq).1.symm

/-- The item of a window writes about its own source and day. -/
private theorem mem_output_numericItem {component : String} {eventCode : ℕ}
    {dailyAggregates : DailyAggregates} {d : ℕ} {window : OnDeviceAggregationWindow} {w : Written} :
    w ∈ (numericItem reportKey aggregates component eventCode dailyAggregates d window).output ↔
      w.source = .numeric reportKey component eventCode (numDays window) ∧ w.dayIndex = d ∧
      ∃ v, emittedValue aggregates.aggregationConfig.report.aggregationType dailyAggregates d
          (numDays window) = some v ∧
        numericObservation reportKey aggregates component eventCode d window v =
          some w.observation := by
  rw [numericItem, emittedValue]
  cases scanDays aggregates.aggregationConfig.report.aggregationType dailyAggregates d
      (numDays window) {} with
  | error status => simp [Item.output]
  | ok scan =>
    dsimp only
    cases scan.found with
    | false => simp [Item.output]
    | true =>
      simp only [↓reduceIte, Option.some.injEq, exists_eq_left']
      cases numericObservation reportKey aggregates component eventCode d window
          scan.aggregate with
      | none => simp [Item.output]
      | some o =>
        simp only [Item.output, List.mem_singleton, Option.some.injEq]
        constructor
        · rintro rfl
          exact ⟨rfl, rfl, rfl⟩
        · rintro ⟨hsource, hday, ho⟩
          cases w
          simp_all

private theorem mem_output_numericItems {component : String} {eventCode : ℕ}
    {dailyAggregates : DailyAggregates} {start finalDayIndex : ℕ} {lastGen : ℕ → ℕ} {w : Written} :
    w ∈ (numericItems reportKey aggregates component eventCode dailyAggregates start finalDayIndex
        lastGen).flatMap Item.output ↔
      ∃ d window, (start ≤ d ∧ d ≤ finalDayIndex) ∧
        window ∈ aggregates.aggregationConfig.aggregationWindow ∧
        windowDue lastGen start finalDayIndex d window = true ∧
        w ∈ (numericItem reportKey aggregates component eventCode dailyAggregates d
          window).output := by
  simp only [numericItems, List.mem_flatMap, List.mem_map, List.mem_filter, List.mem_range'_1]
  constructor
  · rintro ⟨item, ⟨d, hd, window, ⟨hwindow, hdue⟩, rfl⟩, hw⟩
    exact ⟨d, window, by omega, hwindow, hdue, hw⟩
  · rintro ⟨d, window, hd, hwindow, hdue, hw⟩
    exact ⟨_, ⟨d, by omega, window, ⟨hwindow, hdue⟩, rfl⟩, hw⟩

/-- What an event code writes for a window that is due. -/
private theorem mem_output_of_due {component : String} {eventCode : ℕ}
    {dailyAggregates : DailyAggregates} {start finalDayIndex : ℕ} {lastGen : ℕ → ℕ} {n d : ℕ}
    (hn : n ∈ dayWindowSizes aggregates.aggregationConfig.aggregationWindow)
    (hfirst : firstDayIndex (lastGen n) start ≤ d) (hd : d ≤ finalDayIndex) (o : Observation) :
    ⟨.numeric reportKey component eventCode n, d, o⟩ ∈ (numericItems reportKey aggregates component
        eventCode dailyAggregates start finalDayIndex lastGen).flatMap Item.output ↔
      ∃ v, emittedValue aggregates.aggregationConfig.report.aggregationType dailyAggregates d n =
          some v ∧
        numericObservation reportKey aggregates component eventCode d (.days n) v = some o := by
  rw [mem_output_numericItems]
  constructor
  · rintro ⟨d', window, _, _, hdue, hw⟩
    obtain ⟨hsource, rfl, v, hv, ho⟩ := mem_output_numericItem.mp hw
    cases window with
    | unitsNotSet => exact absurd hdue (by simp [windowDue])
    | hours m => exact absurd hdue (by simp [windowDue])
    | days m =>
      obtain rfl : n = m := (ObservationSource.numeric.inj hsource).2.2.2
      exact ⟨v, hv, ho⟩
  · rintro ⟨v, hv, ho⟩
    refine ⟨d, .days n, ⟨(le_firstDayIndex _ _).trans hfirst, hd⟩, mem_dayWindowSizes.mp hn, ?_,
      mem_output_numericItem.mpr ⟨rfl, rfl, v, hv, ho⟩⟩
    simp only [windowDue, decide_eq_true_eq]
    exact ⟨hfirst, hd⟩

/-- The observation for a window has the aggregate of the values, and there is none without
values. -/
def EmitsAggregate (reportKey : ReportAggregationKey) (aggregates : ReportAggregates)
    (component : String) (eventCode d n : ℕ) (values : List ℤ) (new : List Written) : Prop :=
  ∀ o, ⟨.numeric reportKey component eventCode n, d, o⟩ ∈ new ↔
    ∃ v, aggregateOf aggregates.aggregationConfig.report.aggregationType values = some v ∧
      numericObservation reportKey aggregates component eventCode d (.days n) v = some o

variable (hsorted : (dayWindowSizes aggregates.aggregationConfig.aggregationWindow).Pairwise (· ≤ ·))
include hsorted

/-- Another event code writes about other sources. -/
private theorem appends_generateNumericEventCode {component component' : String}
    {eventCode eventCode' : ℕ} (hne : (component', eventCode') ≠ (component, eventCode)) (n : ℕ)
    (start finalDayIndex : ℕ) (dailyAggregates : DailyAggregates) (s : GenState) :
    Appends (fun w => w.source ≠ .numeric reportKey component eventCode n) s
      (generateNumericEventCode backend reportKey aggregates start finalDayIndex component'
        eventCode' dailyAggregates s).2 := by
  rw [generateNumericEventCode_eq hsorted]
  refine Appends.runAll (fun item hitem s => Appends.runItem (fun w hw hsource => ?_) s) s
  have hmem := List.mem_flatMap.mpr ⟨item, hitem, hw⟩
  obtain ⟨d, window, _, _, _, hw⟩ := mem_output_numericItems.mp hmem
  obtain ⟨hsource', -⟩ := mem_output_numericItem.mp hw
  obtain ⟨-, hcomponent, hcode, -⟩ := ObservationSource.numeric.inj (hsource.symm.trans hsource')
  exact hne (Prod.ext hcomponent.symm hcode.symm)

omit hsorted in
private theorem appends_generateParticipation {component : String} {eventCode : ℕ} (n : ℕ)
    (start finalDayIndex : ℕ) (s : GenState) :
    Appends (fun w => w.source ≠ .numeric reportKey component eventCode n) s
      (generateParticipation backend reportKey aggregates start finalDayIndex s).2 := by
  refine Appends.runAll (fun d _ s => ?_) s
  have hsource : (reportParticipationWritten reportKey aggregates.aggregationConfig d).source ≠
      .numeric reportKey component eventCode n := by
    simp [reportParticipationWritten]
  exact Appends.generateSingle hsource s

omit hsorted in
/-- A window that is due has an observation to write when a value was found, unless its item
fails. -/
private theorem exists_numericObservation {component : String} {eventCode : ℕ}
    {dailyAggregates : DailyAggregates} {start finalDayIndex : ℕ} {lastGen : ℕ → ℕ} {n d : ℕ}
    {s : GenState} (hok : (Loop.runAll .kOK (runItem backend) (numericItems reportKey aggregates
      component eventCode dailyAggregates start finalDayIndex lastGen) s).1 = .kOK)
    (hn : n ∈ dayWindowSizes aggregates.aggregationConfig.aggregationWindow)
    (hfirst : firstDayIndex (lastGen n) start ≤ d) (hd : d ≤ finalDayIndex) {v : ℤ}
    (hv : emittedValue aggregates.aggregationConfig.report.aggregationType dailyAggregates d n =
      some v) :
    ∃ o, numericObservation reportKey aggregates component eventCode d (.days n) v = some o := by
  have hmem : numericItem reportKey aggregates component eventCode dailyAggregates d (.days n) ∈
      numericItems reportKey aggregates component eventCode dailyAggregates start finalDayIndex
        lastGen := by
    have hstart := (le_firstDayIndex (lastGen n) start).trans hfirst
    refine List.mem_flatMap.mpr ⟨d, List.mem_range'_1.mpr ⟨hstart, by omega⟩, ?_⟩
    refine List.mem_map_of_mem (List.mem_filter.mpr ⟨mem_dayWindowSizes.mp hn, ?_⟩)
    simp only [windowDue, decide_eq_true_eq]
    exact ⟨hfirst, hd⟩
  obtain ⟨s₁, -, hitem, -⟩ := Loop.runAll_ok_mem (R := fun _ _ => True) (fun _ => trivial)
    (fun _ _ _ _ _ => trivial) (fun _ _ _ => trivial) hok hmem
  rw [numericItem] at hitem
  rw [emittedValue] at hv
  have hdays : numDays (.days n) = n := rfl
  rw [hdays] at hitem
  cases hscan : scanDays aggregates.aggregationConfig.report.aggregationType dailyAggregates d n
      {} with
  | error status => exact absurd (hscan ▸ hv) (by simp)
  | ok scan =>
    rw [hscan] at hv hitem
    dsimp only at hv hitem
    split_ifs at hv hitem with hfound
    obtain rfl := Option.some.inj hv
    cases hobs : numericObservation reportKey aggregates component eventCode d (.days n)
        scan.aggregate with
    | none => exact absurd (hobs ▸ hitem) (by simp [runItem])
    | some o => exact ⟨o, rfl⟩

/-- What a call writes for a window that is due: the value that the scan of the window gives. -/
theorem mem_written_iff {start finalDayIndex : ℕ} {s : GenState}
    (hok : (generateNumericComponents backend reportKey aggregates start finalDayIndex s).1 = .kOK)
    {pre post : List (String × (_ : ℕ) × DailyAggregates)} {component : String} {eventCode : ℕ}
    {dailyAggregates : DailyAggregates}
    (hentries : componentCodes aggregates.numericAggregates =
      pre ++ (component, ⟨eventCode, dailyAggregates⟩) :: post)
    {n d : ℕ} (hn : n ∈ dayWindowSizes aggregates.aggregationConfig.aggregationWindow)
    (hfirst : firstDayIndex (getPerDeviceNumericLastGeneratedDayIndex
      (Loop.runAll .kOK (fun entry => generateNumericEventCode backend reportKey aggregates start
        finalDayIndex entry.1 entry.2.1 entry.2.2) pre s).2.obsHistory reportKey component eventCode
        n) start ≤ d) (hd : d ≤ finalDayIndex) :
    (∀ v, emittedValue aggregates.aggregationConfig.report.aggregationType dailyAggregates d n =
      some v →
        ∃ o, numericObservation reportKey aggregates component eventCode d (.days n) v = some o) ∧
    ∃ new, (generateNumericComponents backend reportKey aggregates start finalDayIndex
        s).2.written = s.written ++ new ∧
      ∀ o, ⟨.numeric reportKey component eventCode n, d, o⟩ ∈ new ↔
        ∃ v, emittedValue aggregates.aggregationConfig.report.aggregationType dailyAggregates d n =
            some v ∧
          numericObservation reportKey aggregates component eventCode d (.days n) v = some o := by
  have hnodup := nodup_componentCodes aggregates.numericAggregates
  rw [hentries, List.map_append, List.map_cons, List.nodup_append, List.nodup_cons] at hnodup
  obtain ⟨-, ⟨hpost, -⟩, hpre⟩ := hnodup
  rw [generateNumericComponents_eq, hentries] at hok ⊢
  obtain ⟨-, hbody, hrun⟩ := Loop.runAll_append_cons_of_ok hok
  rw [hrun]
  dsimp only at hbody ⊢
  set s₁ := (Loop.runAll .kOK (fun entry : String × (_ : ℕ) × DailyAggregates =>
    generateNumericEventCode backend reportKey aggregates start finalDayIndex entry.1 entry.2.1
      entry.2.2) pre s).2
  -- the event codes before and after this one write about other sources
  have hother : ∀ entry : String × (_ : ℕ) × DailyAggregates,
      (entry.1, entry.2.1) ≠ (component, eventCode) → ∀ s,
      Appends (fun w => w.source ≠ .numeric reportKey component eventCode n) s
        (generateNumericEventCode backend reportKey aggregates start finalDayIndex entry.1 entry.2.1
          entry.2.2 s).2 :=
    fun entry hne s => appends_generateNumericEventCode hsorted hne n start finalDayIndex _ s
  obtain ⟨new₁, hnew₁, hpre⟩ := Appends.runAll (fun entry hentry => hother entry fun heq =>
    hpre _ (List.mem_map_of_mem hentry) _ List.mem_cons_self heq) s
  obtain ⟨new₂, hnew₂, hpost⟩ := Appends.runAll (fun entry hentry => hother entry fun heq =>
    hpost (heq ▸ List.mem_map_of_mem hentry))
    (generateNumericEventCode backend reportKey aggregates start finalDayIndex component eventCode
      dailyAggregates s₁).2
  rw [generateNumericEventCode_eq hsorted] at hbody hnew₂ ⊢
  rw [written_runAll_items hbody, hnew₁] at hnew₂
  refine ⟨fun v => exists_numericObservation hbody hn hfirst hd,
    _, hnew₂.trans (by simp only [List.append_assoc]; rfl), fun o => ?_⟩
  rw [← mem_output_of_due hn hfirst hd]
  simp only [List.mem_append]
  constructor
  · rintro (h | h | h)
    · exact absurd rfl (hpre _ h)
    · exact h
    · exact absurd rfl (hpost _ h)
  · exact fun h => Or.inr (Or.inl h)

omit hsorted in
theorem numericObservation_inj {component : String} {eventCode d : ℕ}
    {window : OnDeviceAggregationWindow} {v v' : ℤ} {o : Observation}
    (h : numericObservation reportKey aggregates component eventCode d window v = some o)
    (h' : numericObservation reportKey aggregates component eventCode d window v' = some o) :
    v = v' := by
  have heq := h.trans h'.symm
  rw [numericObservation] at h
  rw [numericObservation, numericObservation] at heq
  cases hr : aggregates.aggregationConfig.report.reportType <;> rw [hr] at h heq
  case PER_DEVICE_NUMERIC_STATS =>
    simpa [perDeviceNumericWritten, encodePerDeviceNumericObservation, makeObservation] using heq
  case PER_DEVICE_HISTOGRAM =>
    simpa [perDeviceHistogramWritten, encodePerDeviceHistogramObservation, makeObservation]
      using heq
  all_goals exact absurd h (by simp)

omit hsorted in
theorem configOf_runEvents (calls : List EventCall) (s : AggregateStore)
    (key : ReportAggregationKey) :
    (runEvents calls s).2.localAggregateStore.configOf key =
      s.localAggregateStore.configOf key := by
  induction calls generalizing s with
  | nil => rfl
  | cons call calls ih =>
    refine (ih _).trans ?_
    cases call with
    | setActive => exact configOf_setActive _ _ _ _ _
    | updateNumericAggregate => exact configOf_updateNumericAggregate _ _ _ _ _ _ _

omit hsorted in
/-- Events leave the configuration of a report as it was. -/
theorem aggregationConfig_of_runEvents {s : AggregateStore} {calls : List EventCall}
    {before after : ReportAggregates}
    (hbefore : s.localAggregateStore.byReportKey.lookup reportKey = some before)
    (hafter : (runEvents calls s).2.localAggregateStore.byReportKey.lookup reportKey =
      some after) : before.aggregationConfig = after.aggregationConfig := by
  have hconfigs := configOf_runEvents calls s reportKey
  rw [LocalAggregateStore.configOf, LocalAggregateStore.configOf, hafter, hbefore] at hconfigs
  exact (Option.some.inj hconfigs).symm

omit hsorted in
/-- Two values give the same observations if and only if they are the same. -/
private theorem observations_eq_iff {component : String} {eventCode d : ℕ}
    {window : OnDeviceAggregationWindow} {emitted expected : Option ℤ}
    (hnone : emitted = none → expected = none)
    (hobs : ∀ v, emitted = some v →
      ∃ o, numericObservation reportKey aggregates component eventCode d window v = some o) :
    (∀ o, (∃ v, emitted = some v ∧
        numericObservation reportKey aggregates component eventCode d window v = some o) ↔
      ∃ v, expected = some v ∧
        numericObservation reportKey aggregates component eventCode d window v = some o) ↔
    emitted = expected := by
  constructor
  · intro h
    cases emitted with
    | none => exact (hnone rfl).symm
    | some e =>
      obtain ⟨o, ho⟩ := hobs e rfl
      obtain ⟨v, hv, ho'⟩ := (h o).mp ⟨e, rfl, ho⟩
      rw [hv, numericObservation_inj ho ho']
  · rintro rfl o
    rfl

/-- **Numeric window values.** A call that succeeds writes for every window that is due, and does not
reach back before the first day, the observation with the aggregate of the stored values of the
window, if and only if the aggregate is not a maximum of negative values only. The same holds of the
logged values, when all daily aggregates come from logged events. -/
theorem emitsAggregate_iff_maxNotNegative
    (hrec : Recognized aggregates.aggregationConfig.report.aggregationType)
    {backfillDays finalDayIndex : ℕ} (hadmitted : Admitted backfillDays finalDayIndex)
    {s : GenState} (hok : (generateObsFromNumericAggregates backend reportKey aggregates
      backfillDays finalDayIndex s).1 = .kOK)
    {pre post : List (String × (_ : ℕ) × DailyAggregates)} {component : String} {eventCode : ℕ}
    {dailyAggregates : DailyAggregates}
    (hentries : componentCodes aggregates.numericAggregates =
      pre ++ (component, ⟨eventCode, dailyAggregates⟩) :: post)
    {n d : ℕ} (hn : n ∈ dayWindowSizes aggregates.aggregationConfig.aggregationWindow)
    (hfirst : firstDayIndex (getPerDeviceNumericLastGeneratedDayIndex
      (Loop.runAll .kOK (fun entry => generateNumericEventCode backend reportKey aggregates
        (finalDayIndex - backfillDays) finalDayIndex entry.1 entry.2.1 entry.2.2) pre
        s).2.obsHistory reportKey component eventCode n) (finalDayIndex - backfillDays) ≤ d)
    (hd : d ≤ finalDayIndex) (hdays : n ≤ d) :
    ∃ new, (generateObsFromNumericAggregates backend reportKey aggregates backfillDays
        finalDayIndex s).2.written = s.written ++ new ∧
      (EmitsAggregate reportKey aggregates component eventCode d n
          (storedValues dailyAggregates d n) new ↔
        MaxNotNegative aggregates.aggregationConfig.report.aggregationType
          (storedValues dailyAggregates d n)) ∧
      ∀ (s₀ : AggregateStore) (aggregates₀ : ReportAggregates) (calls : List EventCall),
        s₀.isDisabled = false →
        s₀.localAggregateStore.byReportKey.lookup reportKey = some aggregates₀ →
        aggregates₀.type = .numericAggregates ∅ →
        (runEvents calls s₀).2.localAggregateStore.byReportKey.lookup reportKey =
          some aggregates →
        (EmitsAggregate reportKey aggregates component eventCode d n
            (loggedValues calls reportKey component eventCode d n) new ↔
          MaxNotNegative aggregates.aggregationConfig.report.aggregationType
            (loggedValues calls reportKey component eventCode d n)) := by
  obtain ⟨hperiod, hstart⟩ := hadmitted.period
  simp only [generateObsFromNumericAggregates, hperiod] at hok ⊢
  by_cases hcomponents : (generateNumericComponents backend reportKey aggregates
    (finalDayIndex - backfillDays) finalDayIndex s).1 = .kOK
  · obtain ⟨hobs, new, hnew, hmem⟩ := mem_written_iff hsorted hcomponents hentries hn hfirst hd
    have hparticipation : Appends (fun w => w.source ≠ .numeric reportKey component eventCode n) _
        (generateParticipation backend reportKey aggregates (finalDayIndex - backfillDays)
          finalDayIndex (generateNumericComponents backend reportKey aggregates
            (finalDayIndex - backfillDays) finalDayIndex s).2).2 :=
      appends_generateParticipation n _ _ _
    obtain ⟨new', hnew', hother⟩ := hparticipation
    have hobsDay : d < U32.max := hd.trans_lt hadmitted.1
    -- the property, for a list of values with the aggregate of the stored ones
    have hiff : ∀ values, aggregateOf aggregates.aggregationConfig.report.aggregationType
        (storedValues dailyAggregates d n) =
          aggregateOf aggregates.aggregationConfig.report.aggregationType values →
        (EmitsAggregate reportKey aggregates component eventCode d n values (new ++ new') ↔
          MaxNotNegative aggregates.aggregationConfig.report.aggregationType values) := by
      intro values hvalues
      have hnone : emittedValue aggregates.aggregationConfig.report.aggregationType
          dailyAggregates d n = none →
          aggregateOf aggregates.aggregationConfig.report.aggregationType values = none := by
        intro hemitted
        rw [← hvalues, (emittedValue_eq_none_iff hrec hobsDay hdays).mp hemitted,
          aggregateOf_eq_fold1 hrec, Fold1.fold1_nil]
      have hnew : ∀ o, ⟨.numeric reportKey component eventCode n, d, o⟩ ∈ new ++ new' ↔ _ :=
        fun o => (List.mem_append.trans (or_iff_left fun h => hother _ h rfl)).trans (hmem o)
      rw [EmitsAggregate]
      simp only [hnew]
      rw [observations_eq_iff hnone hobs, ← hvalues, emittedValue_eq_iff hrec hobsDay hdays,
        maxNotNegative_iff, maxNotNegative_iff, hvalues]
    rw [andThen, if_pos hcomponents, hnew', hnew]
    refine ⟨new ++ new', List.append_assoc _ _ _, hiff _ rfl, ?_⟩
    intro s₀ aggregates₀ calls henabled hlookup₀ htype hlookup
    have hconfig := aggregationConfig_of_runEvents hlookup₀ hlookup
    have hentry : (component, ProtoMap.entry eventCode dailyAggregates) ∈
        componentCodes aggregates.numericAggregates := by
      rw [hentries]
      exact List.mem_append_right _ List.mem_cons_self
    refine hiff _ ?_
    rw [← dailyAggregates_of_mem_componentCodes hentry, ← hconfig]
    exact aggregateOf_storedValues henabled hlookup₀ htype (hconfig ▸ hrec) calls hlookup hdays
  · rw [andThen, if_neg hcomponents] at hok
    exact absurd hok hcomponents

omit hsorted in
/-- The observation of a maximum of 7. -/
theorem emitsAggregate_of_seven :
    ∃ new, (generateObsFromNumericAggregates .reliable ⟨1, 2, 3, 4⟩
        (oneCellAggregates .MAX (.numeric 7)) 0 400
        ⟨makeNewObservationHistoryStore, 0, []⟩).2.written = [] ++ new ∧
      EmitsAggregate ⟨1, 2, 3, 4⟩ (oneCellAggregates .MAX (.numeric 7)) "c" 5 400 1
        (storedValues (AList.singleton 400 (.numeric 7)) 400 1) new := by
  obtain ⟨new, hnew, hiff, -⟩ := @emitsAggregate_iff_maxNotNegative .reliable ⟨1, 2, 3, 4⟩
    (oneCellAggregates .MAX (.numeric 7)) (by decide) trivial 0 400 (by decide)
    ⟨makeNewObservationHistoryStore, 0, []⟩ (by decide +kernel) [] [] "c" 5
    (AList.singleton 400 (.numeric 7)) rfl 1 400 (by decide) (by decide +kernel) le_rfl (by decide)
  exact ⟨new, hnew, hiff.mpr fun _ => Or.inr ⟨7, by decide, by decide⟩⟩

omit hsorted in
/-- A maximum of -5 is written as zero. -/
theorem not_emitsAggregate_of_negative :
    (generateObsFromNumericAggregates .reliable ⟨1, 2, 3, 4⟩
      (oneCellAggregates .MAX (.numeric (-5))) 0 400
      ⟨makeNewObservationHistoryStore, 0, []⟩).1 = .kOK ∧
    ¬ EmitsAggregate ⟨1, 2, 3, 4⟩ (oneCellAggregates .MAX (.numeric (-5))) "c" 5 400 1
      (storedValues (AList.singleton 400 (.numeric (-5))) 400 1)
      (generateObsFromNumericAggregates .reliable ⟨1, 2, 3, 4⟩
        (oneCellAggregates .MAX (.numeric (-5))) 0 400
        ⟨makeNewObservationHistoryStore, 0, []⟩).2.written := by
  refine ⟨by decide +kernel, fun h => ?_⟩
  have hmem := (h _).mpr ⟨-5, by decide, rfl⟩
  revert hmem
  decide +kernel

end Emission

/-! ### The shared scan -/

section SharedScan

variable {backend : Backend} {reportKey : ReportAggregationKey} {aggregates : ReportAggregates}
  {component : String} {eventCode : ℕ} {dailyAggregates : DailyAggregates} {obsDayIndex : ℕ}

/-- After the windows of a list the scan is that of the last one. -/
private theorem scan_runAll {windows : List OnDeviceAggregationWindow}
    (hsorted : windows.Pairwise fun a b => numDays a < numDays b) {m : ℕ} {scan : Scan}
    (hscan : scanDays aggregates.aggregationConfig.report.aggregationType dailyAggregates
      obsDayIndex m {} = .ok scan) (hm : ∀ window ∈ windows, m ≤ numDays window) {s : GenState}
    (hok : (Loop.runAll .kOK (generateNumericWindow backend reportKey aggregates component eventCode
      dailyAggregates obsDayIndex) windows (scan, s)).1 = .kOK) :
    ∃ m', scanDays aggregates.aggregationConfig.report.aggregationType dailyAggregates obsDayIndex
        m' {} = .ok (Loop.runAll .kOK (generateNumericWindow backend reportKey aggregates component
          eventCode dailyAggregates obsDayIndex) windows (scan, s)).2.1 ∧
      (m' = m ∨ ∃ window ∈ windows, m' = numDays window) := by
  induction windows generalizing m scan s with
  | nil => exact ⟨m, hscan, Or.inl rfl⟩
  | cons window windows ih =>
    obtain ⟨hlt, hsorted⟩ := List.pairwise_cons.mp hsorted
    obtain ⟨-, hnext⟩ := generateNumericWindow_eq reportKey component eventCode backend hscan
      (hm window List.mem_cons_self) s
    by_cases hwindow : (generateNumericWindow backend reportKey aggregates component eventCode
      dailyAggregates obsDayIndex window (scan, s)).1 = .kOK
    · rw [Loop.runAll_cons_of_ok hwindow] at hok ⊢
      obtain ⟨m', hm', hcases⟩ := ih hsorted (hnext hwindow)
        (fun window' hmem => (hlt window' hmem).le) hok
      refine ⟨m', hm', Or.inr ?_⟩
      rcases hcases with rfl | ⟨window', hmem, rfl⟩
      · exact ⟨window, List.mem_cons_self, rfl⟩
      · exact ⟨window', List.mem_cons_of_mem _ hmem, rfl⟩
    · rw [Loop.runAll_cons_of_ne hwindow] at hok
      exact absurd hok hwindow

variable (backend reportKey aggregates component eventCode dailyAggregates obsDayIndex) in
/-- **One scan for all windows.** In a strictly increasing list of windows, the scan of every window
that is reached, which goes on from the state that the smaller windows left, ends like a scan of the
window alone. The windows that are pending for a day are such a list when those of the report are:
they are the ones among them that are due. -/
theorem shared_scan_eq_separate_scan :
    (∀ (pre post : List OnDeviceAggregationWindow) (window : OnDeviceAggregationWindow)
      (s : GenState),
      (pre ++ window :: post).Pairwise (fun a b => numDays a < numDays b) →
      (Loop.runAll .kOK (generateNumericWindow backend reportKey aggregates component eventCode
        dailyAggregates obsDayIndex) pre ({}, s)).1 = .kOK →
      let scan := (Loop.runAll .kOK (generateNumericWindow backend reportKey aggregates component
        eventCode dailyAggregates obsDayIndex) pre ({}, s)).2.1
      scanDays aggregates.aggregationConfig.report.aggregationType dailyAggregates obsDayIndex
          (numDays window - scan.numDays) scan =
        scanDays aggregates.aggregationConfig.report.aggregationType dailyAggregates obsDayIndex
          (numDays window) {}) ∧
    ∀ (lastGen : ℕ → ℕ) (backfillPeriodStart finalDayIndex : ℕ)
      (pending : List OnDeviceAggregationWindow),
      (windowsByObsDay lastGen backfillPeriodStart finalDayIndex
        aggregates.aggregationConfig.aggregationWindow).lookup obsDayIndex = some pending →
      pending.Sublist aggregates.aggregationConfig.aggregationWindow ∧
      ((dayWindowSizes aggregates.aggregationConfig.aggregationWindow).Pairwise (· < ·) →
        pending.Pairwise fun a b => numDays a < numDays b) := by
  constructor
  · intro pre post window s hsorted hok scan
    obtain ⟨hpre, -, hlt⟩ := List.pairwise_append.mp hsorted
    obtain ⟨m, hscan, hm⟩ := scan_runAll hpre (m := 0) rfl (fun _ _ => Nat.zero_le _) hok
    refine scanDays_resume hscan ?_
    rcases hm with rfl | ⟨window', hmem, rfl⟩
    · exact Nat.zero_le _
    · exact (hlt window' hmem window List.mem_cons_self).le
  · intro lastGen backfillPeriodStart finalDayIndex pending hpending
    have hfilter := lookup_windowsByObsDay lastGen backfillPeriodStart finalDayIndex
      aggregates.aggregationConfig.aggregationWindow obsDayIndex
    rw [hpending, Option.getD_some] at hfilter
    rw [hfilter]
    exact ⟨List.filter_sublist, fun hsorted => pairwise_windowDue hsorted _ _ _ _⟩

/-- The scan of the second of two windows. -/
theorem shared_scan_of_two_windows :
    scanDays .MAX (AList.singleton 400 (.numeric 7)) 401
        (2 - (Loop.runAll .kOK (generateNumericWindow .reliable ⟨1, 2, 3, 4⟩
          (oneCellAggregates .MAX (.numeric 7)) "c" 5 (AList.singleton 400 (.numeric 7)) 401)
          [.days 1] ({}, ⟨makeNewObservationHistoryStore, 0, []⟩)).2.1.numDays)
        (Loop.runAll .kOK (generateNumericWindow .reliable ⟨1, 2, 3, 4⟩
          (oneCellAggregates .MAX (.numeric 7)) "c" 5 (AList.singleton 400 (.numeric 7)) 401)
          [.days 1] ({}, ⟨makeNewObservationHistoryStore, 0, []⟩)).2.1 =
      scanDays .MAX (AList.singleton 400 (.numeric 7)) 401 2 {} :=
  (shared_scan_eq_separate_scan .reliable ⟨1, 2, 3, 4⟩ (oneCellAggregates .MAX (.numeric 7)) "c" 5
    (AList.singleton 400 (.numeric 7)) 401).1 [.days 1] [] (.days 2)
    ⟨makeNewObservationHistoryStore, 0, []⟩ (by decide) (by decide +kernel)

end SharedScan

/-! ### The activity of a window -/

section Activity

variable {backend : Backend} {reportKey : ReportAggregationKey} {aggregates : ReportAggregates}

/-- The flag of the observation says whether a day of its window was active. -/
def FlagRight (reportKey : ReportAggregationKey) (aggregates : ReportAggregates) (w : Written) :
    Prop :=
  ∃ eventCode n d wasActive,
    w = uniqueActivesWritten reportKey aggregates.aggregationConfig d eventCode (.days n)
      wasActive ∧
    (wasActive = true ↔ ∃ day, d - n < day ∧ day ≤ d ∧
      isActiveDay ((aggregates.uniqueActivesAggregates.lookup eventCode).getD ∅) day = true)

/-- **The search for activity.** The flag of every observation that a call writes says whether a day
of the window was active, and no subtraction of day indices wraps: neither the one that gives the
first day of the backfill period, nor those that give the first day of a window that ends in it. -/
theorem uniqueActives_flag_iff {backfillDays finalDayIndex : ℕ}
    (hadmitted : Admitted backfillDays finalDayIndex) (numEventCodes : ℕ) (s : GenState) :
    Appends (FlagRight reportKey aggregates) s
      (generateUniqueActivesObservations backend reportKey aggregates backfillDays numEventCodes
        finalDayIndex s).2 ∧
    (backfillDays ≤ finalDayIndex ∧
      U32.ofNat (finalDayIndex - backfillDays) = finalDayIndex - backfillDays) ∧
    ∀ lastGen n d, n ≤ kMaxAllowedAggregationDays →
      firstDayIndex lastGen (finalDayIndex - backfillDays) ≤ d → d ≤ finalDayIndex →
      n ≤ d ∧ U32.sub d n = d - n ∧ U32.add (U32.sub d n) 1 = d - n + 1 := by
  obtain ⟨hperiod, hstart⟩ := hadmitted.period
  have hle := hadmitted.2
  have hmax : U32.max + 1 = U32.size := by decide
  have hinWindow : ∀ lastGen n d, n ≤ kMaxAllowedAggregationDays →
      firstDayIndex lastGen (finalDayIndex - backfillDays) ≤ d → n ≤ d := by
    intro lastGen n d hn hfirst
    have := (le_firstDayIndex lastGen (finalDayIndex - backfillDays)).trans hfirst
    omega
  refine ⟨?_, ⟨by omega, hperiod⟩, fun lastGen n d hn hfirst hd => ?_⟩
  · rw [generateUniqueActivesObservations, hperiod]
    refine Appends.runAll (fun eventCode _ s => Appends.runAll (fun window _ s => ?_) s) s
    cases window with
    | unitsNotSet => exact Appends.refl s
    | hours n => exact Appends.refl s
    | days n =>
      by_cases hn : n ≤ kMaxAllowedAggregationDays
      · rw [generateUniqueActivesWindow_eq hn hstart hadmitted.1]
        refine Appends.runAll (fun item hitem s => Appends.runItem (fun w hw => ?_) s) s
        obtain ⟨d, hd, rfl⟩ := List.mem_map.mp hitem
        obtain rfl := List.mem_singleton.mp hw
        have hnd := hinWindow _ n d hn (List.mem_range'_1.mp hd).1
        exact ⟨eventCode, n, d, _, rfl, occurredInWindow_eq_true_iff hnd⟩
      · rw [generateUniqueActivesWindow, if_pos (by omega)]
        exact Appends.refl s
  · have hnd := hinWindow lastGen n d hn hfirst
    have hfinal := hadmitted.1
    have hsub : U32.sub d n = d - n := U32.sub_of_le (by omega) hnd
    rw [hsub, U32.add_of_lt (by omega)]
    exact ⟨hnd, rfl, rfl⟩

/-- The aggregates of a report with one active day. -/
def oneDayAggregates : ReportAggregates where
  type := .uniqueActivesAggregates (AList.singleton 0 (AList.singleton 399 (.activity true)))
  aggregationConfig :=
    { project := ⟨1, 2⟩
      metric := { customerId := 1, projectId := 2, id := 6, metricType := .EVENT_OCCURRED }
      report := { id := 7, reportType := .UNIQUE_N_DAY_ACTIVES }
      aggregationWindow := [.days 1] }

/-- The first of two days was active. -/
theorem uniqueActives_flag_iff_of_one_day :
    (generateUniqueActivesObservations .reliable ⟨1, 2, 6, 7⟩ oneDayAggregates 1 1 400
        ⟨makeNewObservationHistoryStore, 0, []⟩).2.written =
      [uniqueActivesWritten ⟨1, 2, 6, 7⟩ oneDayAggregates.aggregationConfig 399 0 (.days 1) true,
        uniqueActivesWritten ⟨1, 2, 6, 7⟩ oneDayAggregates.aggregationConfig 400 0 (.days 1)
          false] ∧
    Appends (FlagRight ⟨1, 2, 6, 7⟩ oneDayAggregates) ⟨makeNewObservationHistoryStore, 0, []⟩
      (generateUniqueActivesObservations .reliable ⟨1, 2, 6, 7⟩ oneDayAggregates 1 1 400
        ⟨makeNewObservationHistoryStore, 0, []⟩).2 :=
  ⟨by decide +kernel, (uniqueActives_flag_iff (by decide) 1 _).1⟩

end Activity

end Cobalt.LocalAggregation
