import Cobalt.Lib.Run
import Cobalt.LocalAggregation.StoredCodes
import Cobalt.LocalAggregation.Sweeps

/-!
# Observations from numeric aggregates are generated exactly once

The same for per-device numeric and histogram observations. Two conditions are needed. The windows
of days of a report are strictly increasing: a window that is listed twice is generated twice. And
the packed event codes fit into 32 bits: the history truncates them, so two longer codes can share
one place in it.

## Main definitions

* `NumericSource`: the sources of observations from numeric aggregates.
* `CodesFit`: all packed event codes of a store fit into 32 bits.

## Main results

* `numeric_exactly_once`.
-/

namespace Cobalt.LocalAggregation

variable {kind : ReportAggregationKey → Option ReportKind} {store : LocalAggregateStore}

/-- The sources of the observations from numeric aggregates, given the kinds of the reports. -/
def NumericSource (kind : ReportAggregationKey → Option ReportKind) : ObservationSource → Prop
  | .numeric key _ code _ => kind key = some .numeric ∧ code < U32.size
  | _ => False

instance (kind : ReportAggregationKey → Option ReportKind) : DecidablePred (NumericSource kind)
  | .uniqueActives _ _ _ => inferInstanceAs (Decidable False)
  | .numeric _ _ _ _ => inferInstanceAs (Decidable (_ ∧ _))
  | .reportParticipation _ => inferInstanceAs (Decidable False)

theorem NumericSource.kind_eq {k : ObservationSource} (h : NumericSource kind k) :
    kind k.reportKey = some .numeric := by
  cases k with
  | uniqueActives => exact absurd h id
  | numeric => exact h.1
  | reportParticipation => exact absurd h id

/-- Codes of at most 32 bits are not confused in the history. -/
theorem independent_numericSource (kind : ReportAggregationKey → Option ReportKind) :
    Independent (NumericSource kind) := by
  intro history k k' v hk hk'
  cases k with
  | uniqueActives => exact absurd hk id
  | reportParticipation => exact absurd hk id
  | numeric key component code days =>
    cases k' with
    | uniqueActives => exact absurd hk' id
    | reportParticipation => exact absurd hk' id
    | numeric key' component' code' days' =>
      simp only [getLastGenerated, setLastGenerated, getPerDeviceNumeric_setPerDeviceNumeric,
        ObservationSource.numeric.injEq, U32.ofNat_of_lt hk.2, U32.ofNat_of_lt hk'.2]

theorem foreign_numericSource_of_uniqueActives {k : ObservationSource}
    (h : kind k.reportKey = some .uniqueActives) : Foreign (NumericSource kind) k := by
  refine ⟨fun hk => ?_, fun history v k' hk' => ?_⟩
  · rw [hk.kind_eq] at h
    exact absurd h (by decide)
  · refine getLastGenerated_setLastGenerated_of_ne (fun heq => ?_) v
    rw [← heq, hk'.kind_eq] at h
    exact absurd h (by decide)

/-- The participation of a report is recorded apart from its numeric history. -/
theorem foreign_numericSource_reportParticipation (key : ReportAggregationKey) :
    Foreign (NumericSource kind) (.reportParticipation key) := by
  refine ⟨id, fun history v k' hk' => ?_⟩
  cases k' with
  | uniqueActives => exact absurd hk' id
  | reportParticipation => exact absurd hk' id
  | numeric => exact getPerDeviceNumeric_setReportParticipation ..

/-! ### One event code -/

section Days

variable {L : ObservationSource → Prop} {P : ObservationSource → ℕ → Prop}
  {source : ℕ → ObservationSource}

/-- The item of a window works off the source of the window, or returns with a failure. -/
def ItemOf (P : ObservationSource → ℕ → Prop) (k : ObservationSource) (d : ℕ) (item : Item) :
    Prop :=
  (∃ status, item = .fail status ∧ status ≠ .kOK) ∨
    ∃ o, item = .generate k d o ∧ (o.isSome ↔ P k d)

variable (hinj : Function.Injective source) (hL : ∀ w, L (source w)) {item : ℕ → ℕ → Item}
include hinj hL

/-- The items of one day, one for each window of a list without repetitions. -/
private theorem feasible_windows_append {d : ℕ} (hd : d < U32.max) {ws : List ℕ}
    (hnodup : ws.Nodup) (hitem : ∀ w ∈ ws, ItemOf P (source w) d (item d w))
    {m : ObservationSource → ℕ} (hlt : ∀ w ∈ ws, m (source w) < d)
    (hskip : ∀ w ∈ ws, ∀ e, m (source w) < e → e < d → ¬ P (source w) e) {rest : List Item}
    (hrest : Feasible L P (fun k => if k ∈ ws.map source then d else m k) rest) :
    Feasible L P m (ws.map (item d) ++ rest) := by
  induction ws generalizing m with
  | nil => simpa using hrest
  | cons w ws ih =>
    obtain ⟨hw, hnodup⟩ := List.nodup_cons.mp hnodup
    rw [List.map_cons, List.cons_append]
    rcases hitem w List.mem_cons_self with ⟨status, heq, hne⟩ | ⟨o, heq, hdue⟩
    · rw [heq]
      exact hne
    · rw [heq]
      have hother : ∀ w' ∈ ws, Function.update m (source w) d (source w') = m (source w') := by
        intro w' hw'
        have hne : source w' ≠ source w := fun h => hw (hinj h ▸ hw')
        exact Function.update_of_ne hne _ _
      refine ⟨⟨hL w, hlt w List.mem_cons_self, hd, hskip w List.mem_cons_self, hdue⟩,
        ih hnodup (fun w' hw' => hitem w' (List.mem_cons_of_mem w hw')) ?_ ?_ ?_⟩
      · intro w' hw'
        rw [hother w' hw']
        exact hlt w' (List.mem_cons_of_mem w hw')
      · intro w' hw'
        rw [hother w' hw']
        exact hskip w' (List.mem_cons_of_mem w hw')
      · convert hrest using 2 with k
        by_cases hk : k = source w <;> simp [hk]

/-- The items of consecutive days. Before the day `d` the watermark of every window is the last
generated day that the call started with, if that is `d` or later, and else the day before `d`, or
earlier if the backfill period starts with `d`. -/
private theorem feasible_days {sizes : List ℕ} (hnodup : sizes.Nodup) {lastGen : ℕ → ℕ}
    {start finalDayIndex : ℕ} (hfinal : finalDayIndex < U32.max)
    (hP : ∀ w e, P (source w) e → start ≤ e)
    (hitem : ∀ d w, start ≤ d → d ≤ finalDayIndex → w ∈ sizes → ItemOf P (source w) d (item d w))
    {n d : ℕ} (hd : d + n = finalDayIndex + 1) (hstart : start ≤ d) {m : ObservationSource → ℕ}
    (hm : ∀ w ∈ sizes, (lastGen w < d → m (source w) < d) ∧
      (d ≤ lastGen w → m (source w) = lastGen w) ∧ ∀ e, start ≤ e → e < d → e ≤ m (source w)) :
    Feasible L P m ((List.range' d n).flatMap fun d =>
      (sizes.filter (lastGen · < d)).map (item d)) := by
  induction n generalizing d m with
  | zero => exact trivial
  | succ n ih =>
    rw [List.range'_succ, List.flatMap_cons]
    have hmem : ∀ w, w ∈ sizes.filter (lastGen · < d) ↔ w ∈ sizes ∧ lastGen w < d := by
      intro w
      rw [List.mem_filter, decide_eq_true_eq]
    refine feasible_windows_append hinj hL (by omega) (hnodup.filter _)
      (fun w hw => hitem d w hstart (by omega) ((hmem w).mp hw).1) ?_ ?_ ?_
    · intro w hw
      obtain ⟨hw, hlt⟩ := (hmem w).mp hw
      exact (hm w hw).1 hlt
    · intro w hw e hlo hhi hdue
      have hle := (hm w ((hmem w).mp hw).1).2.2 e (hP w e hdue) hhi
      omega
    · refine ih (by omega) (by omega) fun w hw => ?_
      obtain ⟨hbefore, hafter, hcovered⟩ := hm w hw
      have hsource : source w ∈ (sizes.filter (lastGen · < d)).map source ↔ lastGen w < d := by
        rw [List.mem_map_of_injective hinj, hmem]
        exact ⟨And.right, fun h => ⟨hw, h⟩⟩
      by_cases hlt : lastGen w < d
      · simp only [hsource.mpr hlt, ↓reduceIte]
        exact ⟨fun _ => by omega, fun h => by omega, fun e _ h => by omega⟩
      · have hnot : source w ∉ (sizes.filter (lastGen · < d)).map source := fun h =>
          hlt (hsource.mp h)
        simp only [hnot, ↓reduceIte]
        have heq := hafter (by omega)
        exact ⟨fun _ => by omega, fun _ => heq, fun e _ h => by omega⟩

end Days

section EventCode

variable {backend : Backend} {reportKey : ReportAggregationKey} {aggregates : ReportAggregates}
  {component : String} {eventCode : ℕ} {dailyAggregates : DailyAggregates}
  {start finalDayIndex : ℕ}

/-- What the item of a day and a window of days can be. -/
private theorem itemOf_numericItem {P : ObservationSource → ℕ → Prop} {d days : ℕ}
    (hd : d < U32.max) (hdays : days ≤ d)
    (hP : P (.numeric reportKey component eventCode days) d ↔ hasValue dailyAggregates d days) :
    ItemOf P (.numeric reportKey component eventCode days) d
      (numericItem reportKey aggregates component eventCode dailyAggregates d (.days days)) := by
  rw [numericItem]
  cases hscan : scanDays aggregates.aggregationConfig.report.aggregationType dailyAggregates d
      (numDays (.days days)) {} with
  | error status => exact Or.inl ⟨status, rfl, by rw [scanDays_error hscan]; decide⟩
  | ok scan =>
    have hfound := (scanDays_found_iff_hasValue hd hdays hscan).trans hP.symm
    dsimp only
    split_ifs with hif
    · split
      · next o _ => exact Or.inr ⟨some o, rfl, by simpa using hfound.mp hif⟩
      · exact Or.inl ⟨_, rfl, by decide⟩
    · exact Or.inr ⟨none, rfl, by simpa using fun h => hif (hfound.mpr h)⟩

/-- The windows due on a day are windows of days that were last generated before it. -/
private theorem filter_windowDue {windows : List OnDeviceAggregationWindow} {lastGen : ℕ → ℕ}
    (hbounded : ∀ w, lastGen w < U32.max) {d : ℕ} (hstart : start ≤ d) (hd : d ≤ finalDayIndex) :
    windows.filter (windowDue lastGen start finalDayIndex d) =
      ((dayWindowSizes windows).filter (lastGen · < d)).map .days := by
  induction windows with
  | nil => rfl
  | cons window windows ih =>
    cases window with
    | unitsNotSet => exact ih
    | hours n => exact ih
    | days n =>
      have hdue : windowDue lastGen start finalDayIndex d (.days n) = decide (lastGen n < d) := by
        simp only [windowDue, firstDayIndex_le_iff (hbounded n), hstart, hd, and_true]
      have hsizes : dayWindowSizes (.days n :: windows) = n :: dayWindowSizes windows := rfl
      rw [hsizes, List.filter_cons, List.filter_cons, hdue, ih]
      split_ifs <;> rfl

/-- The conditions under which the observations of one event code are swept. -/
structure SweepsEventCode (kind : ReportAggregationKey → Option ReportKind)
    (P : ObservationSource → ℕ → Prop) (reportKey : ReportAggregationKey)
    (aggregates : ReportAggregates) (component : String) (eventCode : ℕ)
    (dailyAggregates : DailyAggregates) (start finalDayIndex : ℕ) : Prop where
  kind_eq : kind reportKey = some .numeric
  code_lt : eventCode < U32.size
  sorted : (dayWindowSizes aggregates.aggregationConfig.aggregationWindow).Pairwise (· < ·)
  size_le : ∀ w ∈ dayWindowSizes aggregates.aggregationConfig.aggregationWindow,
    w ≤ kMaxAllowedAggregationDays
  le_start : kMaxAllowedAggregationDays ≤ start
  start_le : start ≤ finalDayIndex
  final_lt : finalDayIndex < U32.max
  due_iff : ∀ w d, P (.numeric reportKey component eventCode w) d ↔
    start ≤ d ∧ hasValue dailyAggregates d w

variable {P : ObservationSource → ℕ → Prop}
  (h : SweepsEventCode kind P reportKey aggregates component eventCode dailyAggregates start
    finalDayIndex)
include h

private theorem itemOf_day {d w : ℕ} (hlo : start ≤ d) (hhi : d ≤ finalDayIndex)
    (hw : w ∈ dayWindowSizes aggregates.aggregationConfig.aggregationWindow) :
    ItemOf P (.numeric reportKey component eventCode w) d
      (numericItem reportKey aggregates component eventCode dailyAggregates d (.days w)) := by
  have hle := h.size_le w hw
  have hstart := h.le_start
  have hfinal := h.final_lt
  exact itemOf_numericItem (by omega) (by omega)
    ((h.due_iff w d).trans ⟨And.right, fun hv => ⟨hlo, hv⟩⟩)

private theorem numericItems_eq {lastGen : ℕ → ℕ} (hlast : ∀ w, lastGen w < U32.max) :
    numericItems reportKey aggregates component eventCode dailyAggregates start finalDayIndex
        lastGen =
      (List.range' start (finalDayIndex + 1 - start)).flatMap fun d =>
        ((dayWindowSizes aggregates.aggregationConfig.aggregationWindow).filter
          (lastGen · < d)).map fun w =>
            numericItem reportKey aggregates component eventCode dailyAggregates d (.days w) := by
  have hstart := h.start_le
  refine List.flatMap_congr fun d hd => ?_
  have hmem := List.mem_range'_1.mp hd
  rw [filter_windowDue hlast hmem.1 (by omega), List.map_map]
  rfl

private theorem feasible_numericItems {s : GenState}
    (hb : Bounded (NumericSource kind) s.obsHistory) :
    Feasible (NumericSource kind) P (mark (NumericSource kind) s.obsHistory)
      (numericItems reportKey aggregates component eventCode dailyAggregates start finalDayIndex
        (getPerDeviceNumericLastGeneratedDayIndex s.obsHistory reportKey component eventCode)) := by
  have hL : ∀ w, NumericSource kind (.numeric reportKey component eventCode w) :=
    fun w => ⟨h.kind_eq, h.code_lt⟩
  have hinj : Function.Injective (ObservationSource.numeric reportKey component eventCode) :=
    fun w w' heq => by simpa using heq
  have hstart := h.start_le
  have hlast : ∀ w, getPerDeviceNumericLastGeneratedDayIndex s.obsHistory reportKey component
      eventCode w < U32.max := fun w => hb _ (hL w)
  rw [numericItems_eq h hlast]
  refine feasible_days hinj hL (h.sorted.imp Nat.ne_of_lt) h.final_lt
    (fun w e hdue => ((h.due_iff w e).mp hdue).1) (fun d w => itemOf_day h) (by omega) le_rfl
    fun w _ => ?_
  rw [mark_of_mem (hL w)]
  exact ⟨id, fun _ => rfl, fun e hlo hhi => by omega⟩

/-- The loops over days and windows of one event code are a sweep. -/
theorem generates_numericEventCode (s : GenState) :
    Generates (NumericSource kind) P s (generateNumericEventCode backend reportKey aggregates start
      finalDayIndex component eventCode dailyAggregates s).2 := by
  intro hb
  rw [generateNumericEventCode_eq (h.sorted.imp Nat.le_of_lt)]
  exact generates_runAll_items (independent_numericSource kind) backend
    (feasible_numericItems h hb) hb

/-- An event code that was worked off is generated up to the final day, for every window. -/
theorem le_mark_of_numericEventCode {s : GenState}
    (hb : Bounded (NumericSource kind) s.obsHistory)
    (hok : (generateNumericEventCode backend reportKey aggregates start finalDayIndex component
      eventCode dailyAggregates s).1 = .kOK) {w : ℕ}
    (hw : w ∈ dayWindowSizes aggregates.aggregationConfig.aggregationWindow) :
    finalDayIndex ≤ mark (NumericSource kind) (generateNumericEventCode backend reportKey
      aggregates start finalDayIndex component eventCode dailyAggregates s).2.obsHistory
      (.numeric reportKey component eventCode w) := by
  have hL : ∀ w, NumericSource kind (.numeric reportKey component eventCode w) :=
    fun w => ⟨h.kind_eq, h.code_lt⟩
  have hfeasible := feasible_numericItems h hb
  rw [generateNumericEventCode_eq (h.sorted.imp Nat.le_of_lt)] at hok ⊢
  rcases Nat.lt_or_ge (getPerDeviceNumericLastGeneratedDayIndex s.obsHistory reportKey component
    eventCode w) finalDayIndex with hlt | hge
  · -- the window is due on the final day, and its item was worked off
    have hlast : ∀ w, getPerDeviceNumericLastGeneratedDayIndex s.obsHistory reportKey component
        eventCode w < U32.max := fun w => hb _ (hL w)
    have hmem : numericItem reportKey aggregates component eventCode dailyAggregates finalDayIndex
        (.days w) ∈ numericItems reportKey aggregates component eventCode dailyAggregates start
        finalDayIndex (getPerDeviceNumericLastGeneratedDayIndex s.obsHistory reportKey component
          eventCode) := by
      have hstart := h.start_le
      rw [numericItems_eq h hlast]
      refine List.mem_flatMap.mpr ⟨finalDayIndex, List.mem_range'_1.mpr ⟨hstart, by omega⟩, ?_⟩
      exact List.mem_map.mpr ⟨w, List.mem_filter.mpr ⟨hw, decide_eq_true hlt⟩, rfl⟩
    obtain ⟨s₁, _, hok₁, _⟩ := Loop.runAll_ok_mem (R := fun _ _ => True) (fun _ => trivial)
      (fun _ _ _ _ _ => trivial) (fun _ _ _ => trivial) hok hmem
    rcases itemOf_day h h.start_le le_rfl hw with ⟨status, heq, hne⟩ | ⟨o, heq, _⟩
    · rw [heq] at hok₁
      exact absurd hok₁ hne
    · rw [heq] at hmem
      exact le_getLastGenerated_of_mem_items (independent_numericSource kind) hfeasible hb hok hmem
  · obtain ⟨_, _, _, hsweep⟩ := generates_runAll_items (independent_numericSource kind) backend
      hfeasible hb
    refine le_trans ?_ (hsweep.mono (.numeric reportKey component eventCode w))
    rwa [mark_of_mem (hL w)]

end EventCode

/-! ### A report and a call -/

/-- All packed event codes of a store fit into 32 bits. -/
def CodesFit (store : LocalAggregateStore) : Prop :=
  ∀ key aggregates, store.byReportKey.lookup key = some aggregates →
    ∀ component byEventCode, aggregates.numericAggregates.lookup component = some byEventCode →
    ∀ code daily, byEventCode.lookup code = some daily → code < U32.size

/-- The windows of days of every report are strictly increasing. -/
def WindowsIncreasing (store : LocalAggregateStore) : Prop :=
  ∀ key config, store.configOf key = some config →
    (dayWindowSizes config.aggregationWindow).Pairwise (· < ·)

/-- Observations are due from the start of the backfill period on, for windows with a value. -/
def NumericDue (store : LocalAggregateStore) (backfillDays utc loc : ℕ) (k : ObservationSource)
    (d : ℕ) : Prop :=
  match k with
  | .numeric key component code days =>
    backfillPeriodStart store backfillDays utc loc key ≤ d ∧
      hasValue (storedDays store key component code) d days
  | _ => False

section Call

variable {backend : Backend} {backfillDays utc loc : ℕ}
  (hutc : Admitted backfillDays utc) (hlocal : Admitted backfillDays loc)
  (hvalid : WindowsValid store) (hincreasing : WindowsIncreasing store) (hcodes : CodesFit store)
include hutc hlocal hvalid hincreasing hcodes

private theorem sweepsEventCode {key : ReportAggregationKey} {aggregates : ReportAggregates}
    {finalDayIndex : ℕ} (hlookup : store.byReportKey.lookup key = some aggregates)
    (hfinal : reportDayIndex aggregates.aggregationConfig.metric.timeZonePolicy utc loc =
      some finalDayIndex)
    (hkind : reportKind aggregates.aggregationConfig = some .numeric) {component : String}
    {byEventCode : EventCodeAggregates}
    (hcomponent : aggregates.numericAggregates.lookup component = some byEventCode) {code : ℕ}
    {daily : DailyAggregates} (hcode : byEventCode.lookup code = some daily) :
    SweepsEventCode (kindOf store) (NumericDue store backfillDays utc loc) key aggregates component
      code daily (U32.ofNat (finalDayIndex - backfillDays)) finalDayIndex := by
  have hadmitted := admitted_reportDayIndex hutc hlocal hfinal
  have hperiod := hadmitted.period
  refine ⟨(kindOf_eq_of_lookup hlookup).trans hkind,
    hcodes key aggregates hlookup component byEventCode hcomponent code daily hcode,
    hincreasing key _ (by rw [LocalAggregateStore.configOf, hlookup]; rfl), fun w hw => ?_,
    by rw [hperiod.1]; exact hperiod.2, by rw [hperiod.1]; exact Nat.sub_le _ _, hadmitted.1,
    fun w d => ?_⟩
  · exact (hvalid key aggregates hlookup _ (mem_dayWindowSizes.mp hw)).2
  · rw [NumericDue, backfillPeriodStart_eq hlookup hfinal, storedDays_eq hlookup hcomponent hcode,
      hperiod.1]

/-- The loops over components and event codes are a sweep. -/
private theorem generates_numericComponents {key : ReportAggregationKey}
    {aggregates : ReportAggregates} {finalDayIndex : ℕ}
    (hlookup : store.byReportKey.lookup key = some aggregates)
    (hfinal : reportDayIndex aggregates.aggregationConfig.metric.timeZonePolicy utc loc =
      some finalDayIndex)
    (hkind : reportKind aggregates.aggregationConfig = some .numeric) (s : GenState) :
    Generates (NumericSource (kindOf store)) (NumericDue store backfillDays utc loc) s
      (generateNumericComponents backend key aggregates (U32.ofNat (finalDayIndex - backfillDays))
        finalDayIndex s).2 := by
  refine Loop.runAll_rel Generates.refl (fun _ _ _ => Generates.trans)
    (fun byComponent hcomponent s => ?_) s
  refine Loop.runAll_rel Generates.refl (fun _ _ _ => Generates.trans)
    (fun byEventCode hcode s => ?_) s
  exact generates_numericEventCode (sweepsEventCode hutc hlocal hvalid hincreasing hcodes hlookup
    hfinal hkind (ProtoMap.mem_entries_iff.mp hcomponent) (ProtoMap.mem_entries_iff.mp hcode)) s

omit hutc hlocal hvalid hincreasing hcodes in
private theorem generates_participation (key : ReportAggregationKey)
    (aggregates : ReportAggregates) (start finalDayIndex : ℕ) (s : GenState) :
    Generates (NumericSource (kindOf store)) (NumericDue store backfillDays utc loc) s
      (generateParticipation backend key aggregates start finalDayIndex s).2 := by
  refine Loop.runAll_rel Generates.refl (fun _ _ _ => Generates.trans) (fun d _ s => ?_) s
  have hforeign : Foreign (NumericSource (kindOf store)) (.reportParticipation key) :=
    foreign_numericSource_reportParticipation key
  exact (generates_generateSingle_of_not hforeign.1 backend s).trans
    (generates_record_of_foreign hforeign d _)

/-- One report is a sweep of the observations from numeric aggregates. -/
private theorem generates_report_numeric {key : ReportAggregationKey}
    {aggregates : ReportAggregates} (hlookup : store.byReportKey.lookup key = some aggregates)
    (s : GenState) :
    Generates (NumericSource (kindOf store)) (NumericDue store backfillDays utc loc) s
      (generateReport backend backfillDays utc loc key aggregates s).2 := by
  rw [generateReport]
  split
  · exact .refl s
  · next finalDayIndex hfinal =>
    split
    · exact .refl s
    · split
      · next hkind =>
        have hunique := (kindOf_eq_of_lookup hlookup).trans hkind
        refine generateUniqueActivesObservations_rel Generates.refl
          (fun _ _ _ => Generates.trans) (fun w s hw _ => ?_) (fun code days d s _ =>
            generates_record_of_foreign (foreign_numericSource_of_uniqueActives hunique) d s) _ _ s
        obtain ⟨code, days, hw⟩ := hw
        refine generates_generateSingle_of_not ?_ backend s
        rw [hw]
        exact id
      · next hkind =>
        exact (generates_numericComponents hutc hlocal hvalid hincreasing hcodes hlookup hfinal
          hkind s).andThen fun s => generates_participation key aggregates _ _ s
      · exact .refl s

variable (backend) in
/-- A call sweeps the observations from numeric aggregates. -/
theorem generates_reports_numeric (s : GenState) :
    Generates (NumericSource (kindOf store)) (NumericDue store backfillDays utc loc) s
      (generateReports backend backfillDays utc loc store s).2 :=
  Loop.runAll_rel Generates.refl (fun _ _ _ => Generates.trans)
    (fun _ hreport s => generates_report_numeric hutc hlocal hvalid hincreasing hcodes
      (ProtoMap.mem_entries_iff.mp hreport) s) s

/-- A call that succeeds leaves nothing due. Every window of days of every component and event
code is generated up to the final day. -/
theorem le_mark_of_generateReports_numeric {s g : GenState}
    (hb : Bounded (NumericSource (kindOf store)) s.obsHistory)
    (hrun : generateReports backend backfillDays utc loc store s = (.kOK, g))
    {key : ReportAggregationKey} {aggregates : ReportAggregates} {finalDayIndex : ℕ}
    (hlookup : store.byReportKey.lookup key = some aggregates)
    (hfinal : reportDayIndex aggregates.aggregationConfig.metric.timeZonePolicy utc loc =
      some finalDayIndex)
    (hkind : reportKind aggregates.aggregationConfig = some .numeric) {component : String}
    {byEventCode : EventCodeAggregates}
    (hcomponent : aggregates.numericAggregates.lookup component = some byEventCode) {code : ℕ}
    {daily : DailyAggregates} (hcode : byEventCode.lookup code = some daily) {days : ℕ}
    (hdays : .days days ∈ aggregates.aggregationConfig.aggregationWindow) :
    finalDayIndex ≤ mark (NumericSource (kindOf store)) g.obsHistory
      (.numeric key component code days) := by
  have htrans : ∀ s t u, Generates (NumericSource (kindOf store))
      (NumericDue store backfillDays utc loc) s t → Generates _ _ t u → Generates _ _ s u :=
    fun _ _ _ => Generates.trans
  have hadmitted := admitted_reportDayIndex hutc hlocal hfinal
  obtain ⟨maxDays, hmax⟩ := exists_maxAggregationDays hadmitted (hvalid key aggregates hlookup)
    (List.ne_nil_of_mem hdays)
  have hmem : ProtoMap.entry key aggregates ∈ store.byReportKey.entries :=
    ProtoMap.mem_entries_iff.mpr hlookup
  have hmemc : ProtoMap.entry component byEventCode ∈ aggregates.numericAggregates.entries :=
    ProtoMap.mem_entries_iff.mpr hcomponent
  have hmeme : ProtoMap.entry code daily ∈ byEventCode.entries :=
    ProtoMap.mem_entries_iff.mpr hcode
  have hok : (generateReports backend backfillDays utc loc store s).1 = .kOK := by rw [hrun]
  -- the call succeeds, so it went through the report, the component and the event code
  obtain ⟨s₁, hs₁, hok₁, hg₁⟩ := Loop.runAll_ok_mem Generates.refl htrans
    (fun report hreport s => generates_report_numeric hutc hlocal hvalid hincreasing hcodes
      (ProtoMap.mem_entries_iff.mp hreport) s) hok hmem
  have hreport : generateReport backend backfillDays utc loc key aggregates s₁ =
      generateObsFromNumericAggregates backend key aggregates backfillDays finalDayIndex s₁ := by
    simp only [generateReport, hfinal, hmax, hkind]
  have hsweeps := fun {component byEventCode}
      (hcomponent : aggregates.numericAggregates.lookup component = some byEventCode)
      {code daily} (hcode : byEventCode.lookup code = some daily) =>
    sweepsEventCode hutc hlocal hvalid hincreasing hcodes hlookup hfinal hkind hcomponent hcode
  rw [hreport, generateObsFromNumericAggregates] at hok₁ hg₁
  obtain ⟨hok₂, hg₂⟩ := Generates.of_andThen hok₁
    (fun s => generates_participation key aggregates _ _ s) hg₁
  obtain ⟨s₃, hs₃, hok₃, hg₃⟩ := Loop.runAll_ok_mem Generates.refl htrans
    (fun byComponent hcomponent s => Loop.runAll_rel Generates.refl htrans
      (fun byEventCode hcode s => generates_numericEventCode
        (hsweeps (ProtoMap.mem_entries_iff.mp hcomponent) (ProtoMap.mem_entries_iff.mp hcode)) s) s)
    hok₂ hmemc
  obtain ⟨s₄, hs₄, hok₄, hg₄⟩ := Loop.runAll_ok_mem Generates.refl htrans
    (fun byEventCode hcode s => generates_numericEventCode
      (hsweeps hcomponent (ProtoMap.mem_entries_iff.mp hcode)) s) hok₃ hmeme
  have hb₄ := (hs₁.trans (hs₃.trans hs₄) hb).1
  have hle := le_mark_of_numericEventCode (hsweeps hcomponent hcode) hb₄ hok₄
    (mem_dayWindowSizes.mpr hdays)
  -- no later step of the call moves the watermark back
  obtain ⟨_, _, _, hsweep⟩ := hg₄.trans (hg₃.trans hg₂)
    (generates_numericEventCode (hsweeps hcomponent hcode) s₄ hb₄).1
  have hmono := hsweep.mono (.numeric key component code days)
  rw [← generateReports, hrun] at hmono
  exact hle.trans hmono

end Call

/-! ### Runs -/

/-- Events are aggregated under packed codes that fit into 32 bits. -/
def Call.CodeFits : Call → Prop
  | .updateNumericAggregate _ _ code _ _ => code < U32.size
  | _ => True

theorem WindowsIncreasing.of_configOf_eq {store' : LocalAggregateStore}
    (h : WindowsIncreasing store) (heq : ∀ key, store'.configOf key = store.configOf key) :
    WindowsIncreasing store' :=
  fun key config hconfig => h key config ((heq key).symm.trans hconfig)

theorem codesFit_iff :
    CodesFit store ↔ ∀ key component code, HasCode store key component code → code < U32.size := by
  constructor
  · rintro h key component code ⟨aggregates, byEventCode, daily, hlookup, hcomponent, hcode⟩
    exact h key aggregates hlookup component byEventCode hcomponent code daily hcode
  · intro h key aggregates hlookup component byEventCode hcomponent code daily hcode
    exact h key component code ⟨aggregates, byEventCode, daily, hlookup, hcomponent, hcode⟩

/-- A store without new codes, or with new codes that fit. -/
private theorem CodesFit.of_hasCode {store' : LocalAggregateStore} (hcodes : CodesFit store)
    (h : ∀ key component code, HasCode store' key component code →
      HasCode store key component code ∨ code < U32.size) : CodesFit store' := by
  rw [codesFit_iff] at hcodes ⊢
  intro key component code hcode
  rcases h key component code hcode with h | h
  · exact hcodes key component code h
  · exact h

private theorem Rehashed.codesFit {s s₁ : AggregateStore} (h : Rehashed s s₁)
    (hcodes : CodesFit s.localAggregateStore) : CodesFit s₁.localAggregateStore :=
  hcodes.of_hasCode fun _ _ _ hcode => Or.inl (h.hasCode hcode)

/-- Every call with a code that fits keeps the codes of the store so. -/
theorem codesFit_run {s s' : AggregateStore} {call : Call} {out : List Written}
    (hcodes : CodesFit s.localAggregateStore) (hcall : call.CodeFits)
    (h : Call.run s call = some (out, s')) : CodesFit s'.localAggregateStore := by
  cases call with
  | setActive key code d =>
    rw [← (Prod.mk.inj (Option.some.inj h)).2]
    exact hcodes.of_hasCode fun _ _ _ h => Or.inl (hasCode_setActive h)
  | updateNumericAggregate key component code d value =>
    rw [← (Prod.mk.inj (Option.some.inj h)).2]
    refine hcodes.of_hasCode fun _ _ _ h => (hasCode_updateNumericAggregate h).imp id ?_
    rintro ⟨_, _, rfl⟩
    exact hcall
  | garbageCollect utc loc =>
    obtain ⟨-, status, hgc⟩ := of_run_garbageCollect h
    exact hcodes.of_hasCode fun _ _ _ h => Or.inl (hasCode_garbageCollect hgc h)
  | generateObservations backend utc loc =>
    obtain ⟨status, hgen⟩ := of_run_generateObservations h
    obtain ⟨obsHistory, rfl⟩ := eq_of_generateObservations hgen
    exact hcodes

/-- The identity of an observation from numeric aggregates: report, component, packed event code,
window and day. -/
def Written.numericKey (w : Written) : Option (ReportAggregationKey × String × ℕ × ℕ × ℕ) :=
  match w.source with
  | .numeric key component code days => some (key, component, code, days, w.dayIndex)
  | _ => none

private theorem tracked_numericSource {out : List Written}
    (hfits : ∀ w ∈ out, ∀ key component code days, w.source = .numeric key component code days →
      NumericSource kind w.source) :
    tracked (NumericSource kind) out = (out.filterMap Written.numericKey).map
      fun x => (.numeric x.1 x.2.1 x.2.2.1 x.2.2.2.1, x.2.2.2.2) := by
  rw [tracked, List.map_filterMap]
  refine List.filterMap_congr fun w hw => ?_
  have hw := hfits w hw
  obtain ⟨source, d, o⟩ := w
  cases source with
  | uniqueActives key code days => exact if_neg id
  | numeric key component code days => exact if_pos (hw key component code days rfl)
  | reportParticipation key => exact if_neg id

/-- What a run from `s₀` keeps. -/
structure NumericInvariant (s₀ : AggregateStore) (out : List Written) (s : AggregateStore) :
    Prop where
  wellFormed : WellFormed s
  codes : CodesFit s.localAggregateStore
  config : ∀ key, s.localAggregateStore.configOf key = s₀.localAggregateStore.configOf key
  fits : ∀ w ∈ out, ∀ key component code days, w.source = .numeric key component code days →
    NumericSource (kindOf s₀.localAggregateStore) w.source
  fresh : Watermark.Fresh (mark (NumericSource (kindOf s₀.localAggregateStore)) s₀.obsHistory)
    (mark (NumericSource (kindOf s₀.localAggregateStore)) s.obsHistory)
    (tracked (NumericSource (kindOf s₀.localAggregateStore)) out)

private theorem NumericInvariant.step {s₀ s s' : AggregateStore} {out new : List Written}
    (hincreasing : WindowsIncreasing s₀.localAggregateStore) (h : NumericInvariant s₀ out s)
    (hstep : Step Call.CodeFits s new s') : NumericInvariant s₀ (out ++ new) s' := by
  have hwf := wellFormed_step hstep h.wellFormed
  have hconfig := fun key => (configOf_step hstep key).trans (h.config key)
  obtain ⟨s₁, call, hrehash, hcall, hrun⟩ := hstep
  have hcodes₁ := hrehash.codesFit h.codes
  have hconfig₁ := fun key => (hrehash.configOf_eq key).trans (h.config key)
  have hkind : kindOf s₁.localAggregateStore = kindOf s₀.localAggregateStore :=
    kindOf_eq_of_configOf_eq hconfig₁
  refine ⟨hwf, codesFit_run hcodes₁ hcall hrun, hconfig, fun w hw => ?_, ?_⟩
  · rcases List.mem_append.mp hw with hw | hw
    · exact h.fits w hw
    · intro key component code days hsource
      have hfits := (fits_of_run hrun w hw).1
      rw [hsource] at hfits ⊢
      obtain ⟨hnumeric, aggregates, byEventCode, daily, hlookup, hcomponent, hcode⟩ := hfits
      exact ⟨hkind ▸ hnumeric,
        hcodes₁ key aggregates hlookup component byEventCode hcomponent code daily hcode⟩
  · rw [tracked_append]
    have hfresh := fresh_of_run (L := NumericSource (kindOf s₀.localAggregateStore)) hrun ?_
    · rw [hrehash.obsHistory_eq] at hfresh
      exact h.fresh.trans hfresh
    intro backend utc loc status hgen
    obtain ⟨⟨hutc, hlocal⟩, g, hg, rfl, rfl⟩ := generateObservations_cases hgen
    have hwf₁ := hrehash.wellFormed h.wellFormed
    have hgenerates := generates_reports_numeric backend hutc hlocal hwf₁.windows
      (hincreasing.of_configOf_eq hconfig₁) hcodes₁ ⟨s₁.obsHistory, 0, []⟩
    rw [hg, hkind] at hgenerates
    exact (hgenerates.sweep_of_call (hwf₁.bounded _)).fresh

/-- **Observations from numeric aggregates are generated exactly once.** Start from any well-formed
store whose windows of days are strictly increasing and whose packed event codes fit into 32 bits,
and make any sequence of calls that aggregate such codes only, with any failures. No observation
is written twice. When a further call of `GenerateObservations` succeeds, then for every component
and event code in the store it reads, every window of days and every day of the backfill period
after the last generated one, it has written the observation if and only if some day of the window
that ends there has a stored value. -/
theorem numeric_exactly_once {s₀ s : AggregateStore} {out : List Written} (hwf : WellFormed s₀)
    (hincreasing : WindowsIncreasing s₀.localAggregateStore)
    (hcodes : CodesFit s₀.localAggregateStore) (hrun : Run (Step Call.CodeFits) s₀ out s) :
    (out.filterMap Written.numericKey).Nodup ∧
    ∀ s₁, Rehashed s s₁ → ∀ backend utc loc new s',
      generateObservations backend utc loc s₁ = some (.kOK, new, s') →
      ∀ key aggregates, s₁.localAggregateStore.byReportKey.lookup key = some aggregates →
      reportKind aggregates.aggregationConfig = some .numeric →
      ∀ finalDayIndex, reportDayIndex aggregates.aggregationConfig.metric.timeZonePolicy utc
        (localDayIndex utc loc) = some finalDayIndex →
      ∀ component byEventCode, aggregates.numericAggregates.lookup component = some byEventCode →
      ∀ code daily, byEventCode.lookup code = some daily →
      ∀ days, .days days ∈ aggregates.aggregationConfig.aggregationWindow →
      ∀ d, finalDayIndex - s₁.backfillDays ≤ d → d ≤ finalDayIndex →
      getPerDeviceNumericLastGeneratedDayIndex s₁.obsHistory key component code days < d →
      ((∃ w ∈ new, w.numericKey = some (key, component, code, days, d)) ↔
        hasValue daily d days) := by
  have hinv : NumericInvariant s₀ out s := by
    refine Run.invariant ?_ (fun _ _ _ _ h hstep => h.step hincreasing hstep) hrun
    exact ⟨hwf, hcodes, fun _ => rfl, fun w hw => absurd hw List.not_mem_nil,
      Watermark.Fresh.refl _⟩
  refine ⟨?_, ?_⟩
  · have hnodup := hinv.fresh.nodup
    rw [tracked_numericSource hinv.fits] at hnodup
    exact hnodup.of_map _
  · intro s₁ hrehash backend utc loc new s' hgen key aggregates hlookup hkind finalDayIndex hfinal
      component byEventCode hcomponent code daily hcode days hdays d hlo hhi hlast
    have hwf₁ := hrehash.wellFormed hinv.wellFormed
    have hcodes₁ := hrehash.codesFit hinv.codes
    have hincreasing₁ := hincreasing.of_configOf_eq fun key =>
      (hrehash.configOf_eq key).trans (hinv.config key)
    obtain ⟨⟨hutc, hlocal⟩, g, hg, rfl, rfl⟩ := generateObservations_cases hgen
    have hb := hwf₁.bounded (NumericSource (kindOf s₁.localAggregateStore))
    have hL : NumericSource (kindOf s₁.localAggregateStore) (.numeric key component code days) :=
      ⟨(kindOf_eq_of_lookup hlookup).trans hkind,
        hcodes₁ key aggregates hlookup component byEventCode hcomponent code daily hcode⟩
    have hle := le_mark_of_generateReports_numeric hutc hlocal hwf₁.windows hincreasing₁ hcodes₁ hb
      hg hlookup hfinal hkind hcomponent hcode hdays
    have hsweep := generates_reports_numeric backend hutc hlocal hwf₁.windows hincreasing₁ hcodes₁
      ⟨s₁.obsHistory, 0, []⟩
    rw [hg] at hsweep
    have hmem := (hsweep.sweep_of_call hb).mem_iff (.numeric key component code days) d
    rw [mem_tracked, NumericDue, storedDays_eq hlookup hcomponent hcode,
      backfillPeriodStart_eq hlookup hfinal, mark_of_mem hL] at hmem
    constructor
    · rintro ⟨w, hw, hkey⟩
      have hsource : w.source = .numeric key component code days ∧ w.dayIndex = d := by
        obtain ⟨source, day, o⟩ := w
        cases source <;> simp_all [Written.numericKey]
      exact (hmem.mp ⟨hL, w, hw, hsource⟩).1.2
    · intro hvalue
      obtain ⟨_, w, hw, hsource, hday⟩ := hmem.mpr ⟨⟨hlo, hvalue⟩, hlast, hhi.trans hle⟩
      exact ⟨w, hw, by simp only [Written.numericKey, hsource, hday]⟩

/-- A store with one numeric report, with windows of one and of seven days. -/
def numericStore : AggregateStore where
  localAggregateStore := ⟨1, AList.singleton ⟨1, 2, 3, 4⟩
    { type := .numericAggregates ∅
      aggregationConfig :=
        { project := ⟨1, 2⟩
          metric := { customerId := 1, projectId := 2, id := 3, metricType := .EVENT_COUNT }
          report := { id := 4, reportType := .PER_DEVICE_NUMERIC_STATS }
          aggregationWindow := [.days 1, .days 7] } }⟩
  emptyLocalAggregateStore := makeNewLocalAggregateStore
  obsHistory := makeNewObservationHistoryStore
  isDisabled := false
  backfillDays := 1
  backfillDays_le := one_le_kMaxAllowedBackfillDays

private theorem lookup_numericStore {key : ReportAggregationKey} {aggregates : ReportAggregates}
    (h : numericStore.localAggregateStore.byReportKey.lookup key = some aggregates) :
    aggregates.aggregationConfig.aggregationWindow = [.days 1, .days 7] ∧
      aggregates.numericAggregates = ∅ := by
  have hmem : ProtoMap.entry key aggregates ∈
      numericStore.localAggregateStore.byReportKey.entries := ProtoMap.mem_entries_iff.mpr h
  obtain ⟨rfl, rfl⟩ := Sigma.mk.inj (List.mem_singleton.mp hmem)
  exact ⟨rfl, rfl⟩

theorem wellFormed_numericStore : WellFormed numericStore := by
  refine ⟨fun key aggregates hlookup window hwindow => ?_,
    historyBounded_makeNewObservationHistoryStore⟩
  rw [(lookup_numericStore hlookup).1] at hwindow
  rcases List.mem_pair.mp hwindow with rfl | rfl <;> exact ⟨by decide, by decide⟩

/-- Events on two days; a generation whose second write fails, and one that finishes it. The window
of one day that ends on day 499 has no value. -/
theorem numeric_exactly_once_retry :
    ∃ out s, Run (Step Call.CodeFits) numericStore out s ∧
      out.filterMap Written.numericKey =
        [(⟨1, 2, 3, 4⟩, "c", 5, 7, 499), (⟨1, 2, 3, 4⟩, "c", 5, 1, 500),
          (⟨1, 2, 3, 4⟩, "c", 5, 7, 500)] ∧
      (out.filterMap Written.numericKey).Nodup := by
  have hincreasing : WindowsIncreasing numericStore.localAggregateStore := by
    intro key config hconfig
    obtain ⟨aggregates, hlookup, rfl⟩ := Option.map_eq_some_iff.mp hconfig
    rw [(lookup_numericStore hlookup).1]
    decide
  have hcodes : CodesFit numericStore.localAggregateStore := by
    intro key aggregates hlookup component byEventCode hcomponent
    rw [(lookup_numericStore hlookup).2] at hcomponent
    exact absurd hcomponent (by simp)
  have h₁ := (@Run.nil _ _ (Step Call.CodeFits) numericStore).snoc (.of_run
    (.updateNumericAggregate ⟨1, 2, 3, 4⟩ "c" 5 498 10) (by decide : 5 < U32.size) rfl)
  have h₂ := h₁.snoc (.of_run
    (.updateNumericAggregate ⟨1, 2, 3, 4⟩ "c" 5 500 20) (by decide : 5 < U32.size) rfl)
  have h₃ := h₂.snoc (.of_run (.generateObservations
    { Backend.reliable with writerStatus := fun n => if n = 1 then .kOther else .kOK } 500 500)
    trivial rfl)
  have h₄ := h₃.snoc (.of_run (.generateObservations .reliable 500 500) trivial rfl)
  exact ⟨_, _, h₄, rfl, (numeric_exactly_once wellFormed_numericStore hincreasing hcodes h₄).1⟩

end Cobalt.LocalAggregation
