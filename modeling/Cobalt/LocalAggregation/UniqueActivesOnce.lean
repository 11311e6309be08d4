import Cobalt.Lib.Run
import Cobalt.LocalAggregation.Sweeps

/-!
# Unique-actives observations are generated exactly once

Over every run of the store, whatever attempts fail and are repeated later, every unique-actives
observation is written at most once, and a call of `GenerateObservations` that succeeds has written
all that were due.

## Main definitions

* `UniqueSource`: the sources of unique-actives observations of a store.

## Main results

* `uniqueActives_exactly_once`.
-/

namespace Cobalt.LocalAggregation

variable {kind : ReportAggregationKey → Option ReportKind} {store : LocalAggregateStore}

/-- The sources of the unique-actives observations that are generated, given the kinds of the
reports. -/
def UniqueSource (kind : ReportAggregationKey → Option ReportKind) : ObservationSource → Prop
  | .uniqueActives key _ _ => kind key = some .uniqueActives
  | _ => False

instance (kind : ReportAggregationKey → Option ReportKind) : DecidablePred (UniqueSource kind)
  | .uniqueActives _ _ _ => inferInstanceAs (Decidable (_ = _))
  | .numeric _ _ _ _ => inferInstanceAs (Decidable False)
  | .reportParticipation _ => inferInstanceAs (Decidable False)

theorem UniqueSource.kind_eq {k : ObservationSource} (h : UniqueSource kind k) :
    kind k.reportKey = some .uniqueActives := by
  cases k with
  | uniqueActives => exact h
  | numeric => exact absurd h id
  | reportParticipation => exact absurd h id

theorem independent_uniqueSource (kind : ReportAggregationKey → Option ReportKind) :
    Independent (UniqueSource kind) := by
  intro history k k' v hk hk'
  cases k with
  | numeric => exact absurd hk id
  | reportParticipation => exact absurd hk id
  | uniqueActives key code days =>
    cases k' with
    | numeric => exact absurd hk' id
    | reportParticipation => exact absurd hk' id
    | uniqueActives key' code' days' =>
      simp only [getLastGenerated, setLastGenerated, getUniqueActives_setUniqueActives,
        ObservationSource.uniqueActives.injEq]

/-- Reports of another kind leave the unique-actives history of the others alone. -/
theorem foreign_uniqueSource {k : ObservationSource} (h : kind k.reportKey = some .numeric) :
    Foreign (UniqueSource kind) k := by
  refine ⟨fun hk => ?_, fun history v k' hk' => ?_⟩
  · rw [hk.kind_eq] at h
    exact absurd h (by decide)
  · refine getLastGenerated_setLastGenerated_of_ne (fun heq => ?_) v
    rw [← heq, hk'.kind_eq] at h
    exact absurd h (by decide)

/-! ### One event code and window -/

/-- Consecutive days of one source, all of them due, the first one next after its watermark. -/
private theorem feasible_range {L : ObservationSource → Prop} {P : ObservationSource → ℕ → Prop}
    {k : ObservationSource} (hk : L k) (o : ℕ → Observation) {m : ObservationSource → ℕ}
    {d n : ℕ} (hlt : m k < d) (hskip : ∀ e, m k < e → e < d → ¬ P k e)
    (hdue : ∀ e, d ≤ e → e < d + n → e < U32.max ∧ P k e) :
    Feasible L P m ((List.range' d n).map fun e => .generate k e (some (o e))) := by
  induction n generalizing d m with
  | zero => exact trivial
  | succ n ih =>
    rw [List.range'_succ, List.map_cons]
    obtain ⟨hmax, hP⟩ := hdue d le_rfl (by omega)
    refine ⟨⟨hk, hlt, hmax, hskip, by simpa using hP⟩, ih ?_ ?_ fun e hlo hhi => ?_⟩
    · rw [Function.update_self]
      exact Nat.lt_succ_self d
    · rw [Function.update_self]
      intro e hlo hhi
      omega
    · exact hdue e (by omega) (by omega)

section Window

variable {backend : Backend} {reportKey : ReportAggregationKey} {aggregates : ReportAggregates}
  {start finalDayIndex eventCode : ℕ} {P : ObservationSource → ℕ → Prop}
  (hkind : kindOf store reportKey = some .uniqueActives)
  (hP : ∀ code days d, P (.uniqueActives reportKey code days) d ↔ start ≤ d)
  (hstart : kMaxAllowedAggregationDays ≤ start) (hfinal : finalDayIndex < U32.max)
include hkind hP hstart hfinal

omit hstart in
variable (aggregates eventCode) in
private theorem feasible_uniqueActivesItems (days : ℕ) {s : GenState}
    (hb : Bounded (UniqueSource (kindOf store)) s.obsHistory) :
    Feasible (UniqueSource (kindOf store)) P (mark (UniqueSource (kindOf store)) s.obsHistory)
      (uniqueActivesItems reportKey aggregates start finalDayIndex eventCode days
        (getUniqueActivesLastGeneratedDayIndex s.obsHistory reportKey eventCode days)) := by
  have hL : UniqueSource (kindOf store) (.uniqueActives reportKey eventCode days) := hkind
  have hlast := hb _ hL
  refine feasible_range hL _ ?_ ?_ ?_
  · rw [mark_of_mem hL]
    exact ((firstDayIndex_le_iff hlast).mp le_rfl).1
  · rw [mark_of_mem hL]
    intro e hlo hhi hdue
    exact Nat.not_lt.mpr ((firstDayIndex_le_iff hlast).mpr ⟨hlo, (hP _ _ _).mp hdue⟩) hhi
  · intro e hlo hhi
    exact ⟨by omega, (hP _ _ _).mpr ((le_firstDayIndex _ _).trans hlo)⟩

/-- The loop over the days of one event code and window is a sweep. -/
theorem generates_uniqueActivesWindow (window : OnDeviceAggregationWindow) (s : GenState) :
    Generates (UniqueSource (kindOf store)) P s (generateUniqueActivesWindow backend reportKey aggregates
      start finalDayIndex eventCode window s).2 := by
  cases window with
  | unitsNotSet => exact .refl s
  | hours n => exact .refl s
  | days n =>
    by_cases hn : kMaxAllowedAggregationDays < n
    · rw [generateUniqueActivesWindow, if_pos hn]
      exact .refl s
    · intro hb
      rw [generateUniqueActivesWindow_eq (by omega) hstart hfinal]
      exact generates_runAll_items (independent_uniqueSource (kindOf store)) backend
        (feasible_uniqueActivesItems aggregates eventCode hkind hP hfinal n hb) hb

/-- A window that was worked off is generated up to the final day. -/
theorem le_getLastGenerated_of_uniqueActivesWindow {days : ℕ}
    (hdays : days ≤ kMaxAllowedAggregationDays) (hle : start ≤ finalDayIndex) {s : GenState}
    (hb : Bounded (UniqueSource (kindOf store)) s.obsHistory)
    (hok : (generateUniqueActivesWindow backend reportKey aggregates start finalDayIndex eventCode
      (.days days) s).1 = .kOK) :
    finalDayIndex ≤ mark (UniqueSource (kindOf store)) (generateUniqueActivesWindow backend
      reportKey aggregates start finalDayIndex eventCode (.days days) s).2.obsHistory
      (.uniqueActives reportKey eventCode days) := by
  have hL : UniqueSource (kindOf store) (.uniqueActives reportKey eventCode days) := hkind
  have hfeasible := feasible_uniqueActivesItems aggregates eventCode hkind hP hfinal days hb
  rw [generateUniqueActivesWindow_eq hdays hstart hfinal] at hok ⊢
  rcases Nat.lt_or_ge (getLastGenerated s.obsHistory (.uniqueActives reportKey eventCode days))
    finalDayIndex with hlt | hge
  · -- the final day is due, so there is an item for it
    have hfirst : firstDayIndex (getUniqueActivesLastGeneratedDayIndex s.obsHistory reportKey
        eventCode days) start ≤ finalDayIndex := (firstDayIndex_le_iff (hb _ hL)).mpr ⟨hlt, hle⟩
    exact le_getLastGenerated_of_mem_items (independent_uniqueSource (kindOf store)) hfeasible hb
      hok (List.mem_map.mpr ⟨finalDayIndex, List.mem_range'_1.mpr ⟨hfirst, by omega⟩, rfl⟩)
  · obtain ⟨_, _, _, hsweep⟩ := generates_runAll_items
      (independent_uniqueSource (kindOf store)) backend hfeasible hb
    refine le_trans ?_ (hsweep.mono (.uniqueActives reportKey eventCode days))
    rwa [mark_of_mem hL]

end Window

/-! ### A report and a call -/

/-- Observations are due from the start of the backfill period of their report on. -/
def UniqueActivesDue (store : LocalAggregateStore) (backfillDays utc loc : ℕ)
    (k : ObservationSource) (d : ℕ) : Prop :=
  backfillPeriodStart store backfillDays utc loc k.reportKey ≤ d

private theorem uniqueActivesDue_iff {backfillDays utc loc finalDayIndex : ℕ}
    {key : ReportAggregationKey} {aggregates : ReportAggregates}
    (hlookup : store.byReportKey.lookup key = some aggregates)
    (hfinal : reportDayIndex aggregates.aggregationConfig.metric.timeZonePolicy utc loc =
      some finalDayIndex) (hadmitted : Admitted backfillDays finalDayIndex) (code days d : ℕ) :
    UniqueActivesDue store backfillDays utc loc (.uniqueActives key code days) d ↔
      U32.ofNat (finalDayIndex - backfillDays) ≤ d := by
  rw [UniqueActivesDue, ObservationSource.reportKey, backfillPeriodStart_eq hlookup hfinal,
    hadmitted.period.1]

section Call

variable {backend : Backend} {backfillDays utc loc : ℕ}
  (hutc : Admitted backfillDays utc) (hlocal : Admitted backfillDays loc)
include hutc hlocal

variable (backend) in
private theorem generates_uniqueActives_windows {key : ReportAggregationKey}
    {aggregates : ReportAggregates} {finalDayIndex : ℕ}
    (hlookup : store.byReportKey.lookup key = some aggregates)
    (hfinal : reportDayIndex aggregates.aggregationConfig.metric.timeZonePolicy utc loc =
      some finalDayIndex)
    (hkind : reportKind aggregates.aggregationConfig = some .uniqueActives) (code : ℕ)
    (window : OnDeviceAggregationWindow) (s : GenState) :
    Generates (UniqueSource (kindOf store)) (UniqueActivesDue store backfillDays utc loc) s
      (generateUniqueActivesWindow backend key aggregates
        (U32.ofNat (finalDayIndex - backfillDays)) finalDayIndex code window s).2 := by
  have hadmitted := admitted_reportDayIndex hutc hlocal hfinal
  refine generates_uniqueActivesWindow ((kindOf_eq_of_lookup hlookup).trans hkind)
    (uniqueActivesDue_iff hlookup hfinal hadmitted) ?_ hadmitted.1 window s
  rw [hadmitted.period.1]
  exact hadmitted.period.2

/-- One report is a sweep of the unique-actives observations. -/
private theorem generates_report_uniqueActives {key : ReportAggregationKey}
    {aggregates : ReportAggregates} (hlookup : store.byReportKey.lookup key = some aggregates)
    (s : GenState) :
    Generates (UniqueSource (kindOf store)) (UniqueActivesDue store backfillDays utc loc) s
      (generateReport backend backfillDays utc loc key aggregates s).2 := by
  have hrefl : ∀ s, Generates (UniqueSource (kindOf store))
      (UniqueActivesDue store backfillDays utc loc) s s := Generates.refl
  have htrans : ∀ s t u, Generates (UniqueSource (kindOf store))
      (UniqueActivesDue store backfillDays utc loc) s t → Generates _ _ t u → Generates _ _ s u :=
    fun _ _ _ => Generates.trans
  rw [generateReport]
  split
  · exact hrefl s
  · next finalDayIndex hfinal =>
    split
    · exact hrefl s
    · split
      · next hkind =>
        refine Loop.runAll_rel hrefl htrans (fun code _ s => ?_) s
        refine Loop.runAll_rel hrefl htrans (fun window _ s => ?_) s
        exact generates_uniqueActives_windows backend hutc hlocal hlookup hfinal hkind code window s
      · next hkind =>
        have hnumeric := (kindOf_eq_of_lookup hlookup).trans hkind
        refine generateObsFromNumericAggregates_rel hrefl htrans
          (fun component byEventCode code daily _ _ w s hw _ => ?_)
          (fun component byEventCode code daily _ _ days d s _ =>
            generates_record_of_foreign (foreign_uniqueSource hnumeric) d s)
          (fun w s hw _ _ => htrans _ _ _ ?_
            (generates_record_of_foreign (foreign_uniqueSource hnumeric) w.dayIndex _)) _ s
        · obtain ⟨days, hw⟩ := hw
          exact generates_generateSingle_of_not (by rw [hw]; exact id) backend s
        · exact generates_generateSingle_of_not (by rw [hw]; exact id) backend s
      · exact hrefl s

variable (store backend) in
/-- A call sweeps the unique-actives observations. -/
theorem generates_reports_uniqueActives (s : GenState) :
    Generates (UniqueSource (kindOf store)) (UniqueActivesDue store backfillDays utc loc) s
      (generateReports backend backfillDays utc loc store s).2 :=
  Loop.runAll_rel Generates.refl (fun _ _ _ => Generates.trans)
    (fun _ hreport s => generates_report_uniqueActives hutc hlocal
      (ProtoMap.mem_entries_iff.mp hreport) s) s

/-- A call that succeeds leaves nothing due. Every window of days of every unique-actives
report is generated up to the final day. -/
theorem le_getLastGenerated_of_generateReports {s g : GenState}
    (hb : Bounded (UniqueSource (kindOf store)) s.obsHistory) (hvalid : WindowsValid store)
    (hrun : generateReports backend backfillDays utc loc store s = (.kOK, g))
    {key : ReportAggregationKey} {aggregates : ReportAggregates} {finalDayIndex : ℕ}
    (hlookup : store.byReportKey.lookup key = some aggregates)
    (hfinal : reportDayIndex aggregates.aggregationConfig.metric.timeZonePolicy utc loc =
      some finalDayIndex)
    (hkind : reportKind aggregates.aggregationConfig = some .uniqueActives) {code days : ℕ}
    (hcode : code < basicRapporNumCategories aggregates.aggregationConfig.metric)
    (hdays : .days days ∈ aggregates.aggregationConfig.aggregationWindow) :
    finalDayIndex ≤ mark (UniqueSource (kindOf store)) g.obsHistory
      (.uniqueActives key code days) := by
  have htrans : ∀ s t u, Generates (UniqueSource (kindOf store))
      (UniqueActivesDue store backfillDays utc loc) s t → Generates _ _ t u → Generates _ _ s u :=
    fun _ _ _ => Generates.trans
  have hadmitted := admitted_reportDayIndex hutc hlocal hfinal
  have hwindows := hvalid key aggregates hlookup
  have hstart := hadmitted.period
  obtain ⟨maxDays, hmax⟩ := exists_maxAggregationDays hadmitted hwindows (List.ne_nil_of_mem hdays)
  have hmem : ProtoMap.entry key aggregates ∈ store.byReportKey.entries :=
    ProtoMap.mem_entries_iff.mpr hlookup
  have hok : (generateReports backend backfillDays utc loc store s).1 = .kOK := by rw [hrun]
  -- the call succeeds, so it went through the report, the event code and the window
  obtain ⟨s₁, hs₁, hok₁, hg₁⟩ := Loop.runAll_ok_mem Generates.refl htrans
    (fun report hreport s => generates_report_uniqueActives hutc hlocal
      (ProtoMap.mem_entries_iff.mp hreport) s) hok hmem
  have hreport : generateReport backend backfillDays utc loc key aggregates s₁ =
      generateUniqueActivesObservations backend key aggregates backfillDays
        (basicRapporNumCategories aggregates.aggregationConfig.metric) finalDayIndex s₁ := by
    simp only [generateReport, hfinal, hmax, hkind]
  have hwindow := generates_uniqueActives_windows backend hutc hlocal hlookup hfinal hkind
  rw [hreport] at hok₁ hg₁
  obtain ⟨s₂, hs₂, hok₂, hg₂⟩ := Loop.runAll_ok_mem Generates.refl htrans
    (fun code _ s => Loop.runAll_rel Generates.refl htrans
      (fun window _ s => hwindow code window s) s) hok₁ (List.mem_range.mpr hcode)
  obtain ⟨s₃, hs₃, hok₃, hg₃⟩ := Loop.runAll_ok_mem Generates.refl htrans
    (fun window _ s => hwindow code window s) hok₂ hdays
  have hb₃ := (hs₁.trans (hs₂.trans hs₃) hb).1
  have hle := le_getLastGenerated_of_uniqueActivesWindow
    ((kindOf_eq_of_lookup hlookup).trans hkind) (uniqueActivesDue_iff hlookup hfinal hadmitted)
    (by rw [hstart.1]; exact hstart.2) hadmitted.1 (hwindows _ hdays).2
    (by rw [hstart.1]; exact Nat.sub_le _ _) hb₃ hok₃
  -- no later step of the call moves the watermark back
  obtain ⟨_, _, _, hsweep⟩ := hg₃.trans (hg₂.trans hg₁) (hwindow code _ s₃ hb₃).1
  have hmono := hsweep.mono (.uniqueActives key code days)
  rw [← generateReports, hrun] at hmono
  exact hle.trans hmono

end Call

/-! ### Runs -/

/-- The identity of a unique-actives observation: report, event code, window and day. -/
def Written.uniqueActivesKey (w : Written) : Option (ReportAggregationKey × ℕ × ℕ × ℕ) :=
  match w.source with
  | .uniqueActives key code days => some (key, code, days, w.dayIndex)
  | _ => none

private theorem tracked_uniqueSource {out : List Written}
    (hfits : ∀ w ∈ out, ∀ key code days, w.source = .uniqueActives key code days →
      kind key = some .uniqueActives) :
    tracked (UniqueSource kind) out = (out.filterMap Written.uniqueActivesKey).map
      fun x => (.uniqueActives x.1 x.2.1 x.2.2.1, x.2.2.2) := by
  rw [tracked, List.map_filterMap]
  refine List.filterMap_congr fun w hw => ?_
  have hw := hfits w hw
  obtain ⟨source, d, o⟩ := w
  cases source with
  | uniqueActives key code days => exact if_pos (hw key code days rfl)
  | numeric key component code days => exact if_neg id
  | reportParticipation key => exact if_neg id

/-- What a run from `s₀` keeps: the store stays well-formed with the same configurations, and the
observations so far lie between the first and the current watermarks. -/
structure UniqueActivesInvariant (s₀ : AggregateStore) (out : List Written) (s : AggregateStore) :
    Prop where
  wellFormed : WellFormed s
  config : ∀ key, s.localAggregateStore.configOf key = s₀.localAggregateStore.configOf key
  fits : ∀ w ∈ out, ∀ key code days, w.source = .uniqueActives key code days →
    kindOf s₀.localAggregateStore key = some .uniqueActives
  fresh : Watermark.Fresh (mark (UniqueSource (kindOf s₀.localAggregateStore)) s₀.obsHistory)
    (mark (UniqueSource (kindOf s₀.localAggregateStore)) s.obsHistory)
    (tracked (UniqueSource (kindOf s₀.localAggregateStore)) out)

private theorem UniqueActivesInvariant.step {allowed : Call → Prop} {s₀ s s' : AggregateStore}
    {out new : List Written} (h : UniqueActivesInvariant s₀ out s)
    (hstep : Step allowed s new s') :
    UniqueActivesInvariant s₀ (out ++ new) s' := by
  have hwf := wellFormed_step hstep h.wellFormed
  have hconfig := fun key => (configOf_step hstep key).trans (h.config key)
  obtain ⟨s₁, call, hrehash, _, hrun⟩ := hstep
  have hkind : kindOf s₁.localAggregateStore = kindOf s₀.localAggregateStore :=
    kindOf_eq_of_configOf_eq fun key => (hrehash.configOf_eq key).trans (h.config key)
  refine ⟨hwf, hconfig, fun w hw => ?_, ?_⟩
  · rcases List.mem_append.mp hw with hw | hw
    · exact h.fits w hw
    · intro key code days hsource
      have hfits := (fits_of_run hrun w hw).1
      rw [hsource] at hfits
      exact hkind ▸ hfits
  · rw [tracked_append]
    have hfresh := fresh_of_run (L := UniqueSource (kindOf s₀.localAggregateStore)) hrun ?_
    · rw [hrehash.obsHistory_eq] at hfresh
      exact h.fresh.trans hfresh
    intro backend utc loc status hgen
    obtain ⟨⟨hutc, hlocal⟩, g, hg, rfl, rfl⟩ := generateObservations_cases hgen
    have hgenerates := generates_reports_uniqueActives s₁.localAggregateStore backend hutc hlocal
      ⟨s₁.obsHistory, 0, []⟩
    rw [hg, hkind] at hgenerates
    exact (hgenerates.sweep_of_call ((hrehash.wellFormed h.wellFormed).bounded _)).fresh

/-- **Unique-actives observations are generated exactly once.** Start from any well-formed store and
make any sequence of calls, with any failures. No unique-actives observation is written twice, and
no last generated day of a unique-actives report goes back. When a further call of
`GenerateObservations` succeeds, it has written, for every such report with a valid time zone
policy, every event code and every window of days, the observations of all days of the backfill
period after the last generated one. -/
theorem uniqueActives_exactly_once {s₀ s : AggregateStore} {out : List Written}
    (hwf : WellFormed s₀) (hrun : Run (Step fun _ => True) s₀ out s) :
    (out.filterMap Written.uniqueActivesKey).Nodup ∧
    (∀ key config, s₀.localAggregateStore.configOf key = some config →
      config.metric.metricType = .EVENT_OCCURRED →
      config.report.reportType = .UNIQUE_N_DAY_ACTIVES → ∀ code days,
      getUniqueActivesLastGeneratedDayIndex s₀.obsHistory key code days ≤
        getUniqueActivesLastGeneratedDayIndex s.obsHistory key code days) ∧
    ∀ s₁, Rehashed s s₁ → ∀ backend utc loc new s',
      generateObservations backend utc loc s₁ = some (.kOK, new, s') →
      ∀ key aggregates, s₁.localAggregateStore.byReportKey.lookup key = some aggregates →
      aggregates.aggregationConfig.metric.metricType = .EVENT_OCCURRED →
      aggregates.aggregationConfig.report.reportType = .UNIQUE_N_DAY_ACTIVES →
      ∀ finalDayIndex, reportDayIndex aggregates.aggregationConfig.metric.timeZonePolicy utc
        (localDayIndex utc loc) = some finalDayIndex →
      ∀ code < basicRapporNumCategories aggregates.aggregationConfig.metric,
      ∀ days, .days days ∈ aggregates.aggregationConfig.aggregationWindow →
      ∀ d, finalDayIndex - s₁.backfillDays ≤ d → d ≤ finalDayIndex →
      getUniqueActivesLastGeneratedDayIndex s₁.obsHistory key code days < d →
      ∃ w ∈ new, w.uniqueActivesKey = some (key, code, days, d) := by
  have hinv : UniqueActivesInvariant s₀ out s := by
    refine Run.invariant ?_ (fun _ _ _ _ h hstep => h.step hstep) hrun
    exact ⟨hwf, fun _ => rfl, fun w hw => absurd hw List.not_mem_nil, Watermark.Fresh.refl _⟩
  refine ⟨?_, ?_, ?_⟩
  · have hnodup := hinv.fresh.nodup
    rw [tracked_uniqueSource hinv.fits] at hnodup
    exact hnodup.of_map _
  · intro key config hconfig hmetric hreport code days
    have hL : UniqueSource (kindOf s₀.localAggregateStore) (.uniqueActives key code days) := by
      simp only [UniqueSource, kindOf, hconfig, Option.bind_some, reportKind, hmetric, hreport]
    have hmono := hinv.fresh.mono (.uniqueActives key code days)
    rwa [mark_of_mem hL, mark_of_mem hL] at hmono
  · intro s₁ hrehash backend utc loc new s' hgen key aggregates hlookup hmetric hreport
      finalDayIndex hfinal code hcode days hdays d hlo hhi hlast
    have hwf₁ := hrehash.wellFormed hinv.wellFormed
    have hkind : reportKind aggregates.aggregationConfig = some .uniqueActives := by
      simp only [reportKind, hmetric, hreport]
    obtain ⟨⟨hutc, hlocal⟩, g, hg, rfl, rfl⟩ := generateObservations_cases hgen
    have hb := hwf₁.bounded (UniqueSource (kindOf s₁.localAggregateStore))
    have hL : UniqueSource (kindOf s₁.localAggregateStore) (.uniqueActives key code days) :=
      (kindOf_eq_of_lookup hlookup).trans hkind
    have hle := le_getLastGenerated_of_generateReports hutc hlocal hb hwf₁.windows hg hlookup
      hfinal hkind hcode hdays
    have hsweep := generates_reports_uniqueActives s₁.localAggregateStore backend hutc hlocal
      ⟨s₁.obsHistory, 0, []⟩
    rw [hg] at hsweep
    have hdue : UniqueActivesDue s₁.localAggregateStore s₁.backfillDays utc
        (localDayIndex utc loc) (.uniqueActives key code days) d := by
      rw [UniqueActivesDue, ObservationSource.reportKey, backfillPeriodStart_eq hlookup hfinal]
      exact hlo
    have hmem := (hsweep.sweep_of_call hb).mem_of_le hdue (by rwa [mark_of_mem hL])
      (hhi.trans hle)
    obtain ⟨_, w, hw, hsource, hday⟩ := mem_tracked.mp hmem
    exact ⟨w, hw, by simp only [Written.uniqueActivesKey, hsource, hday]⟩

/-- A store with one unique-actives report with a window of seven days for one event code. -/
def uniqueActivesStore : AggregateStore where
  localAggregateStore := ⟨1, AList.singleton ⟨1, 2, 3, 4⟩
    { type := .uniqueActivesAggregates ∅
      aggregationConfig :=
        { project := ⟨1, 2⟩
          metric := { customerId := 1, projectId := 2, id := 3, metricType := .EVENT_OCCURRED,
                      metricDimensions := [⟨0, []⟩] }
          report := { id := 4, reportType := .UNIQUE_N_DAY_ACTIVES }
          aggregationWindow := [.days 7] } }⟩
  emptyLocalAggregateStore := makeNewLocalAggregateStore
  obsHistory := makeNewObservationHistoryStore
  isDisabled := false
  backfillDays := 1
  backfillDays_le := one_le_kMaxAllowedBackfillDays

theorem wellFormed_uniqueActivesStore : WellFormed uniqueActivesStore := by
  refine ⟨fun key aggregates hlookup window hwindow => ?_,
    historyBounded_makeNewObservationHistoryStore⟩
  have hmem : ProtoMap.entry key aggregates ∈
      uniqueActivesStore.localAggregateStore.byReportKey.entries :=
    ProtoMap.mem_entries_iff.mpr hlookup
  obtain ⟨rfl, rfl⟩ := Sigma.mk.inj (List.mem_singleton.mp hmem)
  rw [List.mem_singleton.mp hwindow]
  exact ⟨by decide, by decide⟩

/-- Active on day 500; a generation whose second write fails, and one that finishes it. -/
theorem uniqueActives_exactly_once_retry :
    ∃ out s, Run (Step fun _ => True) uniqueActivesStore out s ∧
      out.filterMap Written.uniqueActivesKey =
        [(⟨1, 2, 3, 4⟩, 0, 7, 499), (⟨1, 2, 3, 4⟩, 0, 7, 500)] ∧
      (out.filterMap Written.uniqueActivesKey).Nodup := by
  have h₁ := (@Run.nil _ _ (Step fun _ => True) uniqueActivesStore).snoc
    (.of_run (.setActive ⟨1, 2, 3, 4⟩ 0 500) trivial rfl)
  have h₂ := h₁.snoc (.of_run (.generateObservations
    { Backend.reliable with writerStatus := fun n => if n = 1 then .kOther else .kOK } 500 500)
    trivial rfl)
  have h₃ := h₂.snoc (.of_run (.generateObservations .reliable 500 500) trivial rfl)
  exact ⟨_, _, h₃, rfl, (uniqueActives_exactly_once wellFormed_uniqueActivesStore h₃).1⟩

end Cobalt.LocalAggregation
