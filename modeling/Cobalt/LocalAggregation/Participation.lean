import Cobalt.LocalAggregation.NumericOnce

/-!
# Observations about the participation in a report

For every numeric report and every day there is to be an observation that says that the device takes
part in the report. The loop over the days ignores the status of an attempt and records the day in
any case, so that an observation whose attempt fails is lost: the next call starts after the
recorded day.

When no attempt at such an observation fails, all days that are recorded were written, whatever
happens to the other observations.

## Main definitions

* `participationAttempts`: the attempts of a call that are for observations of this kind.
* `ParticipationStep`: a call in which none of these attempts fails.
* `Participates`: what a call does to the recorded days.

## Main results

* `participates_generateReports`: a call in which none of the attempts fails.
* `participation_of_generateObservations`: the day that a call records is the final day of the report.
* `participation_written`: in a run every recorded day was written.
* `participation_lost`: a day that is recorded and never written.
-/

namespace Cobalt.LocalAggregation

/-! ### The attempts at participation observations -/

/-- The attempt succeeds. -/
def Backend.Succeeds (backend : Backend) (attempt : ℕ) : Prop :=
  backend.encoderStatus attempt = .kOK ∧ backend.encoderHasResult attempt = true ∧
    backend.writerStatus attempt = .kOK

instance (backend : Backend) : DecidablePred backend.Succeeds :=
  fun _ => inferInstanceAs (Decidable (_ ∧ _ ∧ _))

theorem generateSingle_of_succeeds {backend : Backend} {s : GenState}
    (h : backend.Succeeds s.attempts) (w : Written) :
    generateSingle backend w s =
      (.kOK, { s with attempts := s.attempts + 1, written := s.written ++ [w] }) := by
  simp [generateSingle, h.1, h.2.1, h.2.2]

section Attempts

variable (backend : Backend) (backfillDays utc loc : ℕ)

/-- The attempts at participation observations while one report is worked off. They come after those
of the aggregates, one for each day of the backfill period that is not recorded yet. -/
def participationAttemptsOf (key : ReportAggregationKey) (aggregates : ReportAggregates)
    (s : GenState) : List ℕ :=
  let config := aggregates.aggregationConfig
  match reportDayIndex config.metric.timeZonePolicy utc loc with
  | none => []
  | some finalDayIndex =>
    match maxAggregationDays config.aggregationWindow finalDayIndex, reportKind config with
    | some _, some .numeric =>
      let start := U32.ofNat (finalDayIndex - backfillDays)
      let r := generateNumericComponents backend key aggregates start finalDayIndex s
      let first := firstDayIndex (getReportParticipationLastGeneratedDayIndex r.2.obsHistory key)
        start
      if r.1 = .kOK then List.range' r.2.attempts (finalDayIndex + 1 - first) else []
    | _, _ => []

/-- The attempts at participation observations in a call, up to the report that fails. -/
def participationAttempts : List ((_ : ReportAggregationKey) × ReportAggregates) → GenState → List ℕ
  | [], _ => []
  | report :: reports, s =>
    let r := generateReport backend backfillDays utc loc report.1 report.2 s
    participationAttemptsOf backend backfillDays utc loc report.1 report.2 s ++
      if r.1 = .kOK then participationAttempts reports r.2 else []

end Attempts

/-! ### What a call records -/

/-- The day that a report is generated up to. -/
def finalDayOf (store : LocalAggregateStore) (utc loc : ℕ) (key : ReportAggregationKey) : Option ℕ :=
  (store.configOf key).bind fun config => reportDayIndex config.metric.timeZonePolicy utc loc

/-- From `s` to `s'` the recorded day of a report stays as it is, or it moves forward to the final
day of the report. If `ok`, the observations for the days of the backfill period in between are
written. -/
def Participates (store : LocalAggregateStore) (backfillDays utc loc : ℕ) (ok : Prop)
    (s s' : GenState) : Prop :=
  HistoryBounded s.obsHistory → HistoryBounded s'.obsHistory ∧
    ∃ new, s'.written = s.written ++ new ∧ ∀ key,
      let last := getReportParticipationLastGeneratedDayIndex s.obsHistory key
      let last' := getReportParticipationLastGeneratedDayIndex s'.obsHistory key
      last' = last ∨ (last < last' ∧ finalDayOf store utc loc key = some last' ∧
        (ok → ∀ e, last < e → last' - backfillDays ≤ e → e ≤ last' →
          ∃ w ∈ new, w.source = .reportParticipation key ∧ w.dayIndex = e))

variable {store : LocalAggregateStore} {backend : Backend} {backfillDays utc loc : ℕ} {ok : Prop}
  {s t u : GenState}

theorem Participates.refl (s : GenState) : Participates store backfillDays utc loc ok s s :=
  fun hb => ⟨hb, [], (List.append_nil _).symm, fun _ => Or.inl rfl⟩

theorem Participates.trans (h₁ : Participates store backfillDays utc loc ok s t)
    (h₂ : Participates store backfillDays utc loc ok t u) :
    Participates store backfillDays utc loc ok s u := by
  intro hbounded
  obtain ⟨hbounded₁, a, ha, hkeys₁⟩ := h₁ hbounded
  obtain ⟨hbounded₂, b, hb, hkeys₂⟩ := h₂ hbounded₁
  refine ⟨hbounded₂, a ++ b, by rw [hb, ha, List.append_assoc], fun key => ?_⟩
  have hleft {e : ℕ} : (∃ w ∈ a, w.source = .reportParticipation key ∧ w.dayIndex = e) →
      ∃ w ∈ a ++ b, w.source = .reportParticipation key ∧ w.dayIndex = e := by
    rintro ⟨w, hw, h⟩
    exact ⟨w, List.mem_append_left _ hw, h⟩
  have hright {e : ℕ} : (∃ w ∈ b, w.source = .reportParticipation key ∧ w.dayIndex = e) →
      ∃ w ∈ a ++ b, w.source = .reportParticipation key ∧ w.dayIndex = e := by
    rintro ⟨w, hw, h⟩
    exact ⟨w, List.mem_append_right _ hw, h⟩
  dsimp only
  rcases hkeys₁ key with heq₁ | ⟨hlt₁, hfinal₁, hdays₁⟩
  · rcases hkeys₂ key with heq₂ | ⟨hlt₂, hfinal₂, hdays₂⟩
    · exact Or.inl (heq₂.trans heq₁)
    · rw [heq₁] at hlt₂ hdays₂
      exact Or.inr ⟨hlt₂, hfinal₂, fun hok e hlo hb he => hright (hdays₂ hok e hlo hb he)⟩
  · rcases hkeys₂ key with heq₂ | ⟨hlt₂, hfinal₂, hdays₂⟩
    · rw [heq₂]
      exact Or.inr ⟨hlt₁, hfinal₁, fun hok e hlo hb he => hleft (hdays₁ hok e hlo hb he)⟩
    · rw [hfinal₂] at hfinal₁
      exact absurd (Option.some.inj hfinal₁) hlt₂.ne'

theorem participates_generateSingle (w : Written) (s : GenState) :
    Participates store backfillDays utc loc ok s (generateSingle backend w s).2 := by
  intro hb
  rcases generateSingle_cases backend w s with ⟨_, hs⟩ | hs
  · rw [hs]
    exact ⟨hb, [], (List.append_nil _).symm, fun _ => Or.inl rfl⟩
  · rw [hs]
    exact ⟨hb, [w], rfl, fun _ => Or.inl rfl⟩

/-- Days that can be recorded keep the history bounded. -/
theorem historyBounded_setLastGenerated {history : AggregatedObservationHistoryStore}
    (h : HistoryBounded history) (k : ObservationSource) {d : ℕ} (hd : d < U32.max) :
    HistoryBounded (setLastGenerated k d history) := by
  intro k'
  rcases getLastGenerated_setLastGenerated_cases history k k' d with hv | hv | hv
  · exact hv.trans_lt hd
  · exact hv.trans_lt (h k')
  · exact hv.trans_lt (by decide)

/-- The other histories are kept apart. -/
theorem participates_record {k : ObservationSource} (hk : ∀ key, k ≠ .reportParticipation key)
    {d : ℕ} (hd : d < U32.max) (s : GenState) :
    Participates store backfillDays utc loc ok s (record (setLastGenerated k d) s).2 := by
  refine fun hb => ⟨historyBounded_setLastGenerated hb k hd, [], (List.append_nil _).symm,
    fun key => Or.inl ?_⟩
  cases k with
  | uniqueActives => exact getReportParticipation_setUniqueActives ..
  | numeric => exact getReportParticipation_setPerDeviceNumeric ..
  | reportParticipation key' => exact absurd rfl (hk key')

/-! ### The loop over the days -/

section Days

variable (key : ReportAggregationKey) (aggregates : ReportAggregates)

/-- A day is recorded whether or not the attempt succeeds. -/
theorem generateParticipationDay_cases (backend : Backend) (d : ℕ) (s : GenState) :
    (generateParticipationDay backend key aggregates d s).1 = .kOK ∧
      (generateParticipationDay backend key aggregates d s).2.obsHistory =
        setReportParticipationLastGeneratedDayIndex s.obsHistory key d ∧
      (generateParticipationDay backend key aggregates d s).2.attempts = s.attempts + 1 ∧
      ∃ new, (generateParticipationDay backend key aggregates d s).2.written = s.written ++ new ∧
        (backend.Succeeds s.attempts →
          new = [reportParticipationWritten key aggregates.aggregationConfig d]) := by
  rw [generateParticipationDay, generateSingleReportParticipationObservation]
  by_cases hok : backend.Succeeds s.attempts
  · rw [generateSingle_of_succeeds hok]
    exact ⟨rfl, rfl, rfl, _, rfl, fun _ => rfl⟩
  · rcases generateSingle_cases backend
      (reportParticipationWritten key aggregates.aggregationConfig d) s with ⟨_, hs⟩ | hs
    · rw [hs]
      exact ⟨rfl, rfl, rfl, [], (List.append_nil _).symm, fun h => absurd h hok⟩
    · rw [hs]
      exact ⟨rfl, rfl, rfl, _, rfl, fun h => absurd h hok⟩

/-- The loop over consecutive days. -/
theorem runAll_generateParticipationDay (n d : ℕ) (s : GenState)
    (hok : ok → ∀ attempt ∈ List.range' s.attempts n, backend.Succeeds attempt) :
    let r := Loop.runAll .kOK (generateParticipationDay backend key aggregates) (List.range' d n) s
    (∃ new, r.2.written = s.written ++ new ∧ (ok →
      ∀ e, d ≤ e → e < d + n → ∃ w ∈ new, w.source = .reportParticipation key ∧ w.dayIndex = e)) ∧
    (HistoryBounded s.obsHistory → d + n ≤ U32.max → HistoryBounded r.2.obsHistory) ∧
    ∀ key', getReportParticipationLastGeneratedDayIndex r.2.obsHistory key' =
      if key' = key ∧ 0 < n then d + n - 1
      else getReportParticipationLastGeneratedDayIndex s.obsHistory key' := by
  induction n generalizing d s with
  | zero => exact ⟨⟨[], (List.append_nil _).symm, by omega⟩, fun h _ => h, by simp⟩
  | succ n ih =>
    rw [List.range'_succ] at hok ⊢
    obtain ⟨hstatus, hhistory, hattempts, first, hfirst, hwritten⟩ :=
      generateParticipationDay_cases key aggregates backend d s
    rw [Loop.runAll_cons_of_ok hstatus]
    obtain ⟨⟨new, hnew, hdays⟩, hbounded, hlast⟩ := ih (d + 1)
      (generateParticipationDay backend key aggregates d s).2 fun h attempt hattempt => by
        rw [hattempts] at hattempt
        exact hok h attempt (List.mem_cons_of_mem _ hattempt)
    rw [hhistory] at hbounded hlast
    refine ⟨⟨first ++ new, ?_, ?_⟩, ?_, ?_⟩
    · rw [hnew, hfirst, List.append_assoc]
    · intro h e hlo hhi
      rcases Nat.eq_or_lt_of_le hlo with rfl | hlo
      · rw [hwritten (hok h _ List.mem_cons_self)]
        exact ⟨_, List.mem_cons_self, rfl, rfl⟩
      · obtain ⟨w, hw, hsource⟩ := hdays h e hlo (by omega)
        exact ⟨w, List.mem_append_right _ hw, hsource⟩
    · intro hb hmax
      exact hbounded (historyBounded_setLastGenerated hb (.reportParticipation key) (by omega))
        (by omega)
    · intro key'
      rw [hlast key', getReportParticipation_setReportParticipation]
      by_cases hkey : key' = key
      · simp only [hkey, true_and, Nat.zero_lt_succ, if_true]
        split_ifs <;> omega
      · simp [hkey]

/-- The days of one report. Afterwards the report is recorded up to the final day. -/
theorem participates_generateParticipation {finalDayIndex : ℕ}
    (hfinal : finalDayOf store utc loc key = some finalDayIndex)
    (hadmitted : Admitted backfillDays finalDayIndex) (s : GenState)
    (hok : ok → ∀ attempt ∈ List.range' s.attempts (finalDayIndex + 1 -
      firstDayIndex (getReportParticipationLastGeneratedDayIndex s.obsHistory key)
        (U32.ofNat (finalDayIndex - backfillDays))), backend.Succeeds attempt) :
    Participates store backfillDays utc loc ok s (generateParticipation backend key aggregates
        (U32.ofNat (finalDayIndex - backfillDays)) finalDayIndex s).2 ∧
      (HistoryBounded s.obsHistory → finalDayIndex ≤ getReportParticipationLastGeneratedDayIndex
        (generateParticipation backend key aggregates (U32.ofNat (finalDayIndex - backfillDays))
          finalDayIndex s).2.obsHistory key) := by
  suffices h : HistoryBounded s.obsHistory → _ ∧ _ from ⟨fun hb => (h hb).1, fun hb => (h hb).2⟩
  intro hb
  have hlast : getReportParticipationLastGeneratedDayIndex s.obsHistory key < U32.max :=
    hb (.reportParticipation key)
  have hfirst (d : ℕ) : firstDayIndex (getReportParticipationLastGeneratedDayIndex s.obsHistory key)
      (finalDayIndex - backfillDays) ≤ d ↔
        getReportParticipationLastGeneratedDayIndex s.obsHistory key < d ∧
          finalDayIndex - backfillDays ≤ d := firstDayIndex_le_iff hlast
  rw [hadmitted.period.1] at hok ⊢
  obtain ⟨⟨new, hnew, hdays⟩, hbounded, hget⟩ := runAll_generateParticipationDay key aggregates _
    (firstDayIndex (getReportParticipationLastGeneratedDayIndex s.obsHistory key)
      (finalDayIndex - backfillDays)) s hok
  rw [generateParticipation]
  generalize firstDayIndex (getReportParticipationLastGeneratedDayIndex s.obsHistory key)
    (finalDayIndex - backfillDays) = first at *
  by_cases hdue : first ≤ finalDayIndex
  · have hmax := hadmitted.1
    have hpos : 0 < finalDayIndex + 1 - first := by omega
    have hend : first + (finalDayIndex + 1 - first) - 1 = finalDayIndex := by omega
    have hkey := hget key
    rw [if_pos ⟨rfl, hpos⟩, hend] at hkey
    refine ⟨⟨hbounded hb (by omega), new, hnew, fun key' => ?_⟩, hkey.ge⟩
    dsimp only
    by_cases heq : key' = key
    · subst heq
      rw [hkey]
      refine Or.inr ⟨((hfirst _).mp hdue).1, hfinal, fun h e hlo hback he => ?_⟩
      exact hdays h e ((hfirst e).mpr ⟨hlo, hback⟩) (by omega)
    · exact Or.inl (by simp [hget key', heq])
  · have hzero : finalDayIndex + 1 - first = 0 := by omega
    have hrecorded : finalDayIndex ≤ getReportParticipationLastGeneratedDayIndex s.obsHistory key := by
      by_contra hlt
      exact hdue ((hfirst _).mpr ⟨not_le.mp hlt, Nat.sub_le _ _⟩)
    rw [hzero]
    exact ⟨Participates.refl s hb, hrecorded⟩

end Days

/-! ### A whole call -/

section Call

variable (hutc : Admitted backfillDays utc) (hlocal : Admitted backfillDays loc)
include hutc hlocal

/-- One report. Afterwards a numeric report whose windows are valid is recorded up to the final
day, unless the call returns. -/
theorem participates_generateReport (backend : Backend) {key : ReportAggregationKey}
    {aggregates : ReportAggregates}
    (hlookup : store.byReportKey.lookup key = some aggregates) (s : GenState)
    (hok : ok → ∀ attempt ∈ participationAttemptsOf backend backfillDays utc loc key aggregates s,
      backend.Succeeds attempt) :
    Participates store backfillDays utc loc ok s
        (generateReport backend backfillDays utc loc key aggregates s).2 ∧
      ∀ finalDayIndex maxDays, finalDayOf store utc loc key = some finalDayIndex →
        maxAggregationDays aggregates.aggregationConfig.aggregationWindow finalDayIndex =
          some maxDays → reportKind aggregates.aggregationConfig = some .numeric →
        (generateReport backend backfillDays utc loc key aggregates s).1 = .kOK →
        HistoryBounded s.obsHistory → finalDayIndex ≤ getReportParticipationLastGeneratedDayIndex
          (generateReport backend backfillDays utc loc key aggregates s).2.obsHistory key := by
  have hrefl : ∀ s, Participates store backfillDays utc loc ok s s := Participates.refl
  have htrans : ∀ s t u, Participates store backfillDays utc loc ok s t →
      Participates store backfillDays utc loc ok t u →
      Participates store backfillDays utc loc ok s u := fun _ _ _ => Participates.trans
  have hfinalDay : finalDayOf store utc loc key =
      reportDayIndex aggregates.aggregationConfig.metric.timeZonePolicy utc loc := by
    rw [finalDayOf, LocalAggregateStore.configOf, hlookup, Option.map_some, Option.bind_some]
  unfold generateReport
  unfold participationAttemptsOf at hok
  dsimp only at hok ⊢
  cases hday : reportDayIndex aggregates.aggregationConfig.metric.timeZonePolicy utc loc with
  | none => exact ⟨hrefl s, by simp [hfinalDay, hday]⟩
  | some finalDayIndex =>
    have hadmitted := admitted_reportDayIndex hutc hlocal hday
    have hmax : finalDayIndex < U32.max := hadmitted.1
    rw [hday] at hok hfinalDay
    dsimp only at hok ⊢
    cases hwindows : maxAggregationDays aggregates.aggregationConfig.aggregationWindow
        finalDayIndex with
    | none =>
      refine ⟨hrefl s, fun final maxDays hfinal hmaxDays => ?_⟩
      obtain rfl := Option.some.inj (hfinalDay.symm.trans hfinal)
      exact absurd (hwindows.symm.trans hmaxDays) (by simp)
    | some maxDays =>
      rw [hwindows] at hok
      cases hkind : reportKind aggregates.aggregationConfig with
      | none => exact ⟨hrefl s, by simp⟩
      | some kind =>
        rw [hkind] at hok
        cases kind with
        | uniqueActives =>
          refine ⟨?_, by simp⟩
          exact generateUniqueActivesObservations_rel hrefl htrans
            (fun w s _ _ => participates_generateSingle w s)
            (fun code days d s hd => participates_record (by simp) (hd.trans_lt hmax) s) _ _ s
        | numeric =>
          have hcomponents : Participates store backfillDays utc loc ok s
              (generateNumericComponents backend key aggregates
                (U32.ofNat (finalDayIndex - backfillDays)) finalDayIndex s).2 :=
            generateNumericComponents_rel hrefl htrans
              (fun _ _ _ _ _ _ w s _ _ => participates_generateSingle w s)
              (fun component _ code _ _ _ days d s hd =>
                participates_record (by simp) (hd.trans_lt hmax) s) _ s
          dsimp only at hok ⊢
          rw [generateObsFromNumericAggregates, andThen]
          split_ifs with hstatus
          · rw [if_pos hstatus] at hok
            obtain ⟨hdays, hrecorded⟩ :=
              participates_generateParticipation key aggregates hfinalDay hadmitted _ hok
            refine ⟨hcomponents.trans hdays, fun final _ hfinal _ _ _ hb => ?_⟩
            obtain rfl := Option.some.inj (hfinalDay.symm.trans hfinal)
            exact hrecorded (hcomponents hb).1
          · exact ⟨hcomponents, fun _ _ _ _ _ hok => absurd hok hstatus⟩

/-- A call. If `ok`, no attempt at a participation observation fails. -/
theorem participates_generateReports (s : GenState)
    (hok : ok → ∀ attempt ∈ participationAttempts backend backfillDays utc loc
      store.byReportKey.entries s, backend.Succeeds attempt) :
    Participates store backfillDays utc loc ok s
      (generateReports backend backfillDays utc loc store s).2 := by
  have hloop (reports : List ((_ : ReportAggregationKey) × ReportAggregates))
      (hreports : ∀ report ∈ reports, store.byReportKey.lookup report.1 = some report.2)
      (s : GenState)
      (hok : ok → ∀ attempt ∈ participationAttempts backend backfillDays utc loc reports s,
        backend.Succeeds attempt) :
      Participates store backfillDays utc loc ok s (Loop.runAll .kOK (fun report =>
        generateReport backend backfillDays utc loc report.1 report.2) reports s).2 := by
    induction reports generalizing s with
    | nil => exact .refl s
    | cons report reports ih =>
      have hreport := (participates_generateReport hutc hlocal backend (hreports report List.mem_cons_self) s
        fun h attempt hattempt => hok h attempt (List.mem_append_left _ hattempt)).1
      by_cases hstatus : (generateReport backend backfillDays utc loc report.1 report.2 s).1 = .kOK
      · rw [Loop.runAll, if_pos hstatus]
        refine hreport.trans (ih (fun r hr => hreports r (List.mem_cons_of_mem _ hr)) _
          fun h attempt hattempt => hok h attempt (List.mem_append_right _ ?_))
        rwa [if_pos hstatus]
      · rw [Loop.runAll, if_neg hstatus]
        exact hreport
  exact hloop _ (fun report hreport => ProtoMap.mem_entries_iff.mp hreport) s hok

/-- A call that succeeds leaves every numeric report recorded up to its final day. -/
theorem le_participation_of_generateReports {s g : GenState} (hb : HistoryBounded s.obsHistory)
    (hrun : generateReports backend backfillDays utc loc store s = (.kOK, g))
    {key : ReportAggregationKey} {aggregates : ReportAggregates} {finalDayIndex maxDays : ℕ}
    (hlookup : store.byReportKey.lookup key = some aggregates)
    (hfinal : finalDayOf store utc loc key = some finalDayIndex)
    (hwindows : maxAggregationDays aggregates.aggregationConfig.aggregationWindow finalDayIndex =
      some maxDays) (hkind : reportKind aggregates.aggregationConfig = some .numeric) :
    finalDayIndex ≤ getReportParticipationLastGeneratedDayIndex g.obsHistory key := by
  have htrans : ∀ s t u, Participates store backfillDays utc loc False s t →
      Participates store backfillDays utc loc False t u →
      Participates store backfillDays utc loc False s u := fun _ _ _ => Participates.trans
  have hreports (report : (_ : ReportAggregationKey) × ReportAggregates)
      (hreport : report ∈ store.byReportKey.entries) (s : GenState) :
      Participates store backfillDays utc loc False s
        (generateReport backend backfillDays utc loc report.1 report.2 s).2 :=
    (participates_generateReport hutc hlocal backend (ProtoMap.mem_entries_iff.mp hreport) s False.elim).1
  have hmem : ProtoMap.entry key aggregates ∈ store.byReportKey.entries :=
    ProtoMap.mem_entries_iff.mpr hlookup
  have hok : (generateReports backend backfillDays utc loc store s).1 = .kOK := by rw [hrun]
  obtain ⟨s₁, hs₁, hok₁, hg₁⟩ := Loop.runAll_ok_mem Participates.refl htrans hreports hok hmem
  have hreport := participates_generateReport hutc hlocal backend hlookup s₁ False.elim
  have hrecorded := hreport.2 finalDayIndex maxDays hfinal hwindows hkind hok₁ (hs₁ hb).1
  -- no later step of the call moves the recorded day back
  have hlater : Participates store backfillDays utc loc False _
    (generateReports backend backfillDays utc loc store s).2 := hg₁
  rw [hrun] at hlater
  obtain ⟨_, _, _, hkeys⟩ := hlater (hreports _ hmem s₁ (hs₁ hb).1).1
  rcases hkeys key with heq | ⟨hlt, -⟩
  · exact hrecorded.trans heq.ge
  · exact hrecorded.trans hlt.le

end Call

/-! ### Runs -/

/-- No attempt at a participation observation fails in the call. -/
def Call.ParticipationSucceeds (s : AggregateStore) : Call → Prop
  | .generateObservations backend utc loc =>
    ∀ attempt ∈ participationAttempts backend s.backfillDays utc (localDayIndex utc loc)
      s.localAggregateStore.byReportKey.entries ⟨s.obsHistory, 0, []⟩, backend.Succeeds attempt
  | _ => True

instance (s : AggregateStore) : DecidablePred (Call.ParticipationSucceeds s)
  | .setActive .. => instDecidableTrue
  | .updateNumericAggregate .. => instDecidableTrue
  | .garbageCollect .. => instDecidableTrue
  | .generateObservations backend _ _ => inferInstanceAs (Decidable (∀ attempt ∈ _,
      backend.Succeeds attempt))

/-- A call in which no attempt at a participation observation fails, made on the store as it is or
after its maps were rehashed. -/
def ParticipationStep (s : AggregateStore) (out : List Written) (s' : AggregateStore) : Prop :=
  ∃ s₁ call, Rehashed s s₁ ∧ call.ParticipationSucceeds s₁ ∧ Call.run s₁ call = some (out, s')

theorem ParticipationStep.step {s s' : AggregateStore} {out : List Written}
    (h : ParticipationStep s out s') : Step (fun _ => True) s out s' := by
  obtain ⟨s₁, call, hrehash, _, hrun⟩ := h
  exact ⟨s₁, call, hrehash, trivial, hrun⟩

/-- No call changes the length of the backfill period. -/
theorem backfillDays_run {s s' : AggregateStore} {call : Call} {out : List Written}
    (h : Call.run s call = some (out, s')) : s'.backfillDays = s.backfillDays := by
  cases call with
  | setActive key code d =>
    obtain ⟨-, rfl⟩ := Prod.mk.inj (Option.some.inj h)
    unfold setActive
    split_ifs
    · rfl
    · split
      · rfl
      · split <;> rfl
  | updateNumericAggregate key component code d value =>
    obtain ⟨-, rfl⟩ := Prod.mk.inj (Option.some.inj h)
    unfold updateNumericAggregate
    split_ifs
    · rfl
    · split
      · rfl
      · split <;> rfl
  | garbageCollect utc loc =>
    obtain ⟨-, status, hgc⟩ := of_run_garbageCollect h
    exact (lookup_garbageCollect hgc).2.2.1
  | generateObservations backend utc loc =>
    obtain ⟨status, hgen⟩ := of_run_generateObservations h
    obtain ⟨obsHistory, rfl⟩ := eq_of_generateObservations hgen
    rfl

theorem Rehashed.backfillDays_eq {s s₁ : AggregateStore} (h : Rehashed s s₁) :
    s₁.backfillDays = s.backfillDays := by
  obtain ⟨store, _, rfl⟩ := h
  rfl

/-- The participation in the report was written for the day. -/
def ParticipationWritten (out : List Written) (key : ReportAggregationKey) (d : ℕ) : Prop :=
  ∃ w ∈ out, w.source = .reportParticipation key ∧ w.dayIndex = d

/-- What a call records. The recorded day of a report stays, or it moves forward to the final
day of the report, and then the days of the backfill period in between are written by the call. -/
theorem participation_of_generateObservations {backend : Backend} {utc loc : ℕ}
    {s s' : AggregateStore} {status : Status} {new : List Written} (hwf : WellFormed s)
    (hok : (Call.generateObservations backend utc loc).ParticipationSucceeds s)
    (h : generateObservations backend utc loc s = some (status, new, s'))
    (key : ReportAggregationKey) :
    let last := getReportParticipationLastGeneratedDayIndex s.obsHistory key
    let last' := getReportParticipationLastGeneratedDayIndex s'.obsHistory key
    last' = last ∨ (last < last' ∧
      finalDayOf s.localAggregateStore utc (localDayIndex utc loc) key = some last' ∧
      ∀ e, last < e → last' - s.backfillDays ≤ e → e ≤ last' → ParticipationWritten new key e) := by
  obtain ⟨⟨hutc, hlocal⟩, g, hg, rfl, rfl⟩ := generateObservations_cases h
  have hgen : Participates s.localAggregateStore s.backfillDays utc (localDayIndex utc loc) True
      ⟨s.obsHistory, 0, []⟩ _ := participates_generateReports hutc hlocal _ fun _ => hok
  rw [hg] at hgen
  obtain ⟨_, new, hnew, hkeys⟩ := hgen hwf.history
  obtain rfl : g.written = new := hnew
  exact (hkeys key).imp_right fun ⟨hlt, hfinal, hdays⟩ => ⟨hlt, hfinal, hdays trivial⟩

/-- A call that succeeds has written every day of the backfill period of a numeric report that
was not recorded before. -/
theorem participationWritten_of_generateObservations {backend : Backend} {utc loc : ℕ}
    {s s' : AggregateStore} {new : List Written} (hwf : WellFormed s)
    (hok : (Call.generateObservations backend utc loc).ParticipationSucceeds s)
    (h : generateObservations backend utc loc s = some (.kOK, new, s'))
    {key : ReportAggregationKey} {aggregates : ReportAggregates} {finalDayIndex maxDays : ℕ}
    (hlookup : s.localAggregateStore.byReportKey.lookup key = some aggregates)
    (hfinal : finalDayOf s.localAggregateStore utc (localDayIndex utc loc) key = some finalDayIndex)
    (hwindows : maxAggregationDays aggregates.aggregationConfig.aggregationWindow finalDayIndex =
      some maxDays) (hkind : reportKind aggregates.aggregationConfig = some .numeric) {e : ℕ}
    (hlast : getReportParticipationLastGeneratedDayIndex s.obsHistory key < e)
    (hback : finalDayIndex - s.backfillDays ≤ e) (he : e ≤ finalDayIndex) :
    ParticipationWritten new key e := by
  have hmoved := participation_of_generateObservations hwf hok h key
  obtain ⟨⟨hutc, hlocal⟩, g, hg, rfl, rfl⟩ := generateObservations_cases h
  have hrecorded := le_participation_of_generateReports hutc hlocal hwf.history hg hlookup hfinal
    hwindows hkind
  rcases hmoved with heq | ⟨-, hfinal', hdays⟩
  · exact absurd (hrecorded.trans heq.le) (hlast.trans_le he).not_ge
  · obtain rfl := Option.some.inj (hfinal.symm.trans hfinal')
    exact hdays e hlast hback he

/-- What a run from `s₀` keeps: the days that the last call covered were written, except for those
recorded before the run. -/
structure ParticipationInvariant (s₀ : AggregateStore) (out : List Written) (s : AggregateStore) :
    Prop where
  wellFormed : WellFormed s
  written : ∀ key e, getReportParticipationLastGeneratedDayIndex s₀.obsHistory key < e →
    getReportParticipationLastGeneratedDayIndex s.obsHistory key - s.backfillDays ≤ e →
    e ≤ getReportParticipationLastGeneratedDayIndex s.obsHistory key →
    ParticipationWritten out key e

theorem ParticipationInvariant.step {s₀ s s' : AggregateStore} {out new : List Written}
    (h : ParticipationInvariant s₀ out s) (hstep : ParticipationStep s new s') :
    ParticipationInvariant s₀ (out ++ new) s' := by
  refine ⟨wellFormed_step hstep.step h.wellFormed, fun key e hlast hback he => ?_⟩
  obtain ⟨s₁, call, hrehash, hok, hrun⟩ := hstep
  rw [backfillDays_run hrun, hrehash.backfillDays_eq] at hback
  have hold (hback : getReportParticipationLastGeneratedDayIndex s.obsHistory key -
      s.backfillDays ≤ e) (he : e ≤ getReportParticipationLastGeneratedDayIndex s.obsHistory key) :
      ParticipationWritten (out ++ new) key e := by
    obtain ⟨w, hw, hsource⟩ := h.written key e hlast hback he
    exact ⟨w, List.mem_append_left _ hw, hsource⟩
  rcases run_cases hrun with ⟨-, hhistory⟩ | ⟨backend, utc, loc, status, rfl, hgen⟩
  · rw [hhistory, hrehash.obsHistory_eq] at hback he
    exact hold hback he
  · have hmoved := participation_of_generateObservations (hrehash.wellFormed h.wellFormed) hok hgen
      key
    rw [hrehash.obsHistory_eq, hrehash.backfillDays_eq] at hmoved
    rcases hmoved with heq | ⟨hlt, -, hdays⟩
    · rw [heq] at hback he
      exact hold hback he
    · -- the day is new to this call, or the period before it covered the day too
      by_cases hnew : getReportParticipationLastGeneratedDayIndex s.obsHistory key < e
      · obtain ⟨w, hw, hsource⟩ := hdays e hnew hback he
        exact ⟨w, List.mem_append_right _ hw, hsource⟩
      · exact hold (by omega) (not_lt.mp hnew)

/-- **Participation is not lost.** In a run whose calls have no failed attempt at a participation
observation, and any failures otherwise, the days of the backfill period up to the recorded day of a
report were written. What a failed call has left is written by a later one: a call that succeeds
writes every day of its backfill period that is not recorded. -/
theorem participation_written {s₀ s : AggregateStore} {out : List Written} (hwf : WellFormed s₀)
    (h : Run ParticipationStep s₀ out s) :
    (∀ key e, getReportParticipationLastGeneratedDayIndex s₀.obsHistory key < e →
      getReportParticipationLastGeneratedDayIndex s.obsHistory key - s.backfillDays ≤ e →
      e ≤ getReportParticipationLastGeneratedDayIndex s.obsHistory key →
      ParticipationWritten out key e) ∧
    ∀ backend utc loc new s', (Call.generateObservations backend utc loc).ParticipationSucceeds s →
      generateObservations backend utc loc s = some (.kOK, new, s') →
      ∀ key aggregates finalDayIndex maxDays,
        s.localAggregateStore.byReportKey.lookup key = some aggregates →
        finalDayOf s.localAggregateStore utc (localDayIndex utc loc) key = some finalDayIndex →
        maxAggregationDays aggregates.aggregationConfig.aggregationWindow finalDayIndex =
          some maxDays →
        reportKind aggregates.aggregationConfig = some .numeric →
        ∀ e, getReportParticipationLastGeneratedDayIndex s.obsHistory key < e →
          finalDayIndex - s.backfillDays ≤ e → e ≤ finalDayIndex →
          ParticipationWritten new key e := by
  have hinvariant : ParticipationInvariant s₀ out s := h.invariant
    ⟨hwf, fun key e hlast _ he => absurd he hlast.not_ge⟩ fun _ _ _ _ hs hstep => hs.step hstep
  refine ⟨hinvariant.written, ?_⟩
  intro backend utc loc new s' hok hgen key aggregates finalDayIndex maxDays hlookup hfinal hwindows
    hkind e hlast hback he
  exact participationWritten_of_generateObservations hinvariant.wellFormed hok hgen hlookup hfinal
    hwindows hkind hlast hback he

/-- A generation that fails at a numeric observation, before the loop over the days, and one that
makes up for it. -/
theorem participation_written_retry :
    ∃ out s, Run ParticipationStep numericStore out s ∧
      getReportParticipationLastGeneratedDayIndex s.obsHistory ⟨1, 2, 3, 4⟩ = 500 ∧
      ParticipationWritten out ⟨1, 2, 3, 4⟩ 499 ∧ ParticipationWritten out ⟨1, 2, 3, 4⟩ 500 := by
  have h₁ := (@Run.nil _ _ ParticipationStep numericStore).snoc
    ⟨_, .updateNumericAggregate ⟨1, 2, 3, 4⟩ "c" 5 500 20, .refl _, trivial, rfl⟩
  have h₂ := h₁.snoc ⟨_, .generateObservations
    { Backend.reliable with writerStatus := fun n => if n = 1 then .kOther else .kOK } 500 500,
    .refl _, by decide +kernel, rfl⟩
  have h₃ := h₂.snoc ⟨_, .generateObservations .reliable 500 500, .refl _, by decide +kernel, rfl⟩
  have hwritten := (participation_written wellFormed_numericStore h₃).1 ⟨1, 2, 3, 4⟩
  exact ⟨_, _, h₃, rfl, hwritten 499 (by decide +kernel) (by decide +kernel) (by decide +kernel),
    hwritten 500 (by decide +kernel) (by decide +kernel) (by decide +kernel)⟩

/-- A day that is lost. The attempt for day 499 fails. The call returns `kOK` and the report is
recorded up to day 500; the next call has nothing to do. -/
theorem participation_lost :
    ∃ out s, Run (Step fun _ => True) numericStore out s ∧
      getReportParticipationLastGeneratedDayIndex s.obsHistory ⟨1, 2, 3, 4⟩ = 500 ∧
      500 - s.backfillDays ≤ 499 ∧ ¬ ParticipationWritten out ⟨1, 2, 3, 4⟩ 499 ∧
      ∃ s', generateObservations .reliable 500 500 s = some (.kOK, [], s') := by
  have h := (@Run.nil _ _ (Step fun _ => True) numericStore).snoc (.of_run (.generateObservations
    { Backend.reliable with writerStatus := fun n => if n = 0 then .kOther else .kOK } 500 500)
    trivial rfl)
  refine ⟨_, _, h, rfl, by decide, ?_, _, rfl⟩
  rintro ⟨w, hw, -, hday⟩
  obtain rfl := List.mem_singleton.mp hw
  exact absurd hday (by decide)

end Cobalt.LocalAggregation
