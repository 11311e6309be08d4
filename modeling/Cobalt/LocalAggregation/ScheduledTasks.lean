import Cobalt.LocalAggregation.EventAggregatorManager
import Cobalt.LocalAggregation.RegisteredReports
import Cobalt.LocalAggregation.Sweeps
import Cobalt.Util.DatetimeUtil

/-!
# The scheduled tasks of the `EventAggregatorManager`

`DoScheduledTasks` takes the day indices of yesterday from the clock by subtracting one from the
day indices of today, skips its tasks when either is too small, and else generates observations and
collects garbage as they are due. The subtraction comes before the test, and it is made on unsigned
integers: zero becomes `UINT32_MAX`, and the index of a time without a valid one becomes the largest
index that the `CHECK`s let pass.

## Main definitions

* `ScheduledTasks`, `doScheduledTasks`: the fields that are used, and the function of the source.
* `RunsSafely`: no `CHECK` fails, the days that are recorded are calendar days up to yesterday, and
  the tasks are skipped when there is no valid index of yesterday.

## Main results

* `recordable_of_generateObservations`: which days a call of `GenerateObservations` records.
* `yesterday_eq`: what the subtraction gives.
* `step_doScheduledTasks`: the step of the worker that stands for the function.
* `runsSafely_iff`: the tasks run safely if and only if none is due, both days have a predecessor
  with a valid index, or one of them is early enough for the tasks to be skipped.
-/

namespace Cobalt.LocalAggregation

open Util (SystemTime LocalOffset timeToDayIndex dayNumber HasIndex lastDayNumber kInvalidIndex)

/-! ### The function of the source -/

/-- What a call of `DoScheduledTasks` does. -/
inductive TaskEvent
  | generateObservations (dayIndexUtc dayIndexLocal : ℕ) (status : Status) (written : List Written)
  | backUpObservationHistory
  | garbageCollect (dayIndexUtc dayIndexLocal : ℕ) (status : Status)
  | backUpLocalAggregateStore
  deriving DecidableEq, Repr

/-- The fields of the `EventAggregatorManager` that `DoScheduledTasks` uses. The times are those of
the steady clock. -/
structure ScheduledTasks where
  aggregateStore : AggregateStore
  nextGenerateObs : ℤ
  nextGc : ℤ
  generateObsInterval : ℤ
  gcInterval : ℤ

namespace ScheduledTasks

/-- The first half of `DoScheduledTasks`, `none` when a `CHECK` fails. -/
def generate (backend : Backend) (yesterdayUtc yesterdayLocalTime : ℕ) (skipTasks : Bool)
    (steadyTime : ℤ) (m : ScheduledTasks) : Option (List TaskEvent × ScheduledTasks) :=
  if steadyTime ≥ m.nextGenerateObs then
    let m := { m with nextGenerateObs := m.nextGenerateObs + m.generateObsInterval }
    if skipTasks then some ([], m)
    else do
      let (obsStatus, written, aggregateStore) ←
        generateObservations backend yesterdayUtc yesterdayLocalTime m.aggregateStore
      some (.generateObservations yesterdayUtc yesterdayLocalTime obsStatus written ::
        if obsStatus = .kOK then [.backUpObservationHistory] else [],
        { m with aggregateStore := aggregateStore })
  else some ([], m)

/-- The second half of `DoScheduledTasks`, `none` when a `CHECK` fails. -/
def collect (yesterdayUtc yesterdayLocalTime : ℕ) (skipTasks : Bool)
    (steadyTime : ℤ) (m : ScheduledTasks) : Option (List TaskEvent × ScheduledTasks) :=
  if steadyTime ≥ m.nextGc then
    let m := { m with nextGc := m.nextGc + m.gcInterval }
    if skipTasks then some ([], m)
    else do
      let (gcStatus, aggregateStore) ←
        garbageCollect yesterdayUtc yesterdayLocalTime m.aggregateStore
      some (.garbageCollect yesterdayUtc yesterdayLocalTime gcStatus ::
        if gcStatus = .kOK then [.backUpLocalAggregateStore] else [],
        { m with aggregateStore := aggregateStore })
  else some ([], m)

end ScheduledTasks

/-- The index of yesterday, as `DoScheduledTasks` computes it. -/
def yesterday (offset : LocalOffset) (systemTime : SystemTime) (timeZone : TimeZonePolicy) : ℕ :=
  U32.sub (timeToDayIndex offset systemTime.toTimeT timeZone) 1

/-- The tasks are skipped if either day index is too small. -/
def skipTasks (backfillDays yesterdayUtc yesterdayLocalTime : ℕ) : Bool :=
  let minAllowedDayIndex := U32.ofNat (kMaxAllowedAggregationDays + backfillDays)
  yesterdayUtc < minAllowedDayIndex || yesterdayLocalTime < minAllowedDayIndex

/-- `DoScheduledTasks`, `none` when a `CHECK` fails. -/
def doScheduledTasks (backend : Backend) (offset : LocalOffset) (systemTime : SystemTime)
    (steadyTime : ℤ) (m : ScheduledTasks) : Option (List TaskEvent × ScheduledTasks) := do
  let yesterdayUtc := yesterday offset systemTime .UTC
  let yesterdayLocalTime := yesterday offset systemTime .LOCAL
  let skip := skipTasks m.aggregateStore.backfillDays yesterdayUtc yesterdayLocalTime
  let (generated, m) ← m.generate backend yesterdayUtc yesterdayLocalTime skip steadyTime
  let (collected, m) ← m.collect yesterdayUtc yesterdayLocalTime skip steadyTime
  some (generated ++ collected, m)

/-! ### What is recorded -/

theorem Recordable.mono {store : LocalAggregateStore} {finalDayIndexUtc finalDayIndexLocal : ℕ}
    {key : ReportAggregationKey} {d d' : ℕ}
    (h : Recordable store finalDayIndexUtc finalDayIndexLocal key d) (hle : d' ≤ d) :
    Recordable store finalDayIndexUtc finalDayIndexLocal key d' := by
  obtain ⟨config, finalDayIndex, hconfig, hfinal, hd⟩ := h
  exact ⟨config, finalDayIndex, hconfig, hfinal, hle.trans hd⟩

/-- From one state to the other no days were recorded but those that a call can record. -/
def RecordsOnly (store : LocalAggregateStore) (utc loc : ℕ) (s s' : GenState) : Prop :=
  ∀ k, getLastGenerated s'.obsHistory k = getLastGenerated s.obsHistory k ∨
    Recordable store utc loc k.reportKey (getLastGenerated s'.obsHistory k)

theorem recordsOnly_generateReports (backend : Backend) (store : LocalAggregateStore)
    (backfillDays utc loc : ℕ) (s : GenState) :
    RecordsOnly store utc loc s (generateReports backend backfillDays utc loc store s).2 := by
  refine generateReports_rel (fun _ _ => Or.inl rfl) ?_ ?_ ?_ backfillDays s
  · intro a b c hab hbc k
    rcases hbc k with heq | hrec
    · rw [heq]
      exact hab k
    · exact Or.inr hrec
  · intro w t _ _ k
    rcases generateSingle_cases backend w t with ⟨_, heq⟩ | heq <;> rw [heq] <;> exact Or.inl rfl
  · intro k d t _ hd k'
    by_cases hkey : k'.reportKey = k.reportKey
    · rw [hkey]
      rcases getLastGenerated_setLastGenerated_cases t.obsHistory k k' d with hv | hv | hv
      · exact Or.inr (hd.mono hv.le)
      · exact Or.inl hv
      · exact Or.inr (hd.mono (hv.le.trans (Nat.zero_le d)))
    · exact Or.inl (getLastGenerated_congr (lookup_setLastGenerated_of_ne hkey d))

/-- What a call of `GenerateObservations` records is a day up to the one of the call, in the
time zone of the report. -/
theorem recordable_of_generateObservations {backend : Backend} {utc loc : ℕ}
    {s s' : AggregateStore} {status : Status} {written : List Written}
    (h : generateObservations backend utc loc s = some (status, written, s'))
    {k : ObservationSource}
    (hne : getLastGenerated s'.obsHistory k ≠ getLastGenerated s.obsHistory k) :
    Recordable s.localAggregateStore utc (localDayIndex utc loc) k.reportKey
      (getLastGenerated s'.obsHistory k) := by
  obtain ⟨-, g, hg, -, rfl⟩ := generateObservations_cases h
  have hrecords := recordsOnly_generateReports backend s.localAggregateStore s.backfillDays utc
    (localDayIndex utc loc) ⟨s.obsHistory, 0, []⟩ k
  rw [hg] at hrecords
  exact hrecords.resolve_left hne

/-! ### What a call does -/

namespace ScheduledTasks

variable {backend : Backend} {utc loc : ℕ} {skip : Bool} {steadyTime : ℤ} {m m' : ScheduledTasks}
  {events : List TaskEvent}

/-- The first half makes no call, or one of `GenerateObservations`. -/
theorem generate_cases (h : m.generate backend utc loc skip steadyTime = some (events, m')) :
    m'.nextGc = m.nextGc ∧
    ((¬ (m.nextGenerateObs ≤ steadyTime ∧ skip = false) ∧ events = [] ∧
      m'.aggregateStore = m.aggregateStore) ∨
    ((m.nextGenerateObs ≤ steadyTime ∧ skip = false) ∧ ∃ status written,
      events = .generateObservations utc loc status written ::
        (if status = .kOK then [.backUpObservationHistory] else []) ∧
      generateObservations backend utc loc m.aggregateStore =
        some (status, written, m'.aggregateStore))) := by
  rw [generate] at h
  split_ifs at h with hdue hskip
  · obtain ⟨rfl, rfl⟩ := Prod.mk.inj (Option.some.inj h)
    exact ⟨rfl, Or.inl ⟨by simp [hskip], rfl, rfl⟩⟩
  · obtain ⟨⟨status, written, store⟩, hgen, hsome⟩ := Option.bind_eq_some_iff.mp h
    obtain ⟨rfl, rfl⟩ := Prod.mk.inj (Option.some.inj hsome)
    exact ⟨rfl, Or.inr ⟨⟨hdue, Bool.eq_false_iff.mpr hskip⟩, status, written, rfl, hgen⟩⟩
  · obtain ⟨rfl, rfl⟩ := Prod.mk.inj (Option.some.inj h)
    exact ⟨rfl, Or.inl ⟨fun hcall => hdue hcall.1, rfl, rfl⟩⟩

/-- The second half makes no call, or one of `GarbageCollect`. -/
theorem collect_cases (h : m.collect utc loc skip steadyTime = some (events, m')) :
    (¬ (m.nextGc ≤ steadyTime ∧ skip = false) ∧ events = [] ∧
      m'.aggregateStore = m.aggregateStore) ∨
    ((m.nextGc ≤ steadyTime ∧ skip = false) ∧ ∃ status,
      events = .garbageCollect utc loc status ::
        (if status = .kOK then [.backUpLocalAggregateStore] else []) ∧
      garbageCollect utc loc m.aggregateStore = some (status, m'.aggregateStore)) := by
  rw [collect] at h
  split_ifs at h with hdue hskip
  · obtain ⟨rfl, rfl⟩ := Prod.mk.inj (Option.some.inj h)
    exact Or.inl ⟨by simp [hskip], rfl, rfl⟩
  · obtain ⟨⟨status, store⟩, hgc, hsome⟩ := Option.bind_eq_some_iff.mp h
    obtain ⟨rfl, rfl⟩ := Prod.mk.inj (Option.some.inj hsome)
    exact Or.inr ⟨⟨hdue, Bool.eq_false_iff.mpr hskip⟩, status, rfl, hgc⟩
  · obtain ⟨rfl, rfl⟩ := Prod.mk.inj (Option.some.inj h)
    exact Or.inl ⟨fun hcall => hdue hcall.1, rfl, rfl⟩

/-- The first half returns when its call is not made or its day indices are admitted. -/
theorem isSome_generate (backend : Backend)
    (h : skip = false → m.nextGenerateObs ≤ steadyTime →
      Admitted m.aggregateStore.backfillDays utc ∧
        Admitted m.aggregateStore.backfillDays (localDayIndex utc loc)) :
    ∃ events m', m.generate backend utc loc skip steadyTime = some (events, m') ∧
      m'.aggregateStore.backfillDays = m.aggregateStore.backfillDays := by
  rw [generate]
  split_ifs with hdue hskip
  · exact ⟨_, _, rfl, rfl⟩
  · have hadmitted := h (Bool.eq_false_iff.mpr hskip) hdue
    simp only [generateObservations, if_pos hadmitted]
    exact ⟨_, _, rfl, rfl⟩
  · exact ⟨_, _, rfl, rfl⟩

/-- The second half returns when its call is not made or its day indices are admitted. -/
theorem isSome_collect
    (h : skip = false → m.nextGc ≤ steadyTime →
      Admitted m.aggregateStore.backfillDays utc ∧
        Admitted m.aggregateStore.backfillDays (localDayIndex utc loc)) :
    ∃ events m', m.collect utc loc skip steadyTime = some (events, m') := by
  rw [collect]
  split_ifs with hdue hskip
  · exact ⟨_, _, rfl⟩
  · have hadmitted := h (Bool.eq_false_iff.mpr hskip) hdue
    simp only [garbageCollect, if_pos hadmitted]
    exact ⟨_, _, rfl⟩
  · exact ⟨_, _, rfl⟩

end ScheduledTasks

/-! ### The index of yesterday -/

/-- The day has an index, and so has the day before it. -/
def HasPreviousIndex (day : ℤ) : Prop := HasIndex day ∧ HasIndex (day - 1)

/-- The day has an index so small that the tasks are skipped. -/
def EarlyDay (backfillDays : ℕ) (day : ℤ) : Prop :=
  1 ≤ day ∧ day ≤ (kMaxAllowedAggregationDays + backfillDays : ℕ)

section Yesterday

variable {offset : LocalOffset} {systemTime : SystemTime} {timeZone : TimeZonePolicy}

/-- The index of yesterday is right for a day that has a previous index. -/
theorem yesterday_eq (hzone : timeZone = .UTC ∨ timeZone = .LOCAL)
    (h : HasPreviousIndex (dayNumber offset systemTime.toTimeT timeZone)) :
    (yesterday offset systemTime timeZone : ℤ) =
      dayNumber offset systemTime.toTimeT timeZone - 1 := by
  obtain ⟨⟨hlo, hhi⟩, hprev, -⟩ := h
  have hlast : lastDayNumber < U32.size := by decide
  rw [yesterday, Util.timeToDayIndex_eq offset systemTime hzone, if_pos ⟨hlo, hhi⟩,
    U32.sub_of_le (by omega) (by omega)]
  omega

/-- Without a previous index the subtraction gives one of the two largest numbers. -/
theorem le_yesterday (hzone : timeZone = .UTC ∨ timeZone = .LOCAL)
    (h : ¬ HasPreviousIndex (dayNumber offset systemTime.toTimeT timeZone)) :
    U32.max - 1 ≤ yesterday offset systemTime timeZone := by
  rw [yesterday, Util.timeToDayIndex_eq offset systemTime hzone]
  split_ifs with hindex
  · have hzero : dayNumber offset systemTime.toTimeT timeZone = 0 := by
      by_contra hne
      have hlo := hindex.1
      have hhi := hindex.2
      exact h ⟨hindex, by omega, by omega⟩
    rw [hzero]
    decide
  · decide

/-- The test for small day indices. -/
theorem yesterday_lt_iff (hzone : timeZone = .UTC ∨ timeZone = .LOCAL) {backfillDays : ℕ}
    (hbackfill : backfillDays ≤ kMaxAllowedBackfillDays) :
    yesterday offset systemTime timeZone < kMaxAllowedAggregationDays + backfillDays ↔
      EarlyDay backfillDays (dayNumber offset systemTime.toTimeT timeZone) := by
  have hmin : kMaxAllowedAggregationDays + kMaxAllowedBackfillDays < lastDayNumber := by decide
  have hmax : kMaxAllowedAggregationDays + kMaxAllowedBackfillDays < U32.max - 1 := by decide
  unfold EarlyDay
  by_cases h : HasPreviousIndex (dayNumber offset systemTime.toTimeT timeZone)
  · have heq := yesterday_eq hzone h
    obtain ⟨-, hprev, -⟩ := h
    omega
  · have hle := le_yesterday hzone h
    have hout : ¬ (1 ≤ dayNumber offset systemTime.toTimeT timeZone ∧
        dayNumber offset systemTime.toTimeT timeZone ≤ lastDayNumber) := fun hin =>
      h ⟨⟨by omega, hin.2⟩, by omega, by omega⟩
    omega

/-- A day that has a previous index and is not early passes the `CHECK`s. -/
theorem admitted_yesterday (hzone : timeZone = .UTC ∨ timeZone = .LOCAL) {backfillDays : ℕ}
    (hbackfill : backfillDays ≤ kMaxAllowedBackfillDays)
    (h : HasPreviousIndex (dayNumber offset systemTime.toTimeT timeZone))
    (hearly : ¬ EarlyDay backfillDays (dayNumber offset systemTime.toTimeT timeZone)) :
    Admitted backfillDays (yesterday offset systemTime timeZone) := by
  have hlast : (lastDayNumber : ℤ) < U32.max := by decide
  have heq := yesterday_eq hzone h
  have hge := mt (yesterday_lt_iff hzone hbackfill).mp hearly
  have hle := h.1.2
  exact ⟨by omega, not_lt.mp hge⟩

end Yesterday

theorem skipTasks_iff {offset : LocalOffset} {systemTime : SystemTime} {backfillDays : ℕ}
    (hbackfill : backfillDays ≤ kMaxAllowedBackfillDays) :
    skipTasks backfillDays (yesterday offset systemTime .UTC)
        (yesterday offset systemTime .LOCAL) = true ↔
      EarlyDay backfillDays (dayNumber offset systemTime.toTimeT .UTC) ∨
        EarlyDay backfillDays (dayNumber offset systemTime.toTimeT .LOCAL) := by
  have hmin : kMaxAllowedAggregationDays + kMaxAllowedBackfillDays < U32.size := by decide
  rw [skipTasks, U32.ofNat_of_lt (by omega), Bool.or_eq_true, decide_eq_true_iff,
    decide_eq_true_iff, yesterday_lt_iff (Or.inl rfl) hbackfill,
    yesterday_lt_iff (Or.inr rfl) hbackfill]

/-! ### Safe runs -/

/-- The index is that of a day of the calendar. -/
def IsDayIndex (d : ℕ) : Prop :=
  d ≠ kInvalidIndex ∧ ∃ date : Gregorian.Date,
    Util.calendarDateToDayIndex (Util.timeInfoToCalendarDate (.ofDate date)) = d

/-- A task is due. -/
def ScheduledTasks.Due (steadyTime : ℤ) (m : ScheduledTasks) : Prop :=
  m.nextGenerateObs ≤ steadyTime ∨ m.nextGc ≤ steadyTime

/-- A safe call of `DoScheduledTasks`. -/
structure RunsSafely (backend : Backend) (offset : LocalOffset) (systemTime : SystemTime)
    (steadyTime : ℤ) (m : ScheduledTasks) : Prop where
  /-- No `CHECK` fails. -/
  checks : (doScheduledTasks backend offset systemTime steadyTime m).isSome
  /-- What is recorded as last generated is a day of the calendar, at or before yesterday in the time
  zone of the report. -/
  records : ∀ events m', doScheduledTasks backend offset systemTime steadyTime m =
      some (events, m') → ∀ k : ObservationSource,
    getLastGenerated m'.aggregateStore.obsHistory k ≠
      getLastGenerated m.aggregateStore.obsHistory k →
    ∃ config, m.aggregateStore.localAggregateStore.configOf k.reportKey = some config ∧
      IsDayIndex (getLastGenerated m'.aggregateStore.obsHistory k) ∧
      (getLastGenerated m'.aggregateStore.obsHistory k : ℤ) ≤
        dayNumber offset systemTime.toTimeT config.metric.timeZonePolicy - 1
  /-- The tasks are skipped when one of the two days has no previous index. -/
  skips : ¬ (HasPreviousIndex (dayNumber offset systemTime.toTimeT .UTC) ∧
      HasPreviousIndex (dayNumber offset systemTime.toTimeT .LOCAL)) →
    ∀ events m', doScheduledTasks backend offset systemTime steadyTime m = some (events, m') →
      events = [] ∧ m'.aggregateStore = m.aggregateStore

/-- The numbers of the days that have an index are indices of days of the calendar. -/
theorem isDayIndex_of_hasIndex {d : ℕ} (h : HasIndex d) : IsDayIndex d := by
  have hlast : lastDayNumber < kInvalidIndex := by decide
  have hsmall : lastDayNumber < 2 ^ 31 := by decide
  have hle := h.2
  refine ⟨by omega, .ofDayNumber d, ?_⟩
  rw [Util.calendarDateToDayIndex_eq (by omega) (by omega), if_pos h, Int.toNat_natCast]

section Safe

variable {backend : Backend} {offset : LocalOffset} {systemTime : SystemTime} {steadyTime : ℤ}
  {m m' : ScheduledTasks} {events : List TaskEvent}

/-- The tasks of a call are skipped. -/
def ScheduledTasks.skip (offset : LocalOffset) (systemTime : SystemTime) (m : ScheduledTasks) :
    Bool :=
  skipTasks m.aggregateStore.backfillDays (yesterday offset systemTime .UTC)
    (yesterday offset systemTime .LOCAL)

/-- What a call does: nothing when no task is due or the tasks are skipped, and else calls that
record days up to those of yesterday. -/
theorem doScheduledTasks_cases
    (h : doScheduledTasks backend offset systemTime steadyTime m = some (events, m')) :
    (¬ (m.Due steadyTime ∧ m.skip offset systemTime = false) ∧ events = [] ∧
      m'.aggregateStore = m.aggregateStore) ∨
    ((m.Due steadyTime ∧ m.skip offset systemTime = false) ∧ events ≠ [] ∧
      ∀ k : ObservationSource, getLastGenerated m'.aggregateStore.obsHistory k ≠
          getLastGenerated m.aggregateStore.obsHistory k →
        Recordable m.aggregateStore.localAggregateStore (yesterday offset systemTime .UTC)
          (localDayIndex (yesterday offset systemTime .UTC) (yesterday offset systemTime .LOCAL))
          k.reportKey (getLastGenerated m'.aggregateStore.obsHistory k)) := by
  obtain ⟨⟨generated, m₁⟩, hgenerate, h⟩ := Option.bind_eq_some_iff.mp h
  obtain ⟨⟨collected, m₂⟩, hcollect, h⟩ := Option.bind_eq_some_iff.mp h
  obtain ⟨rfl, rfl⟩ := Prod.mk.inj (Option.some.inj h)
  obtain ⟨hgc, hgenerate⟩ := ScheduledTasks.generate_cases hgenerate
  have hcollect := ScheduledTasks.collect_cases hcollect
  rw [hgc] at hcollect
  -- garbage collection leaves the history alone
  have hhistory : m₂.aggregateStore.obsHistory = m₁.aggregateStore.obsHistory := by
    rcases hcollect with ⟨_, _, heq⟩ | ⟨_, status, _, heq⟩
    · rw [heq]
    · exact (lookup_garbageCollect heq).2.1
  rcases hgenerate with ⟨hno, rfl, hstore⟩ | ⟨⟨hdue, hskip⟩, status, written, rfl, hgen⟩
  · rcases hcollect with ⟨hno', rfl, hstore'⟩ | ⟨⟨hdue, hskip⟩, status, rfl, _⟩
    · refine Or.inl ⟨?_, rfl, hstore'.trans hstore⟩
      rintro ⟨hdue | hdue, hskip⟩
      · exact hno ⟨hdue, hskip⟩
      · exact hno' ⟨hdue, hskip⟩
    · refine Or.inr ⟨⟨Or.inr hdue, hskip⟩, List.cons_ne_nil _ _, fun k hk => absurd ?_ hk⟩
      rw [hhistory, hstore]
  · refine Or.inr ⟨⟨Or.inl hdue, hskip⟩, List.cons_ne_nil _ _, fun k hk => ?_⟩
    rw [hhistory] at hk ⊢
    exact recordable_of_generateObservations hgen hk

/-- No `CHECK` fails when the tasks that are not skipped have admitted day indices. -/
theorem isSome_doScheduledTasks
    (h : m.skip offset systemTime = false → m.Due steadyTime →
      Admitted m.aggregateStore.backfillDays (yesterday offset systemTime .UTC) ∧
        Admitted m.aggregateStore.backfillDays (localDayIndex (yesterday offset systemTime .UTC)
          (yesterday offset systemTime .LOCAL))) :
    (doScheduledTasks backend offset systemTime steadyTime m).isSome := by
  obtain ⟨generated, m₁, hgenerate, hbackfill⟩ := ScheduledTasks.isSome_generate (m := m) backend
    fun hskip hdue => h hskip (Or.inl hdue)
  have hgc := (ScheduledTasks.generate_cases hgenerate).1
  obtain ⟨collected, m₂, hcollect⟩ := ScheduledTasks.isSome_collect (m := m₁)
    fun hskip hdue => hbackfill ▸ h hskip (Or.inr (hgc ▸ hdue))
  have hsome : doScheduledTasks backend offset systemTime steadyTime m =
      some (generated ++ collected, m₂) :=
    Option.bind_eq_some_iff.mpr ⟨_, hgenerate, Option.bind_eq_some_iff.mpr ⟨_, hcollect, rfl⟩⟩
  rw [hsome]
  rfl

/-- Day indices that are neither without a predecessor nor early are admitted, and the one in local
time does not stand for the one in UTC. -/
theorem admitted_of_hasPreviousIndex
    (hutc : HasPreviousIndex (dayNumber offset systemTime.toTimeT .UTC))
    (hlocal : HasPreviousIndex (dayNumber offset systemTime.toTimeT .LOCAL))
    (hskip : m.skip offset systemTime = false) :
    localDayIndex (yesterday offset systemTime .UTC) (yesterday offset systemTime .LOCAL) =
        yesterday offset systemTime .LOCAL ∧
      Admitted m.aggregateStore.backfillDays (yesterday offset systemTime .UTC) ∧
      Admitted m.aggregateStore.backfillDays (yesterday offset systemTime .LOCAL) := by
  have hbackfill := m.aggregateStore.backfillDays_le
  have hearly := mt (skipTasks_iff hbackfill).mpr (Bool.eq_false_iff.mp hskip)
  rw [not_or] at hearly
  have hadmitted := admitted_yesterday (Or.inr rfl) hbackfill hlocal hearly.2
  have hpos : 0 < kMaxAllowedAggregationDays := by decide
  have hne : yesterday offset systemTime .LOCAL ≠ 0 := by
    have := hadmitted.2
    omega
  exact ⟨if_neg hne, admitted_yesterday (Or.inl rfl) hbackfill hutc hearly.1, hadmitted⟩

/-- What is recorded for a report is in the calendar and at or before yesterday in its time zone. -/
theorem recorded_le_yesterday {store : LocalAggregateStore} {key : ReportAggregationKey} {d : ℕ}
    (hutc : HasPreviousIndex (dayNumber offset systemTime.toTimeT .UTC))
    (hlocal : HasPreviousIndex (dayNumber offset systemTime.toTimeT .LOCAL))
    (h : Recordable store (yesterday offset systemTime .UTC) (yesterday offset systemTime .LOCAL)
      key d) :
    ∃ config, store.configOf key = some config ∧ IsDayIndex d ∧
      (d : ℤ) ≤ dayNumber offset systemTime.toTimeT config.metric.timeZonePolicy - 1 := by
  obtain ⟨config, finalDayIndex, hconfig, hfinal, hd⟩ := h
  refine ⟨config, hconfig, ?_⟩
  have hday : (d : ℤ) ≤ dayNumber offset systemTime.toTimeT config.metric.timeZonePolicy - 1 ∧
      dayNumber offset systemTime.toTimeT config.metric.timeZonePolicy ≤ lastDayNumber := by
    cases hpolicy : config.metric.timeZonePolicy with
    | UTC =>
      rw [hpolicy] at hfinal
      have heq := yesterday_eq (Or.inl rfl) hutc
      have hlast := hutc.1.2
      have hfinal := Option.some.inj hfinal
      omega
    | LOCAL =>
      rw [hpolicy] at hfinal
      have heq := yesterday_eq (Or.inr rfl) hlocal
      have hlast := hlocal.1.2
      have hfinal := Option.some.inj hfinal
      omega
    | unrecognized n =>
      rw [hpolicy] at hfinal
      exact absurd hfinal (by simp [reportDayIndex])
  exact ⟨isDayIndex_of_hasIndex ⟨by omega, by omega⟩, hday.1⟩

end Safe

/-- **When the scheduled tasks run safely**: if and only if no task is due, today and yesterday have
valid indices in both time zones, or one of the indices is so small that the tasks are skipped. -/
theorem runsSafely_iff (backend : Backend) (offset : LocalOffset) (systemTime : SystemTime)
    (steadyTime : ℤ) (m : ScheduledTasks) :
    RunsSafely backend offset systemTime steadyTime m ↔
      (m.Due steadyTime →
        (HasPreviousIndex (dayNumber offset systemTime.toTimeT .UTC) ∧
          HasPreviousIndex (dayNumber offset systemTime.toTimeT .LOCAL)) ∨
        EarlyDay m.aggregateStore.backfillDays (dayNumber offset systemTime.toTimeT .UTC) ∨
        EarlyDay m.aggregateStore.backfillDays (dayNumber offset systemTime.toTimeT .LOCAL)) := by
  have hskip := @skipTasks_iff offset systemTime _ m.aggregateStore.backfillDays_le
  constructor
  · intro h hdue
    by_contra hcond
    rw [not_or, ← hskip] at hcond
    obtain ⟨⟨events, m'⟩, hsome⟩ := Option.isSome_iff_exists.mp h.checks
    have hnil := (h.skips hcond.1 events m' hsome).1
    rcases doScheduledTasks_cases hsome with ⟨hno, _⟩ | ⟨_, hne, _⟩
    · exact hno ⟨hdue, Bool.eq_false_iff.mpr hcond.2⟩
    · exact hne hnil
  · intro h
    have hcalls : m.Due steadyTime → m.skip offset systemTime = false →
        HasPreviousIndex (dayNumber offset systemTime.toTimeT .UTC) ∧
          HasPreviousIndex (dayNumber offset systemTime.toTimeT .LOCAL) := by
      intro hdue hfalse
      exact (h hdue).resolve_right fun hearly => Bool.eq_false_iff.mp hfalse (hskip.mpr hearly)
    refine ⟨isSome_doScheduledTasks fun hfalse hdue => ?_, fun events m' hsome k hk => ?_,
      fun hnone events m' hsome => ?_⟩
    · obtain ⟨hutc, hlocal⟩ := hcalls hdue hfalse
      obtain ⟨heq, hadmitted⟩ := admitted_of_hasPreviousIndex hutc hlocal hfalse
      rwa [heq]
    · rcases doScheduledTasks_cases hsome with ⟨_, _, heq⟩ | ⟨⟨hdue, hfalse⟩, _, hrecords⟩
      · exact absurd (by rw [heq]) hk
      · obtain ⟨hutc, hlocal⟩ := hcalls hdue hfalse
        have hrecord := hrecords k hk
        rw [(admitted_of_hasPreviousIndex hutc hlocal hfalse).1] at hrecord
        exact recorded_le_yesterday hutc hlocal hrecord
    · rcases doScheduledTasks_cases hsome with ⟨_, hidle⟩ | ⟨⟨hdue, hfalse⟩, _⟩
      · exact hidle
      · exact absurd (hcalls hdue hfalse) hnone

/-- A manager as `Run` starts it, with a new store and no backfill. -/
def startedTasks : ScheduledTasks where
  aggregateStore := restoreAggregateStore none makeNewObservationHistoryStore 0 (Nat.zero_le _)
  nextGenerateObs := 0
  nextGc := 24 * 60 * 60
  generateObsInterval := 60 * 60
  gcInterval := 24 * 60 * 60

/-- On the first of January 1970 a `CHECK` fails, and one second earlier observations are generated
up to the day with the index 4294967294. -/
theorem not_runsSafely_at_epoch :
    ¬ RunsSafely .reliable ⟨0, by decide⟩ ⟨0, by decide⟩ 0 startedTasks ∧
      ¬ RunsSafely .reliable ⟨0, by decide⟩ ⟨-1000000, by decide⟩ 0 startedTasks := by
  constructor
  · intro h
    exact absurd h.checks (by decide +kernel)
  · intro h
    obtain ⟨⟨events, m'⟩, hsome⟩ := Option.isSome_iff_exists.mp h.checks
    have hevents : (doScheduledTasks .reliable ⟨0, by decide⟩ ⟨-1000000, by decide⟩ 0
        startedTasks).map Prod.fst =
        some [.generateObservations 4294967294 4294967294 .kOK [], .backUpObservationHistory] := by
      decide +kernel
    have hnone : ¬ HasPreviousIndex (dayNumber ⟨0, by decide⟩
        (SystemTime.toTimeT ⟨-1000000, by decide⟩) .UTC) := fun hprev => absurd hprev.1 (by decide)
    have hnil := (h.skips (fun hboth => hnone hboth.1) events m' hsome).1
    rw [hsome, hnil] at hevents
    exact List.cons_ne_nil _ _ (Option.some.inj hevents).symm

/-! ### The backups of the worker -/

/-- The backup that an event is, as an event of the worker. -/
def TaskEvent.backup : TaskEvent → Option ManagerEvent
  | .backUpObservationHistory => some .backUpObservationHistory
  | .backUpLocalAggregateStore => some .backUpLocalAggregateStore
  | .generateObservations .. | .garbageCollect .. => none

namespace ScheduledTasks

variable {backend : Backend} {utc loc : ℕ} {skip : Bool} {steadyTime : ℤ} {m m' : ScheduledTasks}
  {events : List TaskEvent}

theorem backups_generate (h : m.generate backend utc loc skip steadyTime = some (events, m')) :
    ∃ generated : Bool, events.filterMap TaskEvent.backup =
      if generated then [.backUpObservationHistory] else [] := by
  rcases (generate_cases h).2 with ⟨_, rfl, _⟩ | ⟨_, status, written, rfl, _⟩
  · exact ⟨false, rfl⟩
  · split_ifs
    · exact ⟨true, rfl⟩
    · exact ⟨false, rfl⟩

theorem backups_collect (h : m.collect utc loc skip steadyTime = some (events, m')) :
    ∃ collected : Bool, events.filterMap TaskEvent.backup =
      if collected then [.backUpLocalAggregateStore] else [] := by
  rcases collect_cases h with ⟨_, rfl, _⟩ | ⟨_, status, rfl, _⟩
  · exact ⟨false, rfl⟩
  · split_ifs
    · exact ⟨true, rfl⟩
    · exact ⟨false, rfl⟩

end ScheduledTasks

/-- The step of the worker that stands for `DoScheduledTasks` makes the backups that the
function makes. -/
theorem step_doScheduledTasks {backend : Backend} {offset : LocalOffset} {systemTime : SystemTime}
    {steadyTime : ℤ} {m m' : ScheduledTasks} {events : List TaskEvent}
    (h : doScheduledTasks backend offset systemTime steadyTime m = some (events, m'))
    {s : Manager} (hs : s.worker = .scheduled) :
    ∃ generated collected, s.step (.doScheduledTasks generated collected) =
      some (events.filterMap TaskEvent.backup, { s with worker := .loopTop }) := by
  obtain ⟨⟨generated, m₁⟩, hgenerate, h⟩ := Option.bind_eq_some_iff.mp h
  obtain ⟨⟨collected, m₂⟩, hcollect, h⟩ := Option.bind_eq_some_iff.mp h
  obtain ⟨rfl, rfl⟩ := Prod.mk.inj (Option.some.inj h)
  obtain ⟨a, ha⟩ := ScheduledTasks.backups_generate hgenerate
  obtain ⟨b, hb⟩ := ScheduledTasks.backups_collect hcollect
  refine ⟨a, b, ?_⟩
  rw [Manager.step, if_pos hs, List.filterMap_append, ha, hb]

end Cobalt.LocalAggregation
