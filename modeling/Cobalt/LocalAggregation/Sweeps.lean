import Cobalt.Lib.Watermark
import Cobalt.LocalAggregation.GenerateObservations

/-!
# Generation as a sweep of watermarks

The last generated days that the history records are watermarks: an observation is written when its
day lies above the watermark of its source, and the watermark then moves to that day. The sources
followed here are those of a predicate `L`, under two conditions. They do not share a place in the
history with one another (`Independent`), and whatever else is generated leaves them alone
(`Foreign`).

## Main definitions

* `Generates L P s s'`: from `s` to `s'` the sources of `L` were swept, with the observations due
  according to `P`.
* `Feasible`: a list of items that only moves watermarks forward and passes over no due day.

## Main results

* `Generates.refl`, `Generates.trans`, `generates_runAll_items`.
-/

namespace Cobalt.LocalAggregation

/-- What an accessor reads depends on the entry of its report alone. -/
theorem getLastGenerated_congr {history history' : AggregatedObservationHistoryStore}
    {k : ObservationSource}
    (h : history'.byReportKey.lookup k.reportKey = history.byReportKey.lookup k.reportKey) :
    getLastGenerated history' k = getLastGenerated history k := by
  cases k with
  | uniqueActives => exact getUniqueActives_congr h _ _
  | numeric => exact getPerDeviceNumeric_congr h _ _ _
  | reportParticipation => exact getReportParticipation_congr h

/-- A write to the history of one report leaves the entries of the others alone. -/
theorem lookup_setLastGenerated_of_ne {history : AggregatedObservationHistoryStore}
    {k : ObservationSource} {key : ReportAggregationKey} (hne : key ≠ k.reportKey) (v : ℕ) :
    (setLastGenerated k v history).byReportKey.lookup key = history.byReportKey.lookup key := by
  cases k with
  | uniqueActives => exact lookup_setUniqueActives_of_ne hne _ _ _
  | numeric => exact lookup_setPerDeviceNumeric_of_ne hne _ _ _ _
  | reportParticipation => exact lookup_setReportParticipation_of_ne hne _

/-- A write to the history of one report is not seen by the sources of another one. -/
theorem getLastGenerated_setLastGenerated_of_ne {history : AggregatedObservationHistoryStore}
    {k k' : ObservationSource} (hne : k'.reportKey ≠ k.reportKey) (v : ℕ) :
    getLastGenerated (setLastGenerated k v history) k' = getLastGenerated history k' :=
  getLastGenerated_congr (lookup_setLastGenerated_of_ne hne v)

section

variable (L : ObservationSource → Prop) [DecidablePred L] (P : ObservationSource → ℕ → Prop)

/-- The watermark of a source; zero for the sources that are not followed. -/
def mark (history : AggregatedObservationHistoryStore) (k : ObservationSource) : ℕ :=
  if L k then getLastGenerated history k else 0

/-- The observations of the sources that are followed, by source and day. -/
def tracked (written : List Written) : List (ObservationSource × ℕ) :=
  written.filterMap fun w => if L w.source then some (w.source, w.dayIndex) else none

/-- Every source has a place of its own in the history. -/
def Independent (L : ObservationSource → Prop) : Prop :=
  ∀ history k k' v, L k → L k' →
    getLastGenerated (setLastGenerated k v history) k' =
      if k' = k then v else getLastGenerated history k'

/-- The source is not followed, and its writes are not seen by those that are. -/
def Foreign (L : ObservationSource → Prop) (k : ObservationSource) : Prop :=
  ¬ L k ∧ ∀ history v k', L k' →
    getLastGenerated (setLastGenerated k v history) k' = getLastGenerated history k'

/-- No watermark is so large that the next day would wrap. -/
def Bounded (L : ObservationSource → Prop) (history : AggregatedObservationHistoryStore) : Prop :=
  ∀ k, L k → getLastGenerated history k < U32.max

/-- From `s` to `s'` the sources of `L` were swept. -/
def Generates (s s' : GenState) : Prop :=
  Bounded L s.obsHistory → Bounded L s'.obsHistory ∧ ∃ new, s'.written = s.written ++ new ∧
    Watermark.Sweep P (mark L s.obsHistory) (mark L s'.obsHistory) (tracked L new)

variable {L P} {s s' s'' : GenState}

@[simp] theorem tracked_append (l l' : List Written) :
    tracked L (l ++ l') = tracked L l ++ tracked L l' :=
  List.filterMap_append

theorem mem_tracked {written : List Written} {k : ObservationSource} {d : ℕ} :
    (k, d) ∈ tracked L written ↔ L k ∧ ∃ w ∈ written, w.source = k ∧ w.dayIndex = d := by
  simp only [tracked, List.mem_filterMap, Option.ite_none_right_eq_some, Option.some.injEq,
    Prod.mk.injEq]
  constructor
  · rintro ⟨w, hmem, hL, rfl, rfl⟩
    exact ⟨hL, w, hmem, rfl, rfl⟩
  · rintro ⟨hL, w, hmem, rfl, rfl⟩
    exact ⟨w, hmem, hL, rfl, rfl⟩

theorem mark_of_mem {history : AggregatedObservationHistoryStore} {k : ObservationSource}
    (h : L k) : mark L history k = getLastGenerated history k :=
  if_pos h

theorem Generates.refl (s : GenState) : Generates L P s s :=
  fun h => ⟨h, [], (List.append_nil _).symm, Watermark.Sweep.refl _ _⟩

theorem Generates.trans (h₁ : Generates L P s s') (h₂ : Generates L P s' s'') :
    Generates L P s s'' := by
  intro hb
  obtain ⟨hb', new, hnew, hsweep⟩ := h₁ hb
  obtain ⟨hb'', new', hnew', hsweep'⟩ := h₂ hb'
  refine ⟨hb'', new ++ new', by rw [hnew', hnew, List.append_assoc], ?_⟩
  rw [tracked_append]
  exact hsweep.trans hsweep'

/-- A state with the same watermarks and no new observation that is followed. -/
private theorem Generates.of_mark_eq
    (hget : ∀ k, L k → getLastGenerated s'.obsHistory k = getLastGenerated s.obsHistory k)
    {new : List Written} (hnew : s'.written = s.written ++ new) (htracked : tracked L new = []) :
    Generates L P s s' := by
  intro hb
  refine ⟨fun k hk => (hget k hk).trans_lt (hb k hk), new, hnew, ?_⟩
  have hmark : mark L s'.obsHistory = mark L s.obsHistory := by
    funext k
    rw [mark, mark]
    split_ifs with hk
    · exact hget k hk
    · rfl
  rw [htracked, hmark]
  exact Watermark.Sweep.refl _ _

/-! ### What is not followed -/

private theorem tracked_singleton_of_not {w : Written} (h : ¬ L w.source) :
    tracked L [w] = [] := by
  simp [tracked, h]

theorem generates_generateSingle_of_not {w : Written} (h : ¬ L w.source) (backend : Backend)
    (s : GenState) : Generates L P s (generateSingle backend w s).2 := by
  rcases generateSingle_cases backend w s with ⟨_, hs⟩ | hs
  · rw [hs]
    exact .of_mark_eq (fun _ _ => rfl) (List.append_nil _).symm rfl
  · rw [hs]
    exact .of_mark_eq (fun _ _ => rfl) rfl (tracked_singleton_of_not h)

theorem generates_record_of_foreign {k : ObservationSource} (h : Foreign L k) (d : ℕ)
    (s : GenState) : Generates L P s (record (setLastGenerated k d) s).2 :=
  .of_mark_eq (fun k' hk' => h.2 _ _ k' hk') (List.append_nil _).symm rfl

/-! ### Items of the sources that are followed -/

variable (L P) in
/-- Worked off from the watermarks `m`, every item moves the watermark of a followed source to a
later day, passes over no due day, and writes an observation if and only if its day is due. -/
def Feasible : (ObservationSource → ℕ) → List Item → Prop
  | _, [] => True
  | _, .fail status :: _ => status ≠ .kOK
  | m, .generate k d o :: items =>
    (L k ∧ m k < d ∧ d < U32.max ∧ (∀ e, m k < e → e < d → ¬ P k e) ∧ (o.isSome ↔ P k d)) ∧
      Feasible (Function.update m k d) items

/-- Recording a day moves one watermark. -/
private theorem mark_setLastGenerated (hind : Independent L) {k : ObservationSource} (hk : L k)
    (d : ℕ) (history : AggregatedObservationHistoryStore) :
    mark L (setLastGenerated k d history) = Function.update (mark L history) k d := by
  funext k'
  rw [Function.update_apply, mark, mark]
  by_cases hk' : L k'
  · rw [if_pos hk', if_pos hk', hind _ _ _ _ hk hk']
  · have hne : k' ≠ k := fun h => hk' (h ▸ hk)
    rw [if_neg hk', if_neg hk', if_neg hne]

/-- A feasible item that was worked off moves one watermark. -/
private theorem generates_item (hind : Independent L) {backend : Backend} {k : ObservationSource}
    {d : ℕ} {o : Option Observation} {items : List Item} {s : GenState}
    (hfeasible : Feasible L P (mark L s.obsHistory) (.generate k d o :: items))
    (hok : (runItem backend (.generate k d o) s).1 = .kOK) :
    Generates L P s (runItem backend (.generate k d o) s).2 ∧
      mark L (runItem backend (.generate k d o) s).2.obsHistory =
        Function.update (mark L s.obsHistory) k d := by
  obtain ⟨⟨hL, hlt, hmax, hskip, hdue⟩, -⟩ := hfeasible
  rcases runItem_cases backend (.generate k d o) s with ⟨_, _, hfail⟩ |
      ⟨k', d', o', heq, _, hhist, hwritten⟩
  · cases hfail hok
  cases heq
  have hmark : mark L (runItem backend (.generate k d o) s).2.obsHistory =
      Function.update (mark L s.obsHistory) k d := by
    rw [hhist, mark_setLastGenerated hind hL]
  refine ⟨fun hb => ⟨fun k' hk' => ?_, _, hwritten, ?_⟩, hmark⟩
  · rw [hhist, hind _ _ _ _ hL hk']
    split_ifs
    · exact hmax
    · exact hb k' hk'
  · rw [hmark]
    cases o with
    | none =>
      have hnot : ¬ P k d := fun h => by simp at hdue; exact hdue h
      refine Watermark.Sweep.skip hlt.le (fun e hlo hhi => ?_)
        fun k' => Function.update_apply _ _ _ _
      rcases Nat.lt_or_eq_of_le hhi with hhi | rfl
      · exact hskip e hlo hhi
      · exact hnot
    | some o =>
      have hsingle : tracked L (Item.output (.generate k d (some o))) = [(k, d)] := by
        simp [tracked, Item.output, hL]
      rw [hsingle]
      exact Watermark.Sweep.emit hlt (hdue.mp rfl) hskip fun k' => Function.update_apply _ _ _ _

/-- Feasible items sweep, wherever a failure stops them. -/
theorem generates_runAll_items (hind : Independent L) (backend : Backend) {items : List Item}
    {s : GenState} (hfeasible : Feasible L P (mark L s.obsHistory) items) :
    Generates L P s (Loop.runAll .kOK (runItem backend) items s).2 := by
  induction items generalizing s with
  | nil => exact .refl s
  | cons item items ih =>
    by_cases hok : (runItem backend item s).1 = .kOK
    · rw [Loop.runAll_cons_of_ok hok]
      cases item with
      | fail status => exact absurd hok hfeasible
      | generate k d o =>
        obtain ⟨hgenerates, hmark⟩ := generates_item hind hfeasible hok
        exact hgenerates.trans (ih (hmark ▸ hfeasible.2))
    · rw [Loop.runAll_cons_of_ne hok]
      rcases runItem_cases backend item s with ⟨hhist, hwritten, _⟩ | ⟨_, _, _, _, hok', _⟩
      · exact .of_mark_eq (fun _ _ => by rw [hhist]) (by rw [hwritten, List.append_nil]) rfl
      · exact absurd hok' hok

/-- Items that were worked off leave no watermark of theirs below their day. -/
theorem le_getLastGenerated_of_mem_items (hind : Independent L) {backend : Backend}
    {items : List Item} {s : GenState} (hfeasible : Feasible L P (mark L s.obsHistory) items)
    (hb : Bounded L s.obsHistory) (hok : (Loop.runAll .kOK (runItem backend) items s).1 = .kOK)
    {k : ObservationSource} {d : ℕ} {o : Option Observation} (hmem : .generate k d o ∈ items) :
    d ≤ mark L (Loop.runAll .kOK (runItem backend) items s).2.obsHistory k := by
  induction items generalizing s with
  | nil => exact absurd hmem List.not_mem_nil
  | cons item items ih =>
    by_cases hitem : (runItem backend item s).1 = .kOK
    · rw [Loop.runAll_cons_of_ok hitem] at hok ⊢
      cases item with
      | fail status => exact absurd hitem hfeasible
      | generate k' d' o' =>
        obtain ⟨hgenerates, hmark⟩ := generates_item hind hfeasible hitem
        have hrest := hmark ▸ hfeasible.2
        have hb' := (hgenerates hb).1
        rcases List.mem_cons.mp hmem with heq | hmem
        · cases heq
          obtain ⟨_, _, _, hsweep⟩ := generates_runAll_items hind backend hrest hb'
          refine le_trans ?_ (hsweep.mono k)
          rw [hmark, Function.update_self]
        · exact ih hrest hb' hok hmem
    · rw [Loop.runAll_cons_of_ne hitem] at hok
      exact absurd hok hitem

/-- The state in which a call starts has no outputs yet. -/
theorem Generates.sweep_of_call {history : AggregatedObservationHistoryStore} {g : GenState}
    (h : Generates L P ⟨history, 0, []⟩ g) (hb : Bounded L history) :
    Watermark.Sweep P (mark L history) (mark L g.obsHistory) (tracked L g.written) := by
  obtain ⟨_, new, hnew, hsweep⟩ := h hb
  rwa [hnew, List.nil_append]

/-- A call that is not `GenerateObservations` moves no watermark. -/
theorem fresh_of_run {s s' : AggregateStore} {call : Call} {out : List Written}
    (h : Call.run s call = some (out, s'))
    (hgen : ∀ backend utc loc status,
      generateObservations backend utc loc s = some (status, out, s') →
      Watermark.Fresh (mark L s.obsHistory) (mark L s'.obsHistory) (tracked L out)) :
    Watermark.Fresh (mark L s.obsHistory) (mark L s'.obsHistory) (tracked L out) := by
  rcases run_cases h with ⟨rfl, hhistory⟩ | ⟨backend, utc, loc, status, -, h⟩
  · rw [hhistory]
    exact Watermark.Fresh.refl _
  · exact hgen backend utc loc status h

theorem Generates.andThen {r : Status × GenState} {next : GenState → Status × GenState}
    (h : Generates L P s r.2) (hnext : ∀ s, Generates L P s (next s).2) :
    Generates L P s (andThen r next).2 := by
  rw [LocalAggregation.andThen]
  split_ifs
  · exact h.trans (hnext _)
  · exact h

/-- Two steps that succeed: the first one does, and what follows it is what the second one and the
steps after both of them do. -/
theorem Generates.of_andThen {r : Status × GenState} {next : GenState → Status × GenState}
    (hok : (LocalAggregation.andThen r next).1 = .kOK) (hnext : ∀ s, Generates L P s (next s).2)
    (h : Generates L P (LocalAggregation.andThen r next).2 s) : r.1 = .kOK ∧ Generates L P r.2 s := by
  rw [LocalAggregation.andThen] at hok h
  split_ifs at hok h with hr
  · exact ⟨hr, (hnext _).trans h⟩
  · exact absurd hok hr

end

/-! ### The backfill period -/

/-- The first day of the backfill period of a report; zero for a report without a valid time zone
policy. -/
def backfillPeriodStart (store : LocalAggregateStore)
    (backfillDays finalDayIndexUtc finalDayIndexLocal : ℕ) (key : ReportAggregationKey) : ℕ :=
  match (store.configOf key).bind fun config =>
      reportDayIndex config.metric.timeZonePolicy finalDayIndexUtc finalDayIndexLocal with
  | some finalDayIndex => finalDayIndex - backfillDays
  | none => 0

theorem backfillPeriodStart_eq {store : LocalAggregateStore}
    {backfillDays utc loc finalDayIndex : ℕ} {key : ReportAggregationKey}
    {aggregates : ReportAggregates} (hlookup : store.byReportKey.lookup key = some aggregates)
    (hfinal : reportDayIndex aggregates.aggregationConfig.metric.timeZonePolicy utc loc =
      some finalDayIndex) :
    backfillPeriodStart store backfillDays utc loc key = finalDayIndex - backfillDays := by
  rw [backfillPeriodStart, LocalAggregateStore.configOf, hlookup, Option.map_some,
    Option.bind_some, hfinal]

theorem WellFormed.bounded {s : AggregateStore} (h : WellFormed s) (L : ObservationSource → Prop) :
    Bounded L s.obsHistory :=
  fun k _ => h.history k

end Cobalt.LocalAggregation
