import Mathlib.Algebra.Order.Ring.Int
import Mathlib.Logic.Function.Iterate

/-!
# The Gregorian calendar

Dates of the proleptic Gregorian calendar, and the date of a day that is given by its distance from
the first of January 1970. The calendar is given by what the next and the previous day are, so that
a formula for the number of a day is right as soon as it goes up by one from a day to the next.

## Main definitions

* `Date`, `Date.next`, `Date.prev`.
* `Date.ofDayNumber`: the date of the day with a number.
* `Date.Before`: the order of the dates.
* `Weekday`, `Weekday.ofDayNumber`.

## Main results

* `Date.next_cases`: what the next day is.
* `Date.eq_dayNumber_of_next`: a numbering of the days that is zero on the first and goes up by one
  is the number of the day.
* `Date.year_ofDayNumber_of_neg`, `Date.year_ofDayNumber_of_nonneg`: the years of the days before
  the epoch and from it on.
* `Date.iterate_next_of_next`: every date from the epoch on is reached from it.
* `Date.iterate_next_before_iff`: the dates are in the order of their numbers.
-/

namespace Gregorian

/-- A leap year is a multiple of 4 that is not a multiple of 100 unless it is one of 400. -/
def IsLeap (year : ℤ) : Prop := year % 4 = 0 ∧ (year % 100 ≠ 0 ∨ year % 400 = 0)

instance (year : ℤ) : Decidable (IsLeap year) := inferInstanceAs (Decidable (_ ∧ _))

/-- The number of days of a month. -/
def daysInMonth (year : ℤ) (month : ℕ) : ℕ :=
  match month with
  | 2 => if IsLeap year then 29 else 28
  | 4 | 6 | 9 | 11 => 30
  | _ => 31

theorem daysInMonth_mem (year : ℤ) (month : ℕ) :
    1 ≤ daysInMonth year month ∧ daysInMonth year month ≤ 31 := by
  unfold daysInMonth
  split
  · split_ifs <;> omega
  all_goals omega

/-- A date; its month and its day are in range. -/
structure Date where
  year : ℤ
  month : ℕ
  day : ℕ
  month_mem : 1 ≤ month ∧ month ≤ 12
  day_mem : 1 ≤ day ∧ day ≤ daysInMonth year month
  deriving DecidableEq, Repr

namespace Date

/-- The first of a month. -/
def firstOf (year : ℤ) (month : ℕ) (h : 1 ≤ month ∧ month ≤ 12) : Date :=
  ⟨year, month, 1, h, le_rfl, (daysInMonth_mem year month).1⟩

/-- The last of a month. -/
def lastOf (year : ℤ) (month : ℕ) (h : 1 ≤ month ∧ month ≤ 12) : Date :=
  ⟨year, month, daysInMonth year month, h, (daysInMonth_mem year month).1, le_rfl⟩

/-- The day after a date. -/
def next (d : Date) : Date :=
  if hday : d.day < daysInMonth d.year d.month then
    ⟨d.year, d.month, d.day + 1, d.month_mem, Nat.succ_pos _, hday⟩
  else if hmonth : d.month < 12 then firstOf d.year (d.month + 1) ⟨Nat.succ_pos _, hmonth⟩
  else firstOf (d.year + 1) 1 ⟨le_rfl, Nat.le_of_ble_eq_true rfl⟩

/-- The day before a date. -/
def prev (d : Date) : Date :=
  if hday : 1 < d.day then
    ⟨d.year, d.month, d.day - 1, d.month_mem, Nat.le_sub_one_of_lt hday,
      (Nat.sub_le _ _).trans d.day_mem.2⟩
  else if hmonth : 1 < d.month then
    lastOf d.year (d.month - 1) ⟨Nat.le_sub_one_of_lt hmonth, (Nat.sub_le _ _).trans d.month_mem.2⟩
  else lastOf (d.year - 1) 12 ⟨Nat.le_of_ble_eq_true rfl, le_rfl⟩

/-- The first of January 1970, which has the number zero. -/
def epoch : Date := firstOf 1970 1 ⟨le_rfl, Nat.le_of_ble_eq_true rfl⟩

/-- The date of a day that is given by its distance from the epoch. -/
def ofDayNumber : ℤ → Date
  | .ofNat n => next^[n] epoch
  | .negSucc n => prev^[n + 1] epoch

theorem day_le (d : Date) : d.day ≤ 31 := d.day_mem.2.trans (daysInMonth_mem _ _).2

/-- **The day after a date** is in the same month, the first of the next month, or the first of the
next year. -/
theorem next_cases (d : Date) :
    (d.next.year = d.year ∧ d.next.month = d.month ∧ d.next.day = d.day + 1) ∨
    (d.day = daysInMonth d.year d.month ∧ d.month < 12 ∧
      d.next.year = d.year ∧ d.next.month = d.month + 1 ∧ d.next.day = 1) ∨
    (d.day = daysInMonth d.year d.month ∧ d.month = 12 ∧
      d.next.year = d.year + 1 ∧ d.next.month = 1 ∧ d.next.day = 1) := by
  have hday := d.day_mem.2
  have hmonth := d.month_mem.2
  unfold next
  split_ifs with hlt hlast
  · exact Or.inl ⟨rfl, rfl, rfl⟩
  · exact Or.inr (Or.inl ⟨by omega, hlast, rfl, rfl, rfl⟩)
  · exact Or.inr (Or.inr ⟨by omega, by omega, rfl, rfl, rfl⟩)

theorem year_next (d : Date) : d.year ≤ d.next.year ∧ d.next.year ≤ d.year + 1 := by
  rcases next_cases d with h | h | h <;> omega

theorem year_prev (d : Date) : d.year - 1 ≤ d.prev.year ∧ d.prev.year ≤ d.year := by
  unfold prev
  split_ifs <;> dsimp only [lastOf] <;> omega

/-- The years of the days from the epoch on. -/
theorem year_iterate_next (n : ℕ) :
    1970 ≤ (next^[n] epoch).year ∧ (next^[n] epoch).year ≤ 1970 + n := by
  induction n with
  | zero => exact ⟨le_rfl, le_rfl⟩
  | succ n ih =>
    rw [Function.iterate_succ_apply']
    have hstep := year_next (next^[n] epoch)
    omega

/-- The years of the days before the epoch. -/
theorem year_iterate_prev (n : ℕ) :
    1969 - (n : ℤ) ≤ (prev^[n + 1] epoch).year ∧ (prev^[n + 1] epoch).year ≤ 1969 := by
  induction n with
  | zero => exact ⟨le_rfl, le_rfl⟩
  | succ n ih =>
    rw [Function.iterate_succ_apply']
    have hstep := year_prev (prev^[n + 1] epoch)
    omega

/-- A day before the epoch is in an earlier year. -/
theorem year_ofDayNumber_of_neg {n : ℤ} (h : n < 0) :
    1970 + n ≤ (ofDayNumber n).year ∧ (ofDayNumber n).year < 1970 := by
  obtain ⟨k, rfl⟩ := Int.eq_negSucc_of_lt_zero h
  have hyear := year_iterate_prev k
  rw [ofDayNumber, Int.negSucc_eq]
  omega

/-- A day from the epoch on is in 1970 or later, and no more years later than days. -/
theorem year_ofDayNumber_of_nonneg {n : ℤ} (h : 0 ≤ n) :
    1970 ≤ (ofDayNumber n).year ∧ (ofDayNumber n).year ≤ 1970 + n := by
  obtain ⟨k, rfl⟩ := Int.eq_ofNat_of_zero_le h
  exact year_iterate_next k

/-- A numbering of the days from 1970 on that is zero on the first and goes up by one from a day
to the next gives the number of the day. -/
theorem eq_dayNumber_of_next {f : Date → ℤ} (hepoch : f epoch = 0)
    (hnext : ∀ d : Date, 1970 ≤ d.year → f d.next = f d + 1) {n : ℤ} (h : 0 ≤ n) :
    f (ofDayNumber n) = n := by
  obtain ⟨k, rfl⟩ := Int.eq_ofNat_of_zero_le h
  change f (next^[k] epoch) = k
  induction k with
  | zero => exact hepoch
  | succ k ih =>
    rw [Function.iterate_succ_apply', hnext _ (year_iterate_next k).1, ih (by omega)]
    push_cast
    rfl

/-! ### The days from the epoch on -/

theorem eq_of_fields {d e : Date} (hyear : d.year = e.year) (hmonth : d.month = e.month)
    (hday : d.day = e.day) : d = e := by
  cases d
  cases e
  subst hyear hmonth hday
  rfl

/-- The day before a date is in the same month, the last of the month before, or the last of the
year before. -/
theorem prev_cases (d : Date) :
    (d.prev.year = d.year ∧ d.prev.month = d.month ∧ d.prev.day + 1 = d.day) ∨
    (d.day = 1 ∧ d.prev.year = d.year ∧ d.prev.month + 1 = d.month ∧
      d.prev.day = daysInMonth d.prev.year d.prev.month) ∨
    (d.day = 1 ∧ d.month = 1 ∧ d.prev.year = d.year - 1 ∧ d.prev.month = 12 ∧
      d.prev.day = daysInMonth d.prev.year d.prev.month) := by
  have hday := d.day_mem.1
  have hmonth := d.month_mem.1
  unfold prev
  split_ifs with hfirst hjanuary
  · exact Or.inl ⟨rfl, rfl, Nat.sub_add_cancel hday⟩
  · exact Or.inr (Or.inl ⟨by omega, rfl, Nat.sub_add_cancel hmonth, rfl⟩)
  · exact Or.inr (Or.inr ⟨by omega, by omega, rfl, rfl, rfl⟩)

/-- The day after the day before a date. -/
theorem next_prev (d : Date) : d.prev.next = d := by
  have hmonth := d.month_mem
  have hle := d.day_mem.2
  rcases d.prev_cases with ⟨hy, hm, hd⟩ | ⟨hone, hy, hm, hlast⟩ | ⟨hone, hm, hy, hdec, hlast⟩
  · rcases d.prev.next_cases with h | h | h
    · exact eq_of_fields (h.1.trans hy) (h.2.1.trans hm) (h.2.2.trans hd)
    all_goals
      rw [hy, hm] at h
      omega
  · have hnot : ¬ d.prev.day < daysInMonth d.prev.year d.prev.month := by omega
    rw [next, dif_neg hnot, dif_pos (by omega)]
    exact eq_of_fields hy hm hone.symm
  · have hnot : ¬ d.prev.day < daysInMonth d.prev.year d.prev.month := by omega
    rw [next, dif_neg hnot, dif_neg (by omega)]
    exact eq_of_fields (by dsimp only [firstOf]; omega) hm.symm hone.symm

/-- The day before a date of 1970 or later that is not the epoch is of 1970 or later. -/
theorem year_prev_of_ne_epoch {d : Date} (h : 1970 ≤ d.year) (hne : d ≠ epoch) :
    1970 ≤ d.prev.year := by
  rcases d.prev_cases with hcase | hcase | ⟨hone, hm, hy, -, -⟩
  · exact hcase.1 ▸ h
  · exact hcase.2.1 ▸ h
  · have hyear : d.year ≠ 1970 := fun heq => hne (eq_of_fields heq hm hone)
    omega

/-- Every date from the epoch on is reached, after as many days as a numbering of the days gives
it that is zero on the first and goes up by one. -/
theorem iterate_next_of_next {f : Date → ℕ} (hepoch : f epoch = 0)
    (hnext : ∀ d : Date, 1970 ≤ d.year → f d.next = f d + 1) {d : Date} (h : 1970 ≤ d.year) :
    next^[f d] epoch = d := by
  induction hn : f d generalizing d with
  | zero =>
    by_contra hne
    have hstep := hnext d.prev (year_prev_of_ne_epoch h (Ne.symm hne))
    rw [next_prev] at hstep
    omega
  | succ n ih =>
    have hne : d ≠ epoch := by
      rintro rfl
      omega
    have hyear := year_prev_of_ne_epoch h hne
    have hstep := hnext d.prev hyear
    rw [next_prev] at hstep
    rw [Function.iterate_succ_apply', ih hyear (by omega), next_prev]

/-- A date comes before another one. -/
def Before (d e : Date) : Prop :=
  d.year < e.year ∨ (d.year = e.year ∧ (d.month < e.month ∨ (d.month = e.month ∧ d.day < e.day)))

/-- A number that orders the dates. -/
def orderKey (d : Date) : ℤ := (d.year * 12 + d.month) * 32 + d.day

theorem before_iff_orderKey_lt {d e : Date} : d.Before e ↔ d.orderKey < e.orderKey := by
  have hd := d.day_le
  have he := e.day_le
  have hd' := d.day_mem.1
  have he' := e.day_mem.1
  have hdm := d.month_mem
  have hem := e.month_mem
  unfold Before orderKey
  omega

theorem orderKey_lt_next (d : Date) : d.orderKey < d.next.orderKey := by
  have hd := d.day_le
  have hdm := d.month_mem
  unfold orderKey
  rcases next_cases d with h | h | h <;> omega

/-- The dates are in the order of their numbers. -/
theorem iterate_next_before_iff {m n : ℕ} :
    (next^[m] epoch).Before (next^[n] epoch) ↔ m < n := by
  have hmono : StrictMono fun n : ℕ => (next^[n] epoch).orderKey := by
    refine strictMono_nat_of_lt_succ fun n => ?_
    rw [Function.iterate_succ_apply']
    exact orderKey_lt_next _
  rw [before_iff_orderKey_lt]
  exact hmono.lt_iff_lt

end Date

/-! ### Weekdays -/

/-- The days of the week. -/
inductive Weekday
  | sunday
  | monday
  | tuesday
  | wednesday
  | thursday
  | friday
  | saturday
  deriving DecidableEq, Repr

namespace Weekday

/-- The next day of the week. -/
def next : Weekday → Weekday
  | sunday => monday
  | monday => tuesday
  | tuesday => wednesday
  | wednesday => thursday
  | thursday => friday
  | friday => saturday
  | saturday => sunday

/-- The weekday of the day with a number; the epoch was a Thursday. -/
def ofDayNumber (n : ℕ) : Weekday := next^[n] thursday

/-- How many days before it the last Sunday was. -/
def daysAfterSunday : Weekday → ℕ
  | sunday => 0
  | monday => 1
  | tuesday => 2
  | wednesday => 3
  | thursday => 4
  | friday => 5
  | saturday => 6

theorem daysAfterSunday_next (w : Weekday) :
    w.next.daysAfterSunday = (w.daysAfterSunday + 1) % 7 := by
  cases w <;> rfl

theorem daysAfterSunday_ofDayNumber (n : ℕ) : (ofDayNumber n).daysAfterSunday = (n + 4) % 7 := by
  induction n with
  | zero => rfl
  | succ n ih =>
    rw [ofDayNumber] at ih ⊢
    rw [Function.iterate_succ_apply', daysAfterSunday_next, ih]
    omega

theorem eq_sunday_iff (w : Weekday) : w = sunday ↔ w.daysAfterSunday = 0 := by
  cases w <;> simp [daysAfterSunday]

/-- The Sundays from the epoch on. -/
theorem ofDayNumber_eq_sunday_iff (n : ℕ) : ofDayNumber n = sunday ↔ (n + 4) % 7 = 0 := by
  rw [eq_sunday_iff, daysAfterSunday_ofDayNumber]

end Weekday

end Gregorian
