import Cobalt.Util.DatetimeUtil

/-!
# Day, week and month indices of calendar dates

`CalendarDateToDayIndex` computes in unsigned integers of 32 bits, and one of its constants is
negative there. Here the formula is taken with the arithmetic of the type, and shown to be the one
that counts days; weeks and months are computed from it.

## Main definitions

* `calendarDateToDayIndex32`, `calendarDateToWeekIndex`, `calendarDateToMonthIndex`.

## Main results

* `calendarDateToDayIndex32_eq`: no operation wraps in a way that shows.
* `calendarDate_indices`: the day index counts days, and the others group them into weeks and
  months.
-/

namespace Cobalt.Util

open Gregorian (Date Weekday)

/-! ### The functions of the source -/

def kDaysPerWeek : ℕ := 7

/-- The formula of `CalendarDateToDayIndex` in the arithmetic of `uint32_t`, where `-3` is
`2 ^ 32 - 3`. -/
def daysFromCivil32 (date : CalendarDate) : ℕ :=
  let year := U32.sub date.year (if date.month ≤ 2 then 1 else 0)
  let era := year / 400
  let yoe := U32.sub year (U32.mul era 400)
  let month := U32.add date.month (if date.month > 2 then U32.ofInt (-3) else 9)
  let doy := U32.sub (U32.add (U32.add (U32.mul 153 month) 2 / 5) date.dayOfMonth) 1
  let doe := U32.add (U32.sub (U32.add (U32.mul yoe 365) (yoe / 4)) (yoe / 100)) doy
  U32.sub (U32.add (U32.mul era kNumDaysPerEra) doe) kEpochOffset

/-- `CalendarDateToDayIndex`. -/
def calendarDateToDayIndex32 (date : CalendarDate) : ℕ :=
  if date.year < kEpochYearZero ∨ date.year ≥ kMaxCalendarYear ∨
      date.month < 1 ∨ date.month > kMonthsPerYear ∨
      date.dayOfMonth < 1 ∨ date.dayOfMonth > kMaxDaysPerMonth then kInvalidIndex
  else daysFromCivil32 date

/-- `DayIndexToWeekIndex`. -/
def dayIndexToWeekIndex (dayIndex : ℕ) : ℕ := U32.add dayIndex 4 / kDaysPerWeek

/-- `CalendarDateToWeekIndex`. -/
def calendarDateToWeekIndex (date : CalendarDate) : ℕ :=
  dayIndexToWeekIndex (calendarDateToDayIndex32 date)

/-- `CalendarDateToMonthIndex`. -/
def calendarDateToMonthIndex (date : CalendarDate) : ℕ :=
  if date.year < kEpochYearZero ∨ date.month < 1 ∨ date.month > kMonthsPerYear then U32.max
  else
    U32.sub (U32.add (U32.mul kMonthsPerYear (U32.sub date.year kEpochYearZero)) date.month) 1

/-- `MonthIndexToCalendarDate`. -/
def monthIndexToCalendarDate (monthIndex : ℕ) : CalendarDate where
  dayOfMonth := 1
  month := U32.add (monthIndex % kMonthsPerYear) 1
  year := U32.add (monthIndex / kMonthsPerYear) kEpochYearZero

/-! ### The arithmetic of 32 bits -/

/-- The month, counted from March: adding `2 ^ 32 - 3` subtracts `3`. -/
theorem monthFromMarch_eq {month : ℕ} (h : month ≤ 12) :
    U32.add month (if month > 2 then U32.ofInt (-3) else 9) =
      if month > 2 then month - 3 else month + 9 := by
  have hneg : U32.ofInt (-3) = 2 ^ 32 - 3 := rfl
  unfold U32.add U32.size
  split_ifs <;> omega

theorem dayOfYear_eq {month day : ℕ} (hmonth : month ≤ 11) (hday : 1 ≤ day ∧ day ≤ 31) :
    U32.sub (U32.add (U32.add (U32.mul 153 month) 2 / 5) day) 1 =
      (153 * month + 2) / 5 + day - 1 := by
  have hsize : U32.size = 4294967296 := rfl
  have hmonths : U32.add (U32.mul 153 month) 2 = 153 * month + 2 := by
    rw [U32.mul_of_lt (by omega), U32.add_of_lt (by omega)]
  rw [hmonths, U32.add_of_lt (by omega), U32.sub_of_le (by omega) (by omega)]

theorem dayOfEra_eq {yoe doy : ℕ} (hyoe : yoe < 400) (hdoy : doy ≤ 400) :
    U32.add (U32.sub (U32.add (U32.mul yoe 365) (yoe / 4)) (yoe / 100)) doy =
      yoe * 365 + yoe / 4 - yoe / 100 + doy := by
  have hsize : U32.size = 4294967296 := rfl
  have hyears : U32.add (U32.mul yoe 365) (yoe / 4) = yoe * 365 + yoe / 4 := by
    rw [U32.mul_of_lt (by omega), U32.add_of_lt (by omega)]
  have hcenturies : U32.sub (yoe * 365 + yoe / 4) (yoe / 100) =
      yoe * 365 + yoe / 4 - yoe / 100 :=
    U32.sub_of_le (by omega) (by omega)
  rw [hyears, hcenturies, U32.add_of_lt (by omega)]

/-- The formula does not wrap on the dates that pass the guard. -/
theorem daysFromCivil32_eq {date : CalendarDate}
    (hyear : 1970 ≤ date.year ∧ date.year < 10000) (hmonth : 1 ≤ date.month ∧ date.month ≤ 12)
    (hday : 1 ≤ date.dayOfMonth ∧ date.dayOfMonth ≤ 31) :
    daysFromCivil32 date = daysFromCivil date := by
  have hsize : U32.size = 4294967296 := rfl
  have hoffset : kEpochOffset ≤ daysUpTo date.year date.month date.dayOfMonth :=
    kEpochOffset_le hyear.1 hmonth.1 hday.1
  rw [daysUpTo, ← era_eq_daysBeforeYear, daysBeforeMonth] at hoffset
  have hmonth' : (if date.month > 2 then date.month - 3 else date.month + 9) ≤ 11 := by
    split_ifs <;> omega
  have hyear' : U32.sub date.year (if date.month ≤ 2 then 1 else 0) =
      date.year - if date.month ≤ 2 then 1 else 0 :=
    U32.sub_of_le (by omega) (by split_ifs <;> omega)
  unfold daysFromCivil32 daysFromCivil
  rw [monthFromMarch_eq hmonth.2, hyear']
  have hback : date.year - (if date.month ≤ 2 then 1 else 0) < 10000 := by omega
  generalize date.year - (if date.month ≤ 2 then 1 else 0) = year at hoffset hback ⊢
  generalize (if date.month > 2 then date.month - 3 else date.month + 9) = month
    at hoffset hmonth' ⊢
  have hera : U32.mul (year / 400) 400 = year / 400 * 400 := U32.mul_of_lt (by omega)
  have hyoe : U32.sub year (year / 400 * 400) = year - year / 400 * 400 :=
    U32.sub_of_le (by omega) (by omega)
  have hdoy : (153 * month + 2) / 5 + date.dayOfMonth - 1 ≤ 400 := by omega
  have hdays : year / 400 * kNumDaysPerEra ≤ 24 * kNumDaysPerEra :=
    Nat.mul_le_mul_right _ (by omega)
  have heras : kNumDaysPerEra = 146097 := rfl
  simp only [hera, hyoe]
  rw [dayOfYear_eq hmonth' hday, dayOfEra_eq (by omega) hdoy, U32.mul_of_lt (by omega),
    U32.add_of_lt (by omega), U32.sub_of_le (by omega) (by omega)]

/-- `CalendarDateToDayIndex` in 32 bits is the formula that counts days. -/
theorem calendarDateToDayIndex32_eq (date : CalendarDate) :
    calendarDateToDayIndex32 date = calendarDateToDayIndex date := by
  unfold calendarDateToDayIndex32 calendarDateToDayIndex
  split_ifs with hout
  · rfl
  · unfold kEpochYearZero kMaxCalendarYear kMonthsPerYear kMaxDaysPerMonth at hout
    exact daysFromCivil32_eq (by omega) (by omega) (by omega)

/-! ### The indices of the dates from 1970 to 9999 -/

/-- A date from the first of January 1970 to the last of December 9999. -/
def InRange (d : Date) : Prop := 1970 ≤ d.year ∧ d.year ≤ 9999

/-- The day index of a date. -/
def dayIndexOf (d : Date) : ℕ := calendarDateToDayIndex32 (toCalendarDate d)

/-- The week index of a date. -/
def weekIndexOf (d : Date) : ℕ := calendarDateToWeekIndex (toCalendarDate d)

/-- The month index of a date. -/
def monthIndexOf (d : Date) : ℕ := calendarDateToMonthIndex (toCalendarDate d)

/-- The index counts the days since the epoch, in the order of the dates. -/
structure CountsDays (index : Date → ℕ) : Prop where
  epoch : index .epoch = 0
  daysSince : ∀ d, InRange d → Date.next^[index d] .epoch = d
  next : ∀ d, InRange d → InRange d.next → index d.next = index d + 1
  before : ∀ d e, InRange d → InRange e → (d.Before e ↔ index d < index e)

/-- The index groups the days into weeks from a Sunday to a Saturday: it starts at zero on the
epoch and goes up by one on every Sunday, so that two dates have the same index if and only if there
is no Sunday after the first of them up to the second. -/
structure GroupsWeeks (day week : Date → ℕ) : Prop where
  epoch : week .epoch = 0
  next : ∀ d, InRange d → InRange d.next →
    week d.next = week d + if Weekday.ofDayNumber (day d.next) = .sunday then 1 else 0
  same : ∀ d e, InRange d → InRange e → day d ≤ day e →
    (week d = week e ↔ ∀ n, day d < n → n ≤ day e → Weekday.ofDayNumber n ≠ .sunday)

/-- The index groups the days into the months of the calendar, counted from the one of the
epoch. -/
structure GroupsMonths (month : Date → ℕ) : Prop where
  epoch : month .epoch = 0
  next : ∀ d, InRange d → InRange d.next →
    month d.next = month d + if d.next.day = 1 then 1 else 0
  same : ∀ d e, InRange d → InRange e →
    (month d = month e ↔ d.year = e.year ∧ d.month = e.month)

variable {d : Date}

theorem inRange_epoch : InRange .epoch := ⟨by decide, by decide⟩

theorem dayIndexOf_eq (h : InRange d) : dayIndexOf d = daysFromCivil (toCalendarDate d) := by
  have hmonth := d.month_mem
  have hday := d.day_mem.1
  have hle := d.day_le
  obtain ⟨hlo, hhi⟩ := h
  rw [dayIndexOf, calendarDateToDayIndex32_eq, calendarDateToDayIndex, if_neg]
  unfold kEpochYearZero kMaxCalendarYear kMonthsPerYear kMaxDaysPerMonth toCalendarDate
  dsimp only
  omega

theorem dayIndexOf_le (h : InRange d) : dayIndexOf d ≤ lastDayNumber := by
  have hlast := lastDayNumber_lt_iff h.1
  have hhi := h.2
  rw [dayIndexOf_eq h]
  unfold kMaxCalendarYear at hlast
  omega

theorem iterate_next_dayIndexOf (h : InRange d) : Date.next^[dayIndexOf d] .epoch = d := by
  rw [dayIndexOf_eq h]
  refine Date.iterate_next_of_next (f := fun date => daysFromCivil (toCalendarDate date)) rfl
    (fun d hd => ?_) h.1
  exact_mod_cast daysFromCivil_next hd

/-- The day index counts the days. -/
theorem countsDays_dayIndexOf : CountsDays dayIndexOf where
  epoch := rfl
  daysSince _ := iterate_next_dayIndexOf
  next d h hnext := by
    rw [dayIndexOf_eq h, dayIndexOf_eq hnext]
    exact_mod_cast daysFromCivil_next h.1
  before d e hd he := by
    conv_lhs => rw [← iterate_next_dayIndexOf hd, ← iterate_next_dayIndexOf he]
    exact Date.iterate_next_before_iff

theorem weekIndexOf_eq (h : InRange d) : weekIndexOf d = (dayIndexOf d + 4) / 7 := by
  have hle := dayIndexOf_le h
  have hsize : U32.size = 4294967296 := rfl
  unfold lastDayNumber at hle
  change U32.add (dayIndexOf d) 4 / kDaysPerWeek = _
  rw [U32.add_of_lt (by omega), kDaysPerWeek]

/-- The week index groups the days into weeks. -/
theorem groupsWeeks_weekIndexOf : GroupsWeeks dayIndexOf weekIndexOf where
  epoch := by rw [weekIndexOf_eq inRange_epoch, countsDays_dayIndexOf.epoch]
  next d h hnext := by
    simp only [Weekday.ofDayNumber_eq_sunday_iff]
    rw [weekIndexOf_eq h, weekIndexOf_eq hnext, countsDays_dayIndexOf.next d h hnext]
    split_ifs <;> omega
  same d e hd he hle := by
    simp only [ne_eq, Weekday.ofDayNumber_eq_sunday_iff]
    rw [weekIndexOf_eq hd, weekIndexOf_eq he]
    refine ⟨fun heq n hlo hhi => by omega, fun hnone => ?_⟩
    -- the last Sunday up to the second date is not after the first one
    by_contra hne
    have hlast := hnone (dayIndexOf e - (dayIndexOf e + 4) % 7)
    omega

theorem monthIndexOf_eq (h : InRange d) :
    (monthIndexOf d : ℤ) = 12 * (d.year - 1970) + d.month - 1 := by
  have hmonth := d.month_mem
  obtain ⟨hlo, hhi⟩ := h
  have hsize : U32.size = 4294967296 := rfl
  have hyears : U32.mul 12 (U32.sub d.year.toNat 1970) = 12 * (d.year.toNat - 1970) := by
    rw [U32.sub_of_le (by omega) (by omega), U32.mul_of_lt (by omega)]
  unfold monthIndexOf calendarDateToMonthIndex toCalendarDate kEpochYearZero kMonthsPerYear
  dsimp only
  rw [if_neg (by omega), hyears, U32.add_of_lt (by omega), U32.sub_of_le (by omega) (by omega)]
  omega

/-- The month index groups the days into months. -/
theorem groupsMonths_monthIndexOf : GroupsMonths monthIndexOf where
  epoch := rfl
  next d h hnext := by
    have hd := monthIndexOf_eq h
    have hn := monthIndexOf_eq hnext
    have hday := d.day_mem.1
    rcases d.next_cases with ⟨hy, hm, hd'⟩ | ⟨-, -, hy, hm, hd'⟩ | ⟨-, hdec, hy, hm, hd'⟩ <;>
      rw [hy, hm] at hn <;> split_ifs <;> omega
  same d e hd he := by
    have hd' := monthIndexOf_eq hd
    have he' := monthIndexOf_eq he
    have hdm := d.month_mem
    have hem := e.month_mem
    omega

/-- A month index names the first day of its month. -/
theorem monthIndexToCalendarDate_monthIndexOf (h : InRange d) :
    monthIndexToCalendarDate (monthIndexOf d) = ⟨1, d.month, d.year.toNat⟩ := by
  have hmonth := d.month_mem
  have hindex := monthIndexOf_eq h
  obtain ⟨hlo, hhi⟩ := h
  have hsize : U32.size = 4294967296 := rfl
  unfold monthIndexToCalendarDate kMonthsPerYear kEpochYearZero
  rw [U32.add_of_lt (by omega), U32.add_of_lt (by omega)]
  congr 1 <;> omega

/-- **The indices of the calendar.** From the first of January 1970 to the last of December 9999 the
day index counts the days, the week index groups them into weeks from Sunday to Saturday, and the
month index into the months of the calendar. -/
theorem calendarDate_indices :
    CountsDays dayIndexOf ∧ GroupsWeeks dayIndexOf weekIndexOf ∧ GroupsMonths monthIndexOf :=
  ⟨countsDays_dayIndexOf, groupsWeeks_weekIndexOf, groupsMonths_monthIndexOf⟩

end Cobalt.Util
