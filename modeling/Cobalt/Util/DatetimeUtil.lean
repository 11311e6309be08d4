import Cobalt.Lib.Gregorian
import Cobalt.Lib.MachineInt
import Cobalt.Registry.Definitions
import Mathlib.Tactic.IntervalCases

/-!
# Day indices

The day index of a time is the number of days from the first of January 1970. It is computed from
the calendar date that `gmtime_r` or `localtime_r` gives, by a formula that is guarded by a range of
years; dates out of that range get the index `kInvalidIndex`.

## Main definitions

* `SystemTime`, `LocalOffset`: the times of the system clock and the offsets from UTC.
* `calendarDateToDayIndex`, `timeToDayIndex`.

## Main results

* `daysFromCivil_next`: the formula goes up by one from a day to the next.
* `timeToDayIndex_eq`: the index of a time is the number of its day if that day is from the first of
  January 1970 to the last of December 9999, and else `kInvalidIndex`.
-/

namespace Cobalt.Util

open Gregorian (Date daysInMonth IsLeap)

/-! ### Times -/

/-- A `system_clock::time_point`; the clock counts microseconds in a signed integer of 64 bits. -/
structure SystemTime where
  microseconds : ℤ
  mem : -(2 ^ 63) ≤ microseconds ∧ microseconds < 2 ^ 63
  deriving DecidableEq, Repr

/-- `system_clock::to_time_t`, which rounds towards zero. -/
def SystemTime.toTimeT (time : SystemTime) : ℤ := time.microseconds.tdiv 1000000

/-- The offset of the local time from UTC; a time zone file has 32 bits for it. -/
structure LocalOffset where
  seconds : ℤ
  mem : -(2 ^ 31) ≤ seconds ∧ seconds < 2 ^ 31
  deriving DecidableEq, Repr

def kNumUnixSecondsPerDay : ℤ := 60 * 60 * 24

/-- The fields of a `struct tm` that are used. -/
structure TimeInfo where
  tmMday : ℤ
  tmMon : ℤ
  tmYear : ℤ
  deriving DecidableEq, Repr

/-- The broken-down date of the day with a number. -/
def TimeInfo.ofDate (date : Date) : TimeInfo := ⟨date.day, date.month - 1, date.year - 1900⟩

/-- `gmtime_r`. -/
def gmtime (time : ℤ) : TimeInfo := .ofDate (.ofDayNumber (time / kNumUnixSecondsPerDay))

/-- `localtime_r`. -/
def localtime (offset : LocalOffset) (time : ℤ) : TimeInfo := gmtime (time + offset.seconds)

/-! ### The functions of the source -/

/-- `CalendarDate`. -/
structure CalendarDate where
  dayOfMonth : ℕ
  month : ℕ
  year : ℕ
  deriving DecidableEq, Repr

def kNumDaysPerEra : ℕ := 146097
def kEpochOffset : ℕ := kNumDaysPerEra * 5 - 30 * 365 - 8 - 59
def kEpochYearZero : ℕ := 1970
def kTimeInfoYearZero : ℕ := 1900
def kMonthsPerYear : ℕ := 12
def kMaxDaysPerMonth : ℕ := 31
def kMaxCalendarYear : ℕ := 10000
def kInvalidIndex : ℕ := U32.max

/-- `TimeInfoToCalendarDate`. -/
def timeInfoToCalendarDate (timeInfo : TimeInfo) : CalendarDate where
  dayOfMonth := U32.ofInt timeInfo.tmMday
  month := U32.ofInt (timeInfo.tmMon + 1)
  year := U32.ofInt (timeInfo.tmYear + kTimeInfoYearZero)

/-- The formula of `CalendarDateToDayIndex`, which counts years as beginning on the first of March.
On the dates that it is used for no operation wraps. -/
def daysFromCivil (date : CalendarDate) : ℕ :=
  let year := date.year - if date.month ≤ 2 then 1 else 0
  let era := year / 400
  let yoe := year - era * 400
  let doy := (153 * (if date.month > 2 then date.month - 3 else date.month + 9) + 2) / 5 +
    date.dayOfMonth - 1
  let doe := yoe * 365 + yoe / 4 - yoe / 100 + doy
  era * kNumDaysPerEra + doe - kEpochOffset

/-- `CalendarDateToDayIndex`. -/
def calendarDateToDayIndex (date : CalendarDate) : ℕ :=
  if date.year < kEpochYearZero ∨ date.year ≥ kMaxCalendarYear ∨
      date.month < 1 ∨ date.month > kMonthsPerYear ∨
      date.dayOfMonth < 1 ∨ date.dayOfMonth > kMaxDaysPerMonth then kInvalidIndex
  else daysFromCivil date

/-- `TimeToDayIndex`. -/
def timeToDayIndex (offset : LocalOffset) (time : ℤ) (timeZone : TimeZonePolicy) : ℕ :=
  match timeZone with
  | .LOCAL => calendarDateToDayIndex (timeInfoToCalendarDate (localtime offset time))
  | .UTC => calendarDateToDayIndex (timeInfoToCalendarDate (gmtime time))
  | .unrecognized _ => U32.max

/-! ### The formula -/

/-- A date with a year that is not negative. -/
def toCalendarDate (date : Date) : CalendarDate := ⟨date.day, date.month, date.year.toNat⟩

/-- The number of days from the first of March of the year zero to that of another year. -/
def daysBeforeYear (year : ℕ) : ℕ := 365 * year + year / 4 - year / 100 + year / 400

theorem era_eq_daysBeforeYear (year : ℕ) :
    year / 400 * kNumDaysPerEra + ((year - year / 400 * 400) * 365 +
      (year - year / 400 * 400) / 4 - (year - year / 400 * 400) / 100) = daysBeforeYear year := by
  unfold kNumDaysPerEra daysBeforeYear
  omega

/-- A year from March to February has 366 days when its February is in a leap year. -/
theorem daysBeforeYear_succ (year : ℕ) :
    daysBeforeYear (year + 1) =
      daysBeforeYear year + 365 + if IsLeap ((year + 1 : ℕ) : ℤ) then 1 else 0 := by
  have hstep (b : ℕ) : (year + 1) / b = year / b + if b ∣ year + 1 then 1 else 0 :=
    Nat.succ_div
  have hle : year / 100 ≤ 365 * year := by omega
  have hleap : IsLeap ((year + 1 : ℕ) : ℤ) ↔
      4 ∣ year + 1 ∧ (¬ 100 ∣ year + 1 ∨ 400 ∣ year + 1) := by
    unfold IsLeap
    omega
  simp only [daysBeforeYear, hstep, hleap]
  -- a multiple of 400 is one of 100, and a multiple of 100 is one of 4
  by_cases h4 : 4 ∣ year + 1
  · by_cases h100 : 100 ∣ year + 1
    · by_cases h400 : 400 ∣ year + 1
      · simp only [h4, h100, h400, if_true, or_true, and_true]
        omega
      · simp only [h4, h100, h400, if_true, if_false, not_true_eq_false, or_false, and_false]
        omega
    · have h400 : ¬ 400 ∣ year + 1 := by omega
      simp only [h4, h100, h400, if_true, if_false, not_false_eq_true, true_or, and_true]
      omega
  · have h100 : ¬ 100 ∣ year + 1 := by omega
    have h400 : ¬ 400 ∣ year + 1 := by omega
    simp only [h4, h100, h400, if_false, false_and]
    omega

/-- The number of days from the first of March to the first of a month. -/
def daysBeforeMonth (month : ℕ) : ℕ :=
  (153 * (if month > 2 then month - 3 else month + 9) + 2) / 5

/-- The day after the last of a month other than February is the first of the next month. -/
theorem daysBeforeMonth_succ {year : ℤ} {month : ℕ} (h : 1 ≤ month ∧ month < 12)
    (hne : month ≠ 2) :
    daysBeforeMonth (month + 1) = daysBeforeMonth month + daysInMonth year month := by
  obtain ⟨hpos, hlt⟩ := h
  interval_cases month <;> first | rfl | omega

theorem daysBeforeYear_mono : Monotone daysBeforeYear :=
  monotone_nat_of_le_succ fun year => by
    rw [daysBeforeYear_succ]
    omega

/-- The days that the formula counts up to a date, from the first of March of the year zero. -/
def daysUpTo (year month day : ℕ) : ℕ :=
  daysBeforeYear (year - if month ≤ 2 then 1 else 0) + (daysBeforeMonth month + day - 1)

/-- The formula counts days, in three parts: whole years, whole months, and days. -/
theorem daysFromCivil_eq (date : CalendarDate) :
    daysFromCivil date = daysUpTo date.year date.month date.dayOfMonth - kEpochOffset := by
  rw [daysUpTo, ← era_eq_daysBeforeYear]
  simp only [daysFromCivil, daysBeforeMonth]
  omega

/-- The days that are counted up to a date of 1970 or later reach the epoch. -/
theorem kEpochOffset_le {year month day : ℕ} (hyear : 1970 ≤ year) (hmonth : 1 ≤ month)
    (hday : 1 ≤ day) : kEpochOffset ≤ daysUpTo year month day := by
  unfold daysUpTo
  split_ifs with hle
  · have hyears : daysBeforeYear 1969 ≤ daysBeforeYear (year - 1) :=
      daysBeforeYear_mono (by omega)
    have hstart : daysBeforeYear 1969 = 719162 := rfl
    have hjanuary : 306 ≤ daysBeforeMonth month := by
      rw [daysBeforeMonth, if_neg (by omega)]
      omega
    unfold kEpochOffset kNumDaysPerEra
    omega
  · have hyears : daysBeforeYear 1970 ≤ daysBeforeYear (year - 0) :=
      daysBeforeYear_mono (by omega)
    have hstart : daysBeforeYear 1970 = 719527 := rfl
    unfold kEpochOffset kNumDaysPerEra
    omega

/-- The first of March comes after the last of February. -/
theorem daysUpTo_march (year : ℕ) :
    daysUpTo (year + 1) 3 1 = daysUpTo (year + 1) 2 (daysInMonth ((year + 1 : ℕ) : ℤ) 2) + 1 := by
  have hdays : daysInMonth ((year + 1 : ℕ) : ℤ) 2 =
      28 + if IsLeap ((year + 1 : ℕ) : ℤ) then 1 else 0 := by
    unfold daysInMonth
    split_ifs <;> rfl
  have hfebruary : daysBeforeMonth 2 = 337 := rfl
  have hmarch : daysBeforeMonth 3 = 0 := rfl
  have hback : year + 1 - 1 = year := rfl
  rw [daysUpTo, daysUpTo, hdays, hfebruary, hmarch, if_neg (by omega), if_pos le_rfl, hback,
    Nat.sub_zero, daysBeforeYear_succ]
  omega

theorem daysUpTo_next {date : Date} (h : 1970 ≤ date.year) :
    daysUpTo date.next.year.toNat date.next.month date.next.day =
      daysUpTo date.year.toNat date.month date.day + 1 := by
  have hday := date.day_mem.1
  have hmonth := date.month_mem.1
  rcases date.next_cases with ⟨hy, hm, hd⟩ | ⟨hlast, hlt, hy, hm, hd⟩ | ⟨hlast, heq, hy, hm, hd⟩
  · rw [hy, hm, hd, daysUpTo, daysUpTo]
    omega
  · rw [hy, hm, hd, hlast]
    by_cases hfebruary : date.month = 2
    · obtain ⟨y, hyear⟩ : ∃ y : ℕ, date.year = (y + 1 : ℕ) := ⟨(date.year - 1).toNat, by omega⟩
      rw [hfebruary, hyear]
      exact daysUpTo_march y
    · have hnext := @daysBeforeMonth_succ date.year date.month ⟨hmonth, hlt⟩ hfebruary
      have hsame : (if date.month + 1 ≤ 2 then 1 else 0) = if date.month ≤ 2 then 1 else 0 := by
        split_ifs <;> omega
      rw [daysUpTo, daysUpTo, hsame, hnext]
      omega
  · have hdays : date.day = 31 := by
      rw [hlast, heq]
      rfl
    have hyear : (date.year + 1).toNat = date.year.toNat + 1 := by omega
    rw [hy, hm, hd, heq, hdays, hyear]
    rfl

/-- **The formula goes up by one** from a day to the next. -/
theorem daysFromCivil_next {date : Date} (h : 1970 ≤ date.year) :
    (daysFromCivil (toCalendarDate date.next) : ℤ) = daysFromCivil (toCalendarDate date) + 1 := by
  have hle : kEpochOffset ≤ daysUpTo date.year.toNat date.month date.day :=
    kEpochOffset_le (by omega) date.month_mem.1 date.day_mem.1
  have hnext := daysUpTo_next h
  rw [daysFromCivil_eq, daysFromCivil_eq]
  dsimp only [toCalendarDate]
  omega

/-- The formula gives the number of a day from the epoch on. -/
theorem daysFromCivil_ofDayNumber {n : ℤ} (h : 0 ≤ n) :
    (daysFromCivil (toCalendarDate (.ofDayNumber n)) : ℤ) = n :=
  Date.eq_dayNumber_of_next (f := fun date => daysFromCivil (toCalendarDate date)) rfl
    (fun _ => daysFromCivil_next) h

/-- The number of the last day of the year 9999. -/
def lastDayNumber : ℕ := 2932896

/-- The formula is above the last day exactly from the year 10000 on. -/
theorem lastDayNumber_lt_iff {date : Date} (h : 1970 ≤ date.year) :
    lastDayNumber < daysFromCivil (toCalendarDate date) ↔ (kMaxCalendarYear : ℤ) ≤ date.year := by
  have hday := date.day_mem.1
  have hmonth := date.month_mem
  have hle := date.day_le
  have hmarch : daysBeforeMonth date.month ≤ 337 ∧
      (date.month ≤ 2 → 306 ≤ daysBeforeMonth date.month) ∧
      (¬ date.month ≤ 2 → daysBeforeMonth date.month ≤ 275) ∧
      (date.month = 2 → 337 ≤ daysBeforeMonth date.month) := by
    unfold daysBeforeMonth
    split_ifs <;> omega
  rw [daysFromCivil_eq]
  dsimp only [toCalendarDate]
  unfold daysUpTo lastDayNumber kMaxCalendarYear kEpochOffset kNumDaysPerEra
  constructor
  · intro hlt
    by_contra hyear
    split_ifs at hlt with hjan
    · have := daysBeforeYear_mono (show date.year.toNat - 1 ≤ 9998 by omega)
      have h9998 : daysBeforeYear 9998 = 3651694 := rfl
      omega
    · have := daysBeforeYear_mono (show date.year.toNat - 0 ≤ 9999 by omega)
      have h9999 : daysBeforeYear 9999 = 3652059 := rfl
      omega
  · intro hyear
    split_ifs with hjan
    · have := daysBeforeYear_mono (show 9999 ≤ date.year.toNat - 1 by omega)
      have h9999 : daysBeforeYear 9999 = 3652059 := rfl
      omega
    · have := daysBeforeYear_mono (show 10000 ≤ date.year.toNat - 0 by omega)
      have h10000 : daysBeforeYear 10000 = 3652425 := rfl
      omega

/-! ### The day index of a time -/

/-- The number of the day of a time in a time zone; an invalid `TimeZonePolicy` counts as UTC. -/
def dayNumber (offset : LocalOffset) (time : ℤ) (timeZone : TimeZonePolicy) : ℤ :=
  match timeZone with
  | .LOCAL => (time + offset.seconds) / kNumUnixSecondsPerDay
  | _ => time / kNumUnixSecondsPerDay

/-- A day that has an index: from the first of January 1970 to the last of December 9999. -/
def HasIndex (day : ℤ) : Prop := 0 ≤ day ∧ day ≤ lastDayNumber

instance (day : ℤ) : Decidable (HasIndex day) := inferInstanceAs (Decidable (_ ∧ _))

/-- The conversion of a broken-down time loses at most the year, which `tm_year` can make
negative. -/
theorem timeInfoToCalendarDate_ofDate (date : Date) :
    timeInfoToCalendarDate (.ofDate date) = ⟨date.day, date.month, U32.ofInt date.year⟩ := by
  have hday : U32.ofInt (date.day : ℤ) = date.day := by
    have := date.day_le
    simp only [U32.ofInt, U32.size]
    omega
  have hmonth : U32.ofInt ((date.month : ℤ) - 1 + 1) = date.month := by
    have := date.month_mem
    simp only [U32.ofInt, U32.size]
    omega
  have hyear : date.year - 1900 + ((1900 : ℕ) : ℤ) = date.year := by omega
  simp only [timeInfoToCalendarDate, TimeInfo.ofDate, kTimeInfoYearZero, hday, hmonth, hyear]

/-- A day before 1970 has no index: its year, as it is stored, is out of the range of the guard. -/
theorem calendarDateToDayIndex_of_neg {day : ℤ} (hlo : -(2 ^ 31) ≤ day) (hneg : day < 0) :
    calendarDateToDayIndex (timeInfoToCalendarDate (.ofDate (.ofDayNumber day))) =
      kInvalidIndex := by
  have hyear := Date.year_ofDayNumber_of_neg hneg
  have hout : U32.ofInt (Date.ofDayNumber day).year < kEpochYearZero ∨
      U32.ofInt (Date.ofDayNumber day).year ≥ kMaxCalendarYear := by
    simp only [U32.ofInt, U32.size, kEpochYearZero, kMaxCalendarYear]
    omega
  rw [timeInfoToCalendarDate_ofDate, calendarDateToDayIndex, if_pos (by tauto)]

/-- From 1970 on the guard lets the years up to 9999 pass. -/
theorem calendarDateToDayIndex_of_nonneg {day : ℤ} (hnonneg : 0 ≤ day) (hhi : day < 2 ^ 31) :
    calendarDateToDayIndex (timeInfoToCalendarDate (.ofDate (.ofDayNumber day))) =
      if day ≤ lastDayNumber then day.toNat else kInvalidIndex := by
  have hyear := Date.year_ofDayNumber_of_nonneg hnonneg
  have hformula := daysFromCivil_ofDayNumber hnonneg
  rw [timeInfoToCalendarDate_ofDate]
  generalize Date.ofDayNumber day = date at hyear hformula ⊢
  have hsame : U32.ofInt date.year = date.year.toNat := by
    simp only [U32.ofInt, U32.size]
    omega
  have hlast := lastDayNumber_lt_iff hyear.1
  rw [hsame]
  by_cases hle : day ≤ lastDayNumber
  · have hlt : ¬ lastDayNumber < daysFromCivil (toCalendarDate date) := by omega
    rw [hlast] at hlt
    have hin := date.month_mem
    have hmem := date.day_mem.1
    have hday := date.day_le
    rw [if_pos hle, calendarDateToDayIndex, if_neg]
    · change daysFromCivil (toCalendarDate date) = day.toNat
      omega
    · simp only [kEpochYearZero, kMonthsPerYear, kMaxDaysPerMonth]
      omega
  · have hlt : lastDayNumber < daysFromCivil (toCalendarDate date) := by omega
    have hout : date.year.toNat ≥ kMaxCalendarYear := by
      have := hlast.mp hlt
      omega
    rw [if_neg hle, calendarDateToDayIndex, if_pos (Or.inr (Or.inl hout))]

/-- The index of a date that a system clock can show. -/
theorem calendarDateToDayIndex_eq {day : ℤ} (hlo : -(2 ^ 31) ≤ day) (hhi : day < 2 ^ 31) :
    calendarDateToDayIndex (timeInfoToCalendarDate (.ofDate (.ofDayNumber day))) =
      if HasIndex day then day.toNat else kInvalidIndex := by
  rcases lt_or_ge day 0 with hneg | hnonneg
  · rw [calendarDateToDayIndex_of_neg hlo hneg, if_neg fun h => absurd h.1 (by omega)]
  · rw [calendarDateToDayIndex_of_nonneg hnonneg hhi]
    simp only [HasIndex, hnonneg, true_and]

/-- The days that a system clock can show, in UTC and in local time. -/
theorem dayNumber_mem (offset : LocalOffset) (time : SystemTime) (timeZone : TimeZonePolicy) :
    -(2 ^ 31) ≤ dayNumber offset time.toTimeT timeZone ∧
      dayNumber offset time.toTimeT timeZone < 2 ^ 31 := by
  have htime := time.mem
  have hoffset := offset.mem
  have hseconds : -(2 ^ 63) ≤ time.toTimeT * 1000000 ∧ time.toTimeT * 1000000 < 2 ^ 63 := by
    have hsign : Int.sign 1000000 = 1 := rfl
    rw [SystemTime.toTimeT, Int.tdiv_eq_ediv, hsign]
    split_ifs <;> omega
  unfold dayNumber kNumUnixSecondsPerDay
  cases timeZone <;> dsimp only <;> omega

/-- The index of a time is the number of its day if that day has an index. -/
theorem timeToDayIndex_eq (offset : LocalOffset) (time : SystemTime) {timeZone : TimeZonePolicy}
    (h : timeZone = .UTC ∨ timeZone = .LOCAL) :
    timeToDayIndex offset time.toTimeT timeZone =
      if HasIndex (dayNumber offset time.toTimeT timeZone) then
        (dayNumber offset time.toTimeT timeZone).toNat else kInvalidIndex := by
  obtain ⟨hlo, hhi⟩ := dayNumber_mem offset time timeZone
  rw [← calendarDateToDayIndex_eq hlo hhi]
  rcases h with rfl | rfl <;> rfl

end Cobalt.Util
