import Cobalt.Util.CalendarIndices

/-!
# From day and week indices back to dates

The number of seconds from the epoch to midnight of a day is computed as a product of two values of
type `uint32_t`, and only then converted to `time_t`. From the 8th of February 2106 on the product
does not fit. The date of a day is computed through that number.

## Main definitions

* `midnightUtcFromDayIndex`, `dayIndexToCalendarDate`, `weekIndexToCalendarDate`.
* `RoundTripsDay`, `RoundTripsWeek`: the conversions of an index are right.

## Main results

* `calendarDateToDayIndex32_dayIndexToCalendarDate`: the day that the date of an index has.
* `roundTrips_iff`: for which dates the conversions of the indices are right.
-/

namespace Cobalt.Util

open Gregorian (Date)

/-! ### The functions of the source -/

/-- `MidnightUtcFromDayIndex`. The result has the type `time_t`, the product does not. -/
def midnightUtcFromDayIndex (dayIndex : ℕ) : ℤ := U32.mul dayIndex kNumUnixSecondsPerDay.toNat

/-- `DayIndexToCalendarDate`. -/
def dayIndexToCalendarDate (dayIndex : ℕ) : CalendarDate :=
  let unixTime : ℤ := U32.mul dayIndex kNumUnixSecondsPerDay.toNat
  timeInfoToCalendarDate (gmtime unixTime)

/-- `WeekIndexToCalendarDate`. -/
def weekIndexToCalendarDate (weekIndex : ℕ) : CalendarDate :=
  dayIndexToCalendarDate (U32.sub (U32.mul weekIndex kDaysPerWeek) (if weekIndex > 0 then 4 else 0))

/-! ### Round trips -/

/-- Midnight of the day is so many days after the epoch, and the date of the day has its index. -/
def RoundTripsDay (dayIndex : ℕ) : Prop :=
  midnightUtcFromDayIndex dayIndex = 86400 * dayIndex ∧
    calendarDateToDayIndex32 (dayIndexToCalendarDate dayIndex) = dayIndex

/-- The date of the first day of the week has the index of the week. -/
def RoundTripsWeek (weekIndex : ℕ) : Prop :=
  calendarDateToWeekIndex (weekIndexToCalendarDate weekIndex) = weekIndex

/-- The day of the date of an index is the one that the product belongs to. -/
theorem calendarDateToDayIndex32_dayIndexToCalendarDate (dayIndex : ℕ) :
    calendarDateToDayIndex32 (dayIndexToCalendarDate dayIndex) =
      U32.mul dayIndex 86400 / 86400 := by
  have hlt : U32.mul dayIndex 86400 < 4294967296 := Nat.mod_lt _ (by decide)
  have hday : (U32.mul dayIndex 86400 : ℤ) / 86400 = (U32.mul dayIndex 86400 / 86400 : ℕ) := rfl
  rw [calendarDateToDayIndex32_eq]
  change calendarDateToDayIndex (timeInfoToCalendarDate (.ofDate (.ofDayNumber
    ((U32.mul dayIndex 86400 : ℤ) / 86400)))) = _
  rw [hday]
  generalize U32.mul dayIndex 86400 / 86400 = day at *
  have hle : day ≤ lastDayNumber := by
    unfold lastDayNumber
    omega
  rw [calendarDateToDayIndex_eq (by omega) (by omega), if_pos ⟨by omega, by omega⟩,
    Int.toNat_natCast]

/-- A product that fits gives the day back, and one that does not gives an earlier day. -/
theorem mul_div_day (dayIndex : ℕ) :
    (86400 * dayIndex < 2 ^ 32 → U32.mul dayIndex 86400 = 86400 * dayIndex) ∧
      (¬ 86400 * dayIndex < 2 ^ 32 →
        U32.mul dayIndex 86400 / 86400 ≤ 49710 ∧ 49711 ≤ dayIndex) := by
  have hsize : U32.size = 4294967296 := rfl
  refine ⟨fun hfits => ?_, fun hwraps => ?_⟩
  · rw [U32.mul_of_lt (by omega), Nat.mul_comm]
  · have hlt : U32.mul dayIndex 86400 < 4294967296 := Nat.mod_lt _ (by decide)
    omega

/-- A day. -/
theorem roundTripsDay_iff (dayIndex : ℕ) :
    RoundTripsDay dayIndex ↔ 86400 * dayIndex < 2 ^ 32 := by
  obtain ⟨hfits, hwraps⟩ := mul_div_day dayIndex
  rw [RoundTripsDay, calendarDateToDayIndex32_dayIndexToCalendarDate]
  constructor
  · rintro ⟨-, hsame⟩
    by_contra hnot
    have := hwraps hnot
    omega
  · intro hlt
    have hproduct := hfits hlt
    refine ⟨?_, by omega⟩
    change ((U32.mul dayIndex 86400 : ℕ) : ℤ) = 86400 * dayIndex
    rw [hproduct]
    norm_cast

/-- The first day of a week. -/
theorem firstDay_eq {weekIndex : ℕ} (h : weekIndex ≤ 418985) :
    U32.sub (U32.mul weekIndex kDaysPerWeek) (if weekIndex > 0 then 4 else 0) =
      7 * weekIndex - 4 := by
  have hsize : U32.size = 4294967296 := rfl
  have hdays : U32.mul weekIndex kDaysPerWeek = 7 * weekIndex := by
    unfold kDaysPerWeek
    rw [U32.mul_of_lt (by omega), Nat.mul_comm]
  rw [hdays]
  split_ifs with hpos
  · exact U32.sub_of_le (by omega) (by omega)
  · rw [U32.sub_of_le (by omega) (by omega)]
    omega

/-- A week. -/
theorem roundTripsWeek_iff {weekIndex : ℕ} (h : weekIndex ≤ 418985) :
    RoundTripsWeek weekIndex ↔ 86400 * (7 * weekIndex - 4) < 2 ^ 32 := by
  have hsize : U32.size = 4294967296 := rfl
  obtain ⟨hfits, hwraps⟩ := mul_div_day (7 * weekIndex - 4)
  have hlt : U32.mul (7 * weekIndex - 4) 86400 < 4294967296 := Nat.mod_lt _ (by decide)
  rw [RoundTripsWeek, calendarDateToWeekIndex, weekIndexToCalendarDate, firstDay_eq h,
    calendarDateToDayIndex32_dayIndexToCalendarDate, dayIndexToWeekIndex,
    U32.add_of_lt (by omega), kDaysPerWeek]
  constructor
  · intro hsame
    by_contra hnot
    have := hwraps hnot
    omega
  · intro hproduct
    have := hfits hproduct
    omega

/-- **The conversions of the indices of a date** are right if and only if the seconds to the day,
and to the first day of the week, fit into 32 bits. -/
theorem roundTrips_iff (d : Date) (h : InRange d) :
    (RoundTripsDay (dayIndexOf d) ↔ 86400 * dayIndexOf d < 2 ^ 32) ∧
      (RoundTripsWeek (weekIndexOf d) ↔ 86400 * (7 * weekIndexOf d - 4) < 2 ^ 32) := by
  have hle := dayIndexOf_le h
  have hweek := weekIndexOf_eq h
  refine ⟨roundTripsDay_iff _, roundTripsWeek_iff ?_⟩
  unfold lastDayNumber at hle
  omega

/-- The 18th of October 2016. -/
def october2016 : Date := ⟨2016, 10, 18, by decide, by decide⟩

theorem roundTrips_iff_october2016 :
    RoundTripsDay (dayIndexOf october2016) ∧ RoundTripsWeek (weekIndexOf october2016) := by
  obtain ⟨hday, hweek⟩ := roundTrips_iff october2016 ⟨by decide, by decide⟩
  exact ⟨hday.mpr (by decide), hweek.mpr (by decide)⟩

/-- A day of February 2106. -/
def february2106 (day : ℕ) (h : 1 ≤ day ∧ day ≤ 28) : Date := ⟨2106, 2, day, by decide, h⟩

/-- The first day that is lost, and the first week: the 8th of February 2106 becomes the epoch,
and the week from the 14th on becomes the second of all weeks. -/
theorem not_roundTrips_february2106 :
    (InRange (february2106 8 (by decide)) ∧ dayIndexOf (february2106 8 (by decide)) = 49711 ∧
      midnightUtcFromDayIndex 49711 = 63104 ∧
      calendarDateToDayIndex32 (dayIndexToCalendarDate 49711) = 0 ∧ ¬ RoundTripsDay 49711) ∧
    (InRange (february2106 14 (by decide)) ∧ weekIndexOf (february2106 14 (by decide)) = 7103 ∧
      calendarDateToWeekIndex (weekIndexToCalendarDate 7103) = 1 ∧ ¬ RoundTripsWeek 7103) := by
  have hday : ¬ RoundTripsDay 49711 := by
    rw [roundTripsDay_iff]
    decide
  have hweek : ¬ RoundTripsWeek 7103 := by
    rw [roundTripsWeek_iff (by decide)]
    decide
  refine ⟨⟨⟨by decide, by decide⟩, by decide, by decide, ?_, hday⟩, ⟨by decide, by decide⟩,
    by decide, ?_, hweek⟩
  · rw [calendarDateToDayIndex32_dayIndexToCalendarDate]
    decide
  · rw [calendarDateToWeekIndex, weekIndexToCalendarDate,
      calendarDateToDayIndex32_dayIndexToCalendarDate]
    decide

end Cobalt.Util
