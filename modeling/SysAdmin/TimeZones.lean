import SysAdmin.Foundation.Calendar

/-!
# Time zones

A minute of the day in a time zone is converted to UTC for today. Which day this is, is found out
from the days of the month alone (`dayOffsetOf`): they are far apart if they belong to two
months.

* `dayOffsetOf_day`: for days next to each other this gives their distance, as no month is shorter
  than 28 days;
* `adjustWithTimezone_eq`: the hour and the minute are those in UTC, and the offset is the
  difference of the dates. Dates have years from 1 to 9999, and beyond these an exception is
  raised.
-/

namespace SysAdmin

namespace Helpers

open Calendar

/-- A date with a time, in minutes. -/
structure DateTime where
  date : Date
  hour : ℤ
  minute : ℤ
  hour_mem : 0 ≤ hour ∧ hour < 24
  minute_mem : 0 ≤ minute ∧ minute < 60

/-- The hours and the minutes of a time. -/
def timeToHoursMinutes (time : ℤ) : ℤ × ℤ := (time / 60, time % 60)

/-- A date with another time. Raises for hours and minutes that a day has not. -/
def replace (date : Date) (hour minute : ℤ) : Option DateTime :=
  if h : (0 ≤ hour ∧ hour < 24) ∧ 0 ≤ minute ∧ minute < 60 then
    some ⟨date, hour, minute, h.1, h.2⟩
  else none

/-- The time in UTC, for an offset in minutes. Raises if the year is out of range. -/
def astimezone (d : DateTime) (utcoffset : ℤ) : Option DateTime :=
  let minutes := d.hour * 60 + d.minute - utcoffset
  let date := d.date.addDays (minutes / 1440)
  if 1 ≤ date.year ∧ date.year ≤ 9999 then
    some ⟨date, minutes % 1440 / 60, minutes % 60, by omega, by omega⟩
  else none

/-- The difference of the days of the month, or which way the day wraps. -/
def dayOffsetOf (newDay startDay : ℤ) : ℤ :=
  let dayOffset := newDay - startDay
  if dayOffset > 1 then -1 else if dayOffset < -1 then 1 else dayOffset

/-- Converts a time of today to UTC, with the offset that the time zone has then. -/
def adjustWithTimezone (now : Date) (time : ℤ) (tzinfo : DateTime → ℤ) : Option (ℤ × ℤ × ℤ) := do
  let (hour, minute) := timeToHoursMinutes time
  let d ← replace now hour minute
  let startDay := d.date.day
  let d ← astimezone d (tzinfo d)
  let newDay := d.date.day
  return (d.hour, d.minute, dayOffsetOf newDay startDay)

variable {d : Date} {n time : ℤ} {tzinfo : DateTime → ℤ}

theorem dayOffsetOf_next : dayOffsetOf d.next.day d.day = 1 := by
  obtain ⟨hshort, _⟩ := daysInMonth_mem d.year d.month
  rw [dayOffsetOf, Date.day_next]
  split
  · rw [if_neg (by omega), if_neg (by omega)]
    omega
  · -- It is the last day of a month, which is not a short one.
    rw [if_neg (by omega), if_pos (by omega)]

theorem dayOffsetOf_prev : dayOffsetOf d.prev.day d.day = -1 := by
  obtain ⟨hshort, _⟩ := daysInMonth_mem d.year (d.month - 1)
  have hday := d.day_mem.1
  rw [dayOffsetOf, Date.day_prev]
  split
  · rw [if_neg (by omega), if_neg (by omega)]
    omega
  · -- The day before is the last one of its month.
    rw [if_pos]
    split <;> omega

/-- The days of the month tell by how much two dates differ that are at most a day apart. -/
theorem dayOffsetOf_day (h : -1 ≤ n ∧ n ≤ 1) : dayOffsetOf (d.addDays n).day d.day = n := by
  obtain rfl | rfl | rfl : n = -1 ∨ n = 0 ∨ n = 1 := by omega
  · exact dayOffsetOf_prev
  · simp [dayOffsetOf, Date.addDays]
  · exact dayOffsetOf_next

/-! ## The time in UTC -/

/-- A time of a day in minutes. -/
def IsLocal (d : DateTime) (now : Date) (time : ℤ) : Prop :=
  d.date = now ∧ d.hour * 60 + d.minute = time

/-- A date and its minutes are those in UTC, for an offset: on the line of all minutes, they are
    earlier by the offset. -/
structure IsUtc (d : DateTime) (utcoffset : ℤ) (utc : Date) (minutes : ℤ) : Prop where
  mem : 0 ≤ minutes ∧ minutes < 1440
  eq : utc.toOrdinal * 1440 + minutes =
    d.date.toOrdinal * 1440 + (d.hour * 60 + d.minute) - utcoffset

/-- The time has been converted: the result is the time in UTC, with the difference of the
    dates. -/
def Adjusted (now : Date) (time : ℤ) (tzinfo : DateTime → ℤ) (utc : Date) (minutes : ℤ) : Prop :=
  adjustWithTimezone now time tzinfo =
    some (minutes / 60, minutes % 60, utc.toOrdinal - now.toOrdinal)

theorem isUtc_addDays (d : DateTime) (utcoffset : ℤ) :
    IsUtc d utcoffset (d.date.addDays ((d.hour * 60 + d.minute - utcoffset) / 1440))
      ((d.hour * 60 + d.minute - utcoffset) % 1440) where
  mem := by omega
  eq := by
    rw [Date.toOrdinal_addDays]
    omega

/-- For every date, minute and offset, the result is the time in UTC and the difference of the
    dates, or an exception if the date in UTC is out of range. -/
theorem adjustWithTimezone_eq (now : Date) (htime : 0 ≤ time ∧ time < 1440)
    (htz : ∀ d, -1440 < tzinfo d ∧ tzinfo d < 1440) :
    ∃ d utc minutes, IsLocal d now time ∧ IsUtc d (tzinfo d) utc minutes ∧
      (1 ≤ utc.year ∧ utc.year ≤ 9999 → Adjusted now time tzinfo utc minutes) ∧
      (¬(1 ≤ utc.year ∧ utc.year ≤ 9999) → adjustWithTimezone now time tzinfo = none) := by
  have hvalid : (0 ≤ time / 60 ∧ time / 60 < 24) ∧ 0 ≤ time % 60 ∧ time % 60 < 60 := by omega
  obtain ⟨d, hd⟩ : ∃ d : DateTime, d = ⟨now, time / 60, time % 60, hvalid.1, hvalid.2⟩ := ⟨_, rfl⟩
  have hreplace : replace now (time / 60) (time % 60) = some d := by
    rw [replace, dif_pos hvalid, hd]
  have hlocal : IsLocal d now time := by
    rw [hd]
    exact ⟨rfl, by simp only; omega⟩
  have hoffset := htz d
  refine ⟨d, _, _, hlocal, isUtc_addDays d (tzinfo d), fun hyear => ?_, fun hyear => ?_⟩
  · -- An offset of less than a day leads to a neighbouring day at most.
    have hdays : -1 ≤ (d.hour * 60 + d.minute - tzinfo d) / 1440 ∧
        (d.hour * 60 + d.minute - tzinfo d) / 1440 ≤ 1 := by
      rw [hlocal.2]
      omega
    have hmod : (d.hour * 60 + d.minute - tzinfo d) % 1440 % 60 =
        (d.hour * 60 + d.minute - tzinfo d) % 60 := by omega
    have hdiff : (d.date.addDays ((d.hour * 60 + d.minute - tzinfo d) / 1440)).toOrdinal -
        now.toOrdinal = (d.hour * 60 + d.minute - tzinfo d) / 1440 := by
      rw [Date.toOrdinal_addDays, hlocal.1]
      omega
    rw [Adjusted, adjustWithTimezone, timeToHoursMinutes, hmod, hdiff]
    simp only [hreplace, Option.bind_eq_bind, Option.bind_some, astimezone, if_pos hyear]
    rw [dayOffsetOf_day hdays]
    rfl
  · rw [adjustWithTimezone, timeToHoursMinutes]
    simp only [hreplace, Option.bind_eq_bind, Option.bind_some, astimezone, if_neg hyear]
    rfl

/-- Midnight in a zone seven hours ahead, on the first of March. -/
theorem adjustWithTimezone_eq_march :
    ∃ d utc minutes, IsLocal d ⟨2024, 3, 1, by decide, by decide⟩ 0 ∧ IsUtc d 420 utc minutes ∧
      (1 ≤ utc.year ∧ utc.year ≤ 9999 →
        Adjusted ⟨2024, 3, 1, by decide, by decide⟩ 0 (fun _ => 420) utc minutes) ∧
      (¬(1 ≤ utc.year ∧ utc.year ≤ 9999) →
        adjustWithTimezone ⟨2024, 3, 1, by decide, by decide⟩ 0 (fun _ => 420) = none) :=
  adjustWithTimezone_eq _ (by decide) fun _ => by decide

example : adjustWithTimezone ⟨2024, 3, 1, by decide, by decide⟩ 0 (fun _ => 420) =
    some (17, 0, -1) := by decide

/-- The last minute that there is, in a zone a minute behind. -/
theorem not_forall_adjusted : ¬∀ (now : Date) (time : ℤ) (tzinfo : DateTime → ℤ),
    1 ≤ now.year ∧ now.year ≤ 9999 → 0 ≤ time ∧ time < 1440 →
    (∀ d, -1440 < tzinfo d ∧ tzinfo d < 1440) →
      ∃ d utc minutes, IsLocal d now time ∧ IsUtc d (tzinfo d) utc minutes ∧
        Adjusted now time tzinfo utc minutes := by
  intro h
  obtain ⟨d, utc, minutes, _, _, hadjusted⟩ := h ⟨9999, 12, 31, by decide, by decide⟩ 1439
    (fun _ => -1) (by decide) (by decide) fun _ => by decide
  have hraised : adjustWithTimezone ⟨9999, 12, 31, by decide, by decide⟩ 1439 (fun _ => -1) =
      none := by decide
  rw [Adjusted, hraised] at hadjusted
  cases hadjusted

end Helpers

end SysAdmin
