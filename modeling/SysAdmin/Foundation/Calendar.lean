import Mathlib.Algebra.GroupWithZero.Nat
import Mathlib.Data.Int.Notation
import Mathlib.Logic.Function.Iterate

/-!
# Dates

The dates of the Gregorian calendar, before and after it has come into use, each with the number of
its day.

* `Date.next`, `Date.prev`: the days after and before a date;
* `Date.addDays`: the date some days later, the number of which is as much larger
  (`Date.toOrdinal_addDays`).
-/

namespace SysAdmin.Calendar

/-- Whether February has 29 days. -/
def isLeap (year : ℤ) : Bool := year % 4 = 0 && (year % 100 ≠ 0 || year % 400 = 0)

/-- The number of days of a month, from 1 to 12. -/
def daysInMonth (year : ℤ) (month : ℕ) : ℕ :=
  if month = 2 then if isLeap year then 29 else 28
  else if month = 4 ∨ month = 6 ∨ month = 9 ∨ month = 11 then 30
  else 31

/-- The number of days before a month in its year. -/
def daysBeforeMonth (year : ℤ) (month : ℕ) : ℕ :=
  ((List.range' 1 (month - 1)).map (daysInMonth year)).sum

/-- The number of days before a year, from the first year on. -/
def daysBeforeYear (year : ℤ) : ℤ :=
  let y := year - 1
  y * 365 + y / 4 - y / 100 + y / 400

/-- A date. -/
@[ext] structure Date where
  year : ℤ
  month : ℕ
  day : ℕ
  month_mem : 1 ≤ month ∧ month ≤ 12
  day_mem : 1 ≤ day ∧ day ≤ daysInMonth year month
  deriving DecidableEq

/-- A month has 28 to 31 days. -/
theorem daysInMonth_mem (year : ℤ) (month : ℕ) :
    28 ≤ daysInMonth year month ∧ daysInMonth year month ≤ 31 := by
  unfold daysInMonth
  split
  · split <;> decide
  · split <;> decide

theorem daysInMonth_december (year : ℤ) : daysInMonth year 12 = 31 := rfl

/-- Before the month after, there are the days of a month more. -/
theorem daysBeforeMonth_succ (year : ℤ) {month : ℕ} (h : 1 ≤ month) :
    daysBeforeMonth year (month + 1) = daysBeforeMonth year month + daysInMonth year month := by
  obtain ⟨m, rfl⟩ := Nat.exists_eq_add_of_le' h
  rw [daysBeforeMonth, daysBeforeMonth, Nat.add_sub_cancel, Nat.add_sub_cancel,
    List.range'_concat, List.map_append, List.sum_append]
  simp [Nat.add_comm]

/-- The days of a year. -/
theorem daysBeforeYear_succ (year : ℤ) :
    daysBeforeYear (year + 1) = daysBeforeYear year + (daysBeforeMonth year 12 + 31 : ℕ) := by
  have hmonths : daysBeforeMonth year 12 = 306 + daysInMonth year 2 := by
    simp [daysBeforeMonth, List.range', daysInMonth]
    omega
  simp only [daysBeforeYear, hmonths, daysInMonth, if_pos, isLeap, Bool.and_eq_true,
    Bool.or_eq_true, decide_eq_true_eq]
  split
  · omega
  · omega

namespace Date

/-- The number of a date: how many days there are up to it, from the first year on. -/
def toOrdinal (d : Date) : ℤ :=
  daysBeforeYear d.year + (daysBeforeMonth d.year d.month + d.day : ℕ)

/-- The day after. -/
def next (d : Date) : Date :=
  if h : d.day < daysInMonth d.year d.month then
    ⟨d.year, d.month, d.day + 1, d.month_mem, by omega, h⟩
  else if h : d.month < 12 then
    ⟨d.year, d.month + 1, 1, by omega, Nat.le_refl 1,
      by have := daysInMonth_mem d.year (d.month + 1); omega⟩
  else ⟨d.year + 1, 1, 1, by omega, Nat.le_refl 1, Nat.le_of_ble_eq_true rfl⟩

/-- The day before. -/
def prev (d : Date) : Date :=
  if h : 1 < d.day then
    ⟨d.year, d.month, d.day - 1, d.month_mem, by omega, by have := d.day_mem; omega⟩
  else if h : 1 < d.month then
    ⟨d.year, d.month - 1, daysInMonth d.year (d.month - 1), by have := d.month_mem; omega,
      by have := daysInMonth_mem d.year (d.month - 1); omega, Nat.le_refl _⟩
  else ⟨d.year - 1, 12, 31, by omega, by omega, Nat.le_refl 31⟩

/-- The date some days later, or earlier. -/
def addDays (d : Date) : ℤ → Date
  | .ofNat n => next^[n] d
  | .negSucc n => prev^[n + 1] d

variable {d : Date}

/-- The numbers go up by one from day to day, over the ends of months and years. -/
theorem toOrdinal_next : d.next.toOrdinal = d.toOrdinal + 1 := by
  obtain ⟨year, month, day, ⟨hfirst, htwelve⟩, _, hlast⟩ := d
  unfold next
  split
  · simp only [toOrdinal]
    omega
  · simp only at *
    split
    · -- The first day of the month after.
      simp only [toOrdinal, daysBeforeMonth_succ year hfirst]
      omega
    · obtain rfl : month = 12 := by omega
      have hlen := daysInMonth_december year
      have hjanuary : daysBeforeMonth (year + 1) 1 = 0 := rfl
      simp only [toOrdinal, daysBeforeYear_succ, hjanuary]
      omega

/-- The day before is the one whose next day it is. -/
theorem next_prev : d.prev.next = d := by
  obtain ⟨year, month, day, ⟨hfirst, _⟩, hpos, hlast⟩ := d
  unfold prev
  split
  · next h =>
    have hlt : day - 1 < daysInMonth year month := by omega
    rw [next, dif_pos hlt]
    ext1
    · rfl
    · rfl
    · exact Nat.sub_add_cancel hpos
  · simp only at *
    split
    · next h =>
      -- The last day of the month before.
      have hlt : month - 1 < 12 := by omega
      rw [next, dif_neg (Nat.lt_irrefl _), dif_pos hlt]
      ext1
      · rfl
      · exact Nat.sub_add_cancel hfirst
      · change 1 = day
        omega
    · next h =>
      -- New Year's Eve.
      have hlen : ¬31 < daysInMonth (year - 1) 12 := Nat.lt_irrefl 31
      rw [next, dif_neg hlen, dif_neg (Nat.lt_irrefl 12)]
      ext1
      · exact Int.sub_add_cancel year 1
      · change 1 = month
        omega
      · change 1 = day
        omega

/-- So the numbers go down by one the other way. -/
theorem toOrdinal_prev : d.prev.toOrdinal = d.toOrdinal - 1 := by
  have h := toOrdinal_next (d := d.prev)
  rw [next_prev] at h
  omega

/-- The day of the month goes up to the last one, and starts again from 1. -/
theorem day_next : d.next.day = if d.day < daysInMonth d.year d.month then d.day + 1 else 1 := by
  unfold next
  split
  · rfl
  · split <;> rfl

/-- The other way, it starts again from the last day of the month before. -/
theorem day_prev : d.prev.day =
    if 1 < d.day then d.day - 1
    else if 1 < d.month then daysInMonth d.year (d.month - 1) else 31 := by
  unfold prev
  split
  · rfl
  · split <;> rfl

/-- The number of the date some days later is as much larger. -/
theorem toOrdinal_addDays (n : ℤ) : (d.addDays n).toOrdinal = d.toOrdinal + n := by
  have hnext : ∀ (n : ℕ) (d : Date), (next^[n] d).toOrdinal = d.toOrdinal + n := by
    intro n
    induction n with
    | zero => simp
    | succ n ih =>
      intro d
      rw [Function.iterate_succ_apply, ih, toOrdinal_next]
      omega
  have hprev : ∀ (n : ℕ) (d : Date), (prev^[n] d).toOrdinal = d.toOrdinal - n := by
    intro n
    induction n with
    | zero => simp
    | succ n ih =>
      intro d
      rw [Function.iterate_succ_apply, ih, toOrdinal_prev]
      omega
  cases n with
  | ofNat n => exact hnext n d
  | negSucc n =>
    rw [addDays, hprev]
    omega

end Date

end SysAdmin.Calendar
