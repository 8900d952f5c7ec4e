import Mathlib.Algebra.Order.Group.Int
import Mathlib.Tactic.Common

/-!
# Months of the proleptic Gregorian calendar

Days are counted from 1 January 1970 and months from March of the year 0, so that the leap
day is the last of its year.  A month has at least 28 days, and that is all the results need:
a date moved on by months, to the last day of the month when the day does not exist there,
moves on by 28 days for each.
-/

namespace Rustrak.Calendar

/-- The number of a month of a year. -/
def monthNumber (year month : Int) : Int := 12 * year + month - 3

/-- The day a month starts on. -/
def firstDay (month : Int) : Int :=
  365 * (month / 12) + month / 12 / 4 - month / 12 / 100 + month / 12 / 400 +
    (153 * (month % 12) + 2) / 5 - 719468

def monthLength (month : Int) : Int := firstDay (month + 1) - firstDay month

/-- The month of a day: 400 years are 4800 months and 146097 days, and the estimate from
that is off by one at most. -/
def monthOf (day : Int) : Int :=
  let estimate := 4800 * (day + 719468) / 146097
  if day < firstDay estimate then estimate - 1
  else if firstDay (estimate + 1) ≤ day then estimate + 1
  else estimate

/-- A day of a month, counted from 0, or its last one if it has no such day. -/
def dayIn (month dayOfMonth : Int) : Int :=
  firstDay month + min dayOfMonth (monthLength month - 1)

/-- A day moved on by months. -/
def addMonths (day : Int) (months : Nat) : Int :=
  dayIn (monthOf day + months) (day - firstDay (monthOf day))

example : firstDay (monthNumber 1970 1) = 0 := by decide

/-- The day after 31 January 2026 by a month is 28 February. -/
example : addMonths (firstDay (monthNumber 2026 1) + 30) 1 =
    firstDay (monthNumber 2026 3) - 1 := by decide

variable {month day : Int}

theorem le_monthLength (month : Int) : 28 ≤ monthLength month := by
  have hlow := Int.emod_nonneg month (by decide : (12 : Int) ≠ 0)
  have hhigh := Int.emod_lt_of_pos month (by decide : (0 : Int) < 12)
  unfold monthLength firstDay
  -- The leap day ends the year, so February is the month before the next year.
  by_cases hlast : month % 12 = 11
  · have hyear : (month + 1) / 12 = month / 12 + 1 := by omega
    have hmonth : (month + 1) % 12 = 0 := by omega
    rw [hyear, hmonth, hlast]
    omega
  · have hyear : (month + 1) / 12 = month / 12 := by omega
    have hmonth : (month + 1) % 12 = month % 12 + 1 := by omega
    rw [hyear, hmonth]
    omega

theorem le_firstDay (month : Int) :
    146097 * month ≤ 4800 * (firstDay month + 719468) + 19200 := by
  unfold firstDay
  omega

theorem lt_firstDay_monthOf_succ (day : Int) : day < firstDay (monthOf day + 1) := by
  unfold monthOf
  dsimp only
  split_ifs with hbefore hafter
  · rw [Int.sub_add_cancel]
    exact hbefore
  · have hmonth := le_firstDay (4800 * (day + 719468) / 146097 + 1 + 1)
    omega
  · omega

theorem dayIn_monthOf (day : Int) : dayIn (monthOf day) (day - firstDay (monthOf day)) = day := by
  have hafter := lt_firstDay_monthOf_succ day
  unfold dayIn monthLength
  omega

@[simp] theorem addMonths_zero (day : Int) : addMonths day 0 = day := by
  simp [addMonths, dayIn_monthOf]

/-- The same day of the next month is 28 days later or more, clipped or not. -/
theorem dayIn_succ (month dayOfMonth : Int) :
    dayIn month dayOfMonth + 28 ≤ dayIn (month + 1) dayOfMonth := by
  have hlength := le_monthLength month
  have hnext := le_monthLength (month + 1)
  have hfirst : firstDay (month + 1) = firstDay month + monthLength month := by
    unfold monthLength
    omega
  unfold dayIn
  rw [hfirst]
  omega

theorem dayIn_add (month dayOfMonth : Int) (months : Nat) :
    dayIn month dayOfMonth + 28 * months ≤ dayIn (month + months) dayOfMonth := by
  induction months with
  | zero => simp
  | succ months ih =>
      have hstep := dayIn_succ (month + months) dayOfMonth
      have hmonth : month + ((months + 1 : Nat) : Int) = month + months + 1 := by
        push_cast
        omega
      rw [hmonth]
      push_cast
      omega

/-- Each further month moves a day on by 28 days or more. -/
theorem addMonths_add (day : Int) (first more : Nat) :
    addMonths day first + 28 * more ≤ addMonths day (first + more) := by
  have hmonth : monthOf day + ((first + more : Nat) : Int) = monthOf day + first + more := by
    push_cast
    omega
  unfold addMonths
  rw [hmonth]
  exact dayIn_add _ _ more

end Rustrak.Calendar
