/-!
# The civil calendar

Proleptic Gregorian dates: the leap rule holds for every year, before the calendar's introduction
too, and year 0 stands between -1 and 1. Days are counted from 1970-01-01, which is day 0. A date
and its day number determine each other, and day numbers grow with dates.
-/
namespace Timetable

/-- Every fourth year, but of the full centuries only every fourth. -/
def isLeapYear (year : Int) : Bool :=
  year % 4 == 0 && (year % 100 != 0 || year % 400 == 0)

/-- Days in a year. -/
def yearLength (leap : Bool) : Nat := if leap then 366 else 365

/-- Days in the month of that number, January being 1. -/
def monthLength (leap : Bool) (month : Nat) : Nat :=
  match month with
  | 2 => if leap then 29 else 28
  | 4 | 6 | 9 | 11 => 30
  | _ => 31

/-- Days of the year that precede the month. -/
def daysBeforeMonth (leap : Bool) : Nat → Nat
  | 0 | 1 => 0
  | month + 2 => daysBeforeMonth leap (month + 1) + monthLength leap (month + 1)

/-- The day number of the year's first of January. -/
def daysBeforeYear (year : Int) : Int :=
  365 * (year - 1) + (year - 1) / 4 - (year - 1) / 100 + (year - 1) / 400 - 719162

/-- The year that a day belongs to. Four centuries have 146097 days, so the mean year gives the
answer or a neighbour of it. -/
def yearOfDay (day : Int) : Int :=
  let guess := (day + 719162) * 400 / 146097 + 1
  if day < daysBeforeYear guess then guess - 1
  else if daysBeforeYear (guess + 1) ≤ day then guess + 1
  else guess

/-- The last month, of those up to the bound, that begins on or before the day of the year. -/
def latestMonth (leap : Bool) (dayOfYear : Nat) : Nat → Nat
  | 0 | 1 => 1
  | month + 2 =>
    if daysBeforeMonth leap (month + 2) ≤ dayOfYear then month + 2
    else latestMonth leap dayOfYear (month + 1)

/-- A date of the calendar. -/
structure Date where
  year : Int
  month : Nat
  day : Nat
  month_pos : 1 ≤ month
  month_le : month ≤ 12
  day_pos : 1 ≤ day
  day_le : day ≤ monthLength (isLeapYear year) month
deriving DecidableEq

theorem daysBeforeYear_succ (y : Int) :
    daysBeforeYear (y + 1) = daysBeforeYear y + yearLength (isLeapYear y) := by
  simp only [daysBeforeYear, yearLength, isLeapYear]
  by_cases h4 : y % 4 = 0 <;> by_cases h100 : y % 100 = 0 <;> by_cases h400 : y % 400 = 0 <;>
    simp [h4, h100, h400] <;> omega

theorem daysBeforeYear_yearOfDay_le (n : Int) : daysBeforeYear (yearOfDay n) ≤ n := by
  unfold yearOfDay
  dsimp only
  generalize hg : (n + 719162) * 400 / 146097 + 1 = g
  split
  · simp only [daysBeforeYear]; omega
  · split <;> omega

theorem lt_daysBeforeYear_yearOfDay (n : Int) : n < daysBeforeYear (yearOfDay n + 1) := by
  unfold yearOfDay
  dsimp only
  generalize hg : (n + 719162) * 400 / 146097 + 1 = g
  split
  · simpa using by assumption
  · split
    · simp only [daysBeforeYear]; omega
    · omega

theorem latestMonth_pos (leap : Bool) (d m : Nat) : 1 ≤ latestMonth leap d m := by
  fun_induction latestMonth leap d m <;> simp_all

theorem latestMonth_le (leap : Bool) (d m : Nat) (h : 1 ≤ m) : latestMonth leap d m ≤ m := by
  fun_induction latestMonth leap d m <;> omega

theorem daysBeforeMonth_latestMonth_le (leap : Bool) (d m : Nat) :
    daysBeforeMonth leap (latestMonth leap d m) ≤ d := by
  fun_induction latestMonth leap d m <;> simp_all [daysBeforeMonth]

theorem lt_daysBeforeMonth_latestMonth (leap : Bool) (d m : Nat)
    (h : d < daysBeforeMonth leap (m + 1)) :
    d < daysBeforeMonth leap (latestMonth leap d m + 1) := by
  fun_induction latestMonth leap d m with
  | case1 => exact Nat.lt_of_lt_of_le h (by cases leap <;> decide)
  | case2 => exact h
  | case3 => exact h
  | case4 m hm ih => exact ih (Nat.lt_of_not_le hm)

theorem daysBeforeMonth_succ (leap : Bool) {m : Nat} (h : 1 ≤ m) :
    daysBeforeMonth leap (m + 1) = daysBeforeMonth leap m + monthLength leap m := by
  cases m with
  | zero => omega
  | succ m => rfl

theorem daysBeforeMonth_thirteen (leap : Bool) : daysBeforeMonth leap 13 = yearLength leap := by
  cases leap <;> rfl

namespace Date

/-- The day number of a date. -/
def toDay (d : Date) : Int :=
  daysBeforeYear d.year + daysBeforeMonth (isLeapYear d.year) d.month + (d.day - 1 : Nat)

/-- How many days of its year precede the day. -/
def dayOfYear (n : Int) : Nat := (n - daysBeforeYear (yearOfDay n)).toNat

/-- The month that the day belongs to. -/
def monthOfDay (n : Int) : Nat := latestMonth (isLeapYear (yearOfDay n)) (dayOfYear n) 12

theorem dayOfYear_lt (n : Int) : dayOfYear n < yearLength (isLeapYear (yearOfDay n)) := by
  have h1 := lt_daysBeforeYear_yearOfDay n
  have h2 := daysBeforeYear_yearOfDay_le n
  rw [daysBeforeYear_succ] at h1
  simp only [dayOfYear]; omega

theorem daysBeforeMonth_monthOfDay_le (n : Int) :
    daysBeforeMonth (isLeapYear (yearOfDay n)) (monthOfDay n) ≤ dayOfYear n :=
  daysBeforeMonth_latestMonth_le ..

theorem dayOfYear_sub_lt (n : Int) :
    dayOfYear n - daysBeforeMonth (isLeapYear (yearOfDay n)) (monthOfDay n) <
      monthLength (isLeapYear (yearOfDay n)) (monthOfDay n) := by
  have h := lt_daysBeforeMonth_latestMonth (isLeapYear (yearOfDay n)) (dayOfYear n) 12
    (by rw [daysBeforeMonth_thirteen]; exact dayOfYear_lt n)
  rw [daysBeforeMonth_succ _ (latestMonth_pos ..)] at h
  have := daysBeforeMonth_monthOfDay_le n
  simp only [monthOfDay] at this ⊢
  omega

/-- The date of a day number. -/
def ofDay (n : Int) : Date where
  year := yearOfDay n
  month := monthOfDay n
  day := dayOfYear n - daysBeforeMonth (isLeapYear (yearOfDay n)) (monthOfDay n) + 1
  month_pos := latestMonth_pos ..
  month_le := latestMonth_le _ _ _ (by decide)
  day_pos := by omega
  day_le := dayOfYear_sub_lt n

/-- The date with these parts, if the calendar has it. -/
def ofParts? (year : Int) (month day : Nat) : Option Date :=
  if h : (1 ≤ month ∧ month ≤ 12) ∧ 1 ≤ day ∧ day ≤ monthLength (isLeapYear year) month then
    some ⟨year, month, day, h.1.1, h.1.2, h.2.1, h.2.2⟩
  else none

@[simp] theorem toDay_ofDay (n : Int) : (ofDay n).toDay = n := by
  have h1 := daysBeforeYear_yearOfDay_le n
  have h2 := daysBeforeMonth_monthOfDay_le n
  simp only [toDay, ofDay, Nat.add_sub_cancel]
  simp only [dayOfYear] at h2 ⊢
  omega

/-- The first day of the month after this date's month. -/
def nextMonthStart (d : Date) : Date :=
  if h : d.month = 12 then
    ⟨d.year + 1, 1, 1, by decide, by decide, by decide, by simp [monthLength]⟩
  else
    ⟨d.year, d.month + 1, 1, by omega, by have := d.month_le; omega, by decide, by
      simp only [monthLength]; split <;> (try split) <;> omega⟩

end Date

/-- How many days the day number lies after a Monday. -/
def daysSinceMonday (day : Int) : Int := (day + 3) % 7

end Timetable
