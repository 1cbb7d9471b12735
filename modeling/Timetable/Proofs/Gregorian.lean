import Mathlib.Order.Monotone.Basic
import Mathlib.Algebra.Order.Group.Int
import Timetable.Calendar

/-!
# Day numbers and dates

The calendar is fixed by one date and by the rule that tells what day comes after a date: the next
one of the month, or else the first of the next month. Day numbers follow this rule over all
integers, so dates are in the order of their day numbers and every date has exactly one.
-/
namespace Timetable

theorem monthLength_pos (leap : Bool) (month : Nat) : 0 < monthLength leap month := by
  unfold monthLength
  split
  · cases leap <;> decide
  all_goals decide

theorem daysBeforeYear_mono {year later : Int} (h : year ≤ later) :
    daysBeforeYear year ≤ daysBeforeYear later := by
  have hmono : Monotone daysBeforeYear := by
    apply monotone_int_of_le_succ
    intro year
    rw [daysBeforeYear_succ]
    omega
  exact hmono h

theorem daysBeforeMonth_mono (leap : Bool) : Monotone (daysBeforeMonth leap) := by
  apply monotone_nat_of_le_succ
  intro month
  cases month with
  | zero => exact Nat.le_refl 0
  | succ month =>
    rw [daysBeforeMonth_succ leap (Nat.succ_le_succ (Nat.zero_le month))]
    exact Nat.le_add_right ..

namespace Date

/-- Dates are compared by year, then by month, then by day. -/
instance : LT Date where
  lt a b :=
    a.year < b.year ∨ a.year = b.year ∧ (a.month < b.month ∨ a.month = b.month ∧ a.day < b.day)

theorem lt_def {a b : Date} : a < b ↔
    a.year < b.year ∨ a.year = b.year ∧ (a.month < b.month ∨ a.month = b.month ∧ a.day < b.day) :=
      Iff.rfl

/-- The month of one date is over before the month of the other begins. -/
def MonthBefore (a b : Date) : Prop := a.year < b.year ∨ a.year = b.year ∧ a.month < b.month

theorem MonthBefore.lt {a b : Date} (h : a.MonthBefore b) : a < b := by
  rw [lt_def]
  unfold MonthBefore at h
  omega

@[ext] theorem ext {a b : Date} (hyear : a.year = b.year) (hmonth : a.month = b.month)
    (hday : a.day = b.day) :
    a = b := by
  cases a
  cases b
  simp_all

theorem eq_of_not_lt {a b : Date} (h : ¬ a < b) (h' : ¬ b < a) : a = b := by
  rw [lt_def] at h h'
  ext <;> omega

/-- The day after a date. -/
def tomorrow (d : Date) : Date :=
  if h : d.day < monthLength (isLeapYear d.year) d.month then
    ⟨d.year, d.month, d.day + 1, d.month_pos, d.month_le, by omega, h⟩
  else d.nextMonthStart

/-! ## The order of day numbers -/

/-- A date comes before the first of any later month of its year. -/
theorem dayOfYear_lt_month (d : Date) {month : Nat} (h : d.month < month) :
    daysBeforeMonth (isLeapYear d.year) d.month + (d.day - 1) <
      daysBeforeMonth (isLeapYear d.year) month := by
  have hle := daysBeforeMonth_mono (isLeapYear d.year) (Nat.succ_le_of_lt h)
  rw [Nat.succ_eq_add_one, daysBeforeMonth_succ _ d.month_pos] at hle
  have hpos := d.day_pos
  have hday := d.day_le
  omega

theorem toDay_lt_year (d : Date) : d.toDay < daysBeforeYear (d.year + 1) := by
  have hlt := d.dayOfYear_lt_month (Nat.lt_succ_of_le d.month_le)
  rw [daysBeforeMonth_thirteen] at hlt
  rw [daysBeforeYear_succ, toDay]
  omega

theorem toDay_lt_toDay {a b : Date} (h : a < b) : a.toDay < b.toDay := by
  rcases lt_def.mp h with hyear | ⟨hyear, hmonth | ⟨hmonth, hday⟩⟩
  · have hle := daysBeforeYear_mono (Int.add_one_le_of_lt hyear)
    have hlt := a.toDay_lt_year
    have hb : daysBeforeYear b.year ≤ b.toDay := by
      unfold toDay
      omega
    omega
  · have hlt := a.dayOfYear_lt_month hmonth
    unfold toDay
    rw [hyear] at hlt ⊢
    omega
  · have hpos := a.day_pos
    unfold toDay
    rw [hyear, hmonth]
    omega

theorem toDay_lt_toDay_iff {a b : Date} : a.toDay < b.toDay ↔ a < b := by
  refine ⟨fun h => ?_, toDay_lt_toDay⟩
  by_contra hnot
  by_cases hlt : b < a
  · have := toDay_lt_toDay hlt
    omega
  · rw [eq_of_not_lt hnot hlt] at h
    omega

/-- Every date is the date of its day number. -/
@[simp] theorem ofDay_toDay (d : Date) : ofDay d.toDay = d := by
  apply eq_of_not_lt
  · rw [← toDay_lt_toDay_iff, toDay_ofDay]
    omega
  · rw [← toDay_lt_toDay_iff, toDay_ofDay]
    omega

theorem ofDay_lt_ofDay_iff {m n : Int} : ofDay m < ofDay n ↔ m < n := by
  rw [← toDay_lt_toDay_iff, toDay_ofDay, toDay_ofDay]

/-! ## The day after -/

theorem nextMonthStart_day (d : Date) : d.nextMonthStart.day = 1 := by
  unfold nextMonthStart
  split <;> rfl

theorem monthBefore_nextMonthStart (d : Date) : d.MonthBefore d.nextMonthStart := by
  unfold nextMonthStart MonthBefore
  split
  · left
    show d.year < d.year + 1
    omega
  · right
    exact ⟨rfl, Nat.lt_succ_self d.month⟩

/-- The next month is the first of all later ones. -/
theorem nextMonthStart_le {a b : Date} (h : a.MonthBefore b) :
    a.nextMonthStart.toDay ≤ b.toDay := by
  have hnot : ¬ b < a.nextMonthStart := by
    have hpos := b.month_pos
    have hle := b.month_le
    have hday := b.day_pos
    rw [lt_def, nextMonthStart]
    unfold MonthBefore at h
    split <;> dsimp only <;> omega
  rw [← toDay_lt_toDay_iff] at hnot
  omega

theorem toDay_tomorrow (d : Date) : d.tomorrow.toDay = d.toDay + 1 := by
  have hpos := d.day_pos
  unfold tomorrow
  split
  · unfold toDay
    dsimp only
    omega
  · have hday := d.day_le
    have hlast : d.day = monthLength (isLeapYear d.year) d.month := by omega
    have hmonth := daysBeforeMonth_succ (isLeapYear d.year) d.month_pos
    have hfirst (leap : Bool) : daysBeforeMonth leap 1 = 0 := rfl
    unfold nextMonthStart
    split
    · rename_i hdecember
      rw [hdecember, daysBeforeMonth_thirteen] at hmonth
      rw [hdecember] at hlast
      simp only [toDay, daysBeforeYear_succ, hfirst, hdecember, hmonth, hlast]
      have := monthLength_pos (isLeapYear d.year) 12
      omega
    · unfold toDay
      dsimp only
      rw [hmonth]
      omega

end Date

/-- The dates of the days from day 0 on and back, one after the other: day 0 is the first of
January 1970, and each day is followed by the day after it. Dates grow with the days, and there is
a day for every date. -/
structure IsGregorian (dateOf : Int → Date) : Prop where
  epoch : (dateOf 0).year = 1970 ∧ (dateOf 0).month = 1 ∧ (dateOf 0).day = 1
  next : ∀ n, dateOf (n + 1) = (dateOf n).tomorrow
  increasing : ∀ m n, dateOf m < dateOf n ↔ m < n
  onto : ∀ d, ∃ n, dateOf n = d

/-- The date of a day number is the one of the calendar. -/
theorem Date.isGregorian_ofDay : IsGregorian Date.ofDay where
  epoch := by decide
  next n := by
    have h : (ofDay n).tomorrow.toDay = n + 1 := by rw [toDay_tomorrow, toDay_ofDay]
    rw [← h, ofDay_toDay]
  increasing _ _ := ofDay_lt_ofDay_iff
  onto d := ⟨d.toDay, ofDay_toDay d⟩

end Timetable
