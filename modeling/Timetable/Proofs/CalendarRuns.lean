import Mathlib.Order.Bounds.Basic
import Timetable.Proofs.Gregorian
import Timetable.Proofs.NextRun

/-!
# The runs that patterns name

A pattern allows runs at certain moments of an unbounded line of time, and names the earliest one
that comes after an instant. Only where this moment is past the last instant does the pattern name
none. The later the instant, the fewer moments are left, so the run that is named never comes
earlier. A fixed interval counts a leap second as the second before: from there it may name an
earlier run than it did.
-/
namespace Timetable

/-- The date on which a moment falls, counted in nanoseconds like an instant but without bounds. -/
def dateAt (moment : Int) : Date := Date.ofDay (moment / nanosPerDay)

/-- The moment is nine o'clock of its day. -/
def AtNine (moment : Int) : Prop := moment % nanosPerDay = 9 * nanosPerHour

/-- Nanoseconds in so many units. -/
def TimeUnit.inNanos (unit : TimeUnit) (amount : Nat) : Nat :=
  amount * unit.inMillis * nanosPerMilli

/-- A Monday: the eleventh of March 2024. -/
def Date.someMonday : Date := ⟨2024, 3, 11, by decide, by decide, by decide, by decide⟩

/-- The date is so many whole weeks before or after a Monday. -/
def Date.IsMonday (d : Date) : Prop := (7 : Int) ∣ d.toDay - someMonday.toDay

/-- The instant comes before the moment. Moments lie in no leap second, and those of the second
before a leap second are over when it begins. -/
def Instant.Before (now : Instant) (moment : Int) : Prop :=
  now.nanos < moment ∧ (now.leap = true → now.second < moment / 1000000000)

/-- The moments after an instant at which the pattern allows a run. -/
def Pattern.Allows (now : Instant) : Pattern → Int → Prop
  | every amount unit, moment => now.nanos + unit.inNanos amount.toNat ≤ moment
  | hourly, moment => now.Before moment ∧ nanosPerHour ∣ moment
  | daily, moment => now.date < dateAt moment ∧ AtNine moment
  | weekly, moment => now.date < dateAt moment ∧ AtNine moment ∧ (dateAt moment).IsMonday
  | monthly, moment => now.date.MonthBefore (dateAt moment) ∧ AtNine moment ∧
    (dateAt moment).day = 1

/-- A run that a pattern names lies in a leap second: the interval that leads to it ends in the leap
second in which it begins. -/
def Pattern.StaysLeap (now : Instant) : Pattern → Prop
  | every amount unit => now.StaysLeap (unit.inNanos amount.toNat)
  | _ => False

/-- The later instant is later for the pattern too. A fixed interval goes by the numbers of the
nanoseconds, which those of a leap second share with those of the second before. -/
def Pattern.InStep (now later : Instant) : Pattern → Prop
  | every .. => now.nanos ≤ later.nanos
  | _ => True

section Days

variable {moment day : Int} {now : Instant}

theorem date_lt_dateAt : now.date < dateAt moment ↔ now.day < moment / nanosPerDay :=
  Date.ofDay_lt_ofDay_iff

theorem atNine_iff :
    AtNine moment ↔ moment = moment / nanosPerDay * nanosPerDay + calendarHour := by
  simp only [AtNine, nanosPerDay, nanosPerHour, calendarHour]
  omega

/-- Nine o'clock of a day falls on that day. -/
theorem nine_ediv (day : Int) : (day * nanosPerDay + calendarHour) / nanosPerDay = day := by
  simp only [nanosPerDay, calendarHour]
  omega

theorem nine_le_of_le (hnine : AtNine moment) (h : day ≤ moment / nanosPerDay) :
    day * nanosPerDay + calendarHour ≤ moment := by
  rw [atNine_iff] at hnine
  simp only [nanosPerDay, calendarHour] at *
  omega

theorem atNine_nine (day : Int) : AtNine (day * nanosPerDay + calendarHour) := by
  rw [atNine_iff, nine_ediv]

theorem dateAt_nine (day : Int) : dateAt (day * nanosPerDay + calendarHour) = Date.ofDay day := by
  rw [dateAt, nine_ediv]

theorem isMonday_ofDay_iff : (Date.ofDay day).IsMonday ↔ daysSinceMonday day = 0 := by
  have h : Date.someMonday.toDay = 19793 := by decide
  rw [Date.IsMonday, Date.toDay_ofDay, h, daysSinceMonday]
  omega

theorem lt_of_date_lt (h : now.date < dateAt moment) : now.nanos < moment := by
  rw [date_lt_dateAt] at h
  simp only [Instant.day, nanosPerDay] at h
  omega

end Days

namespace Pattern

variable {p : Pattern} {now later : Instant} {moment : Int}

/-- The earliest moment that a pattern allows after an instant. -/
def earliest (now : Instant) : Pattern → Int
  | every amount unit => now.nanos + unit.inNanos amount.toNat
  | hourly => (now.nanos / nanosPerHour + 1) * nanosPerHour
  | daily => (now.day + 1) * nanosPerDay + calendarHour
  | weekly => (now.day + (7 - daysSinceMonday now.day)) * nanosPerDay + calendarHour
  | monthly => now.date.nextMonthStart.toDay * nanosPerDay + calendarHour

theorem isLeast_earliest (p : Pattern) (now : Instant) :
    IsLeast {m | p.Allows now m} (p.earliest now) := by
  cases p with
  | every amount unit => exact ⟨Int.le_refl _, fun m hm => hm⟩
  | hourly =>
    refine ⟨⟨?_, Int.dvd_mul_left ..⟩, fun m hm => ?_⟩
    · simp only [Instant.Before, Instant.second, earliest, nanosPerHour]
      omega
    · obtain ⟨⟨hlt, -⟩, k, rfl⟩ := hm
      simp only [earliest, nanosPerHour] at *
      omega
  | daily =>
    refine ⟨⟨?_, atNine_nine _⟩, fun m hm => ?_⟩
    · rw [date_lt_dateAt, earliest, nine_ediv]
      omega
    · obtain ⟨hdate, hnine⟩ := hm
      rw [date_lt_dateAt] at hdate
      exact nine_le_of_le hnine hdate
  | weekly =>
    have hweek : 0 ≤ daysSinceMonday now.day ∧ daysSinceMonday now.day < 7 := by
      unfold daysSinceMonday
      omega
    refine ⟨⟨?_, atNine_nine _, ?_⟩, fun m hm => ?_⟩
    · rw [date_lt_dateAt, earliest, nine_ediv]
      omega
    · rw [earliest, dateAt_nine, isMonday_ofDay_iff]
      unfold daysSinceMonday
      omega
    · obtain ⟨hdate, hnine, hmonday⟩ := hm
      rw [date_lt_dateAt] at hdate
      rw [dateAt, isMonday_ofDay_iff] at hmonday
      apply nine_le_of_le hnine
      unfold daysSinceMonday at *
      omega
  | monthly =>
    refine ⟨⟨?_, atNine_nine _, ?_⟩, fun m hm => ?_⟩
    · rw [earliest, dateAt_nine, Date.ofDay_toDay]
      exact now.date.monthBefore_nextMonthStart
    · rw [earliest, dateAt_nine, Date.ofDay_toDay]
      exact now.date.nextMonthStart_day
    · obtain ⟨hmonth, hnine, -⟩ := hm
      have hle := Date.nextMonthStart_le hmonth
      rw [dateAt, Date.toDay_ofDay] at hle
      exact nine_le_of_le hnine hle

/-- No run is allowed before the instant. -/
theorem Allows.le (h : p.Allows now moment) : now.nanos ≤ moment := by
  cases p with
  | every amount unit =>
    unfold Allows at h
    omega
  | hourly => exact Int.le_of_lt h.1.1
  | daily => exact Int.le_of_lt (lt_of_date_lt h.1)
  | weekly => exact Int.le_of_lt (lt_of_date_lt h.1)
  | monthly => exact Int.le_of_lt (lt_of_date_lt h.1.lt)

/-- What is allowed after a later instant is allowed after an earlier one. -/
theorem Allows.anti (h : p.Allows later moment) (hle : now ≤ later) (hstep : p.InStep now later) :
    p.Allows now moment := by
  have hsecond := Instant.second_le_of_le hle
  have hday : now.day ≤ later.day := by
    simp only [Instant.second, Instant.day, nanosPerDay] at *
    omega
  have hdate (d : Date) (hlt : later.date < d) : now.date < d := by
    rw [← Date.ofDay_toDay d] at hlt ⊢
    exact Date.ofDay_lt_ofDay_iff.mpr (Int.lt_of_le_of_lt hday (Date.ofDay_lt_ofDay_iff.mp hlt))
  cases p with
  | every amount unit =>
    unfold Allows InStep at *
    omega
  | hourly =>
    refine ⟨?_, h.2⟩
    obtain ⟨⟨hlt, hleap⟩, k, rfl⟩ := h
    simp only [Instant.Before, Instant.second, nanosPerHour] at *
    omega
  | daily => exact ⟨hdate _ h.1, h.2⟩
  | weekly => exact ⟨hdate _ h.1, h.2⟩
  | monthly =>
    refine ⟨?_, h.2⟩
    have hmonth : ¬ later.date < now.date := by
      rw [Instant.date, Instant.date, Date.ofDay_lt_ofDay_iff]
      omega
    have hbefore := h.1
    rw [Date.lt_def] at hmonth
    unfold Date.MonthBefore at *
    omega

theorem le_earliest (p : Pattern) (now : Instant) : now.nanos ≤ p.earliest now :=
  Allows.le (isLeast_earliest p now).1

theorem earliest_mono (h : now ≤ later) (hstep : p.InStep now later) :
    p.earliest now ≤ p.earliest later :=
  (isLeast_earliest p now).2 ((isLeast_earliest p later).1.anti h hstep)

/-- A delay that does not fit its word leads past the last instant. -/
theorem lastNanos_lt_of_wordLimit_le {delay : Nat} (now : Instant) (h : wordLimit ≤ delay) :
    lastNanos < now.nanos + (delay * nanosPerMilli : Nat) := by
  have hfirst := now.first_le
  have hrange : lastNanos - firstNanos < (wordLimit * nanosPerMilli : Nat) := by decide
  have hlate := Nat.mul_le_mul_right nanosPerMilli h
  omega

theorem next?_eq_some {t : Instant} :
    p.next? now = some t ↔ t.nanos = p.earliest now ∧ (t.leap = true ↔ p.StaysLeap now) := by
  cases p with
  | every amount unit =>
    simp only [next?, TimeUnit.span?, earliest, StaysLeap, TimeUnit.inNanos]
    split
    · rename_i hlimit
      rw [Option.bind_some, Instant.add?_eq_some, Span.total_ofMillis hlimit]
    · rename_i hlimit
      have hlate := lastNanos_lt_of_wordLimit_le now (Nat.le_of_not_lt hlimit)
      have hlast := t.le_last
      refine iff_of_false (by simp) fun h => ?_
      rw [h.1] at hlast
      exact Int.not_le_of_gt hlate hlast
  | hourly | daily | weekly | monthly =>
    simp only [StaysLeap, iff_false, Bool.not_eq_true]
    exact Instant.ofNanos?_eq_some

theorem next?_eq_none : p.next? now = none ↔ lastNanos < p.earliest now := by
  constructor
  · intro hnone
    by_contra hfits
    rw [Int.not_lt] at hfits
    have hlow := p.le_earliest now
    have hfirst := now.first_le
    have hrange : firstNanos ≤ p.earliest now := Int.le_trans hfirst hlow
    by_cases hstays : p.StaysLeap now
    · have hends : EndsMinute (p.earliest now / 1000000000) := by
        cases p with
        | every amount unit =>
          obtain ⟨hleap, hsame⟩ := hstays
          exact hsame ▸ now.endsMinute hleap
        | hourly | daily | weekly | monthly => cases hstays
      let due : Instant :=
        { nanos := p.earliest now, leap := true, first_le := hrange, le_last := hfits,
          endsMinute := fun _ => hends }
      have hdue : p.next? now = some due := next?_eq_some.mpr ⟨rfl, iff_of_true rfl hstays⟩
      rw [hnone] at hdue
      cases hdue
    · have hdue : p.next? now = some (.ofNanos _ hrange hfits) :=
        next?_eq_some.mpr ⟨rfl, iff_of_false Bool.false_ne_true hstays⟩
      rw [hnone] at hdue
      cases hdue
  · intro hlate
    cases hnext : p.next? now with
    | none => rfl
    | some t =>
      have hlast := t.le_last
      rw [(next?_eq_some.mp hnext).1] at hlast
      exact absurd hlast (Int.not_le_of_gt hlate)

end Pattern

/-- A pattern names the earliest moment that it allows, and none only if this moment is past the
last instant. -/
theorem Pattern.next?_least (p : Pattern) (now : Instant) : IsGregorian Date.ofDay ∧
    ∃ m, IsLeast {m | p.Allows now m} m ∧
      (∀ t, p.next? now = some t ↔ t.nanos = m ∧ (t.leap = true ↔ p.StaysLeap now)) ∧
      (p.next? now = none ↔ lastNanos < m) :=
  ⟨Date.isGregorian_ofDay, earliest now p, isLeast_earliest p now, fun _ => next?_eq_some,
    next?_eq_none⟩

-- the first and the last day, and a leap year that is a century
example : dateAt firstNanos = ⟨-262143, 1, 1, by decide, by decide, by decide, by decide⟩ ∧
    dateAt lastNanos = ⟨262142, 12, 31, by decide, by decide, by decide, by decide⟩ ∧
    Date.ofDay (daysBeforeYear (-400) + 59) =
      ⟨-400, 2, 29, by decide, by decide, by decide, by decide⟩ := by
  decide

end Timetable
