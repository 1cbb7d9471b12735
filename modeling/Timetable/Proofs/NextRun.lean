import Timetable.Recurrence

/-!
# The next run

A pattern that a policy may have names a run strictly after the instant it is asked at.
-/
namespace Timetable

/-- A month is over before the next one begins. -/
theorem Date.toDay_lt_nextMonthStart (d : Date) : d.toDay < d.nextMonthStart.toDay := by
  have hday : d.day - 1 < monthLength (isLeapYear d.year) d.month := by
    have hpos := d.day_pos
    have hle := d.day_le
    omega
  have hmonth := daysBeforeMonth_succ (isLeapYear d.year) d.month_pos
  rw [nextMonthStart]
  split
  · rename_i hlast
    have hyear : daysBeforeMonth (isLeapYear d.year) (12 + 1) = _ := daysBeforeMonth_thirteen _
    have hfirst (leap : Bool) : daysBeforeMonth leap 1 = 0 := rfl
    rw [hlast] at hmonth hday
    rw [hyear] at hmonth
    simp only [toDay, hlast, daysBeforeYear_succ, hmonth, hfirst]
    omega
  · simp only [toDay, hmonth]
    omega

theorem Date.day_lt_nextMonthStart (day : Int) : day < (Date.ofDay day).nextMonthStart.toDay := by
  have hlt := (Date.ofDay day).toDay_lt_nextMonthStart
  rwa [Date.toDay_ofDay] at hlt

namespace Instant

/-- An instant on a later day is later. -/
theorem lt_of_onDay? {t now : Instant} {day : Int} {nanoOfDay : Nat}
    (h : onDay? day nanoOfDay = some t) (hday : now.day < day) : now < t := by
  have hnanos := (ofNanos?_eq_some.mp h).1
  refine lt_of_second_lt ?_
  rw [Instant.day] at hday
  simp only [second, hnanos, nanosPerDay] at *
  omega

/-- A span that is not empty leads to a later instant. -/
theorem lt_of_add? {t now : Instant} {d : Span} (h : now.add? d = some t) (hpos : 0 < d.total) :
    now < t := by
  have hsum : now.add d = t := by rw [add, h, Option.getD_some]
  have hle := now.self_le_add d
  rw [hsum] at hle
  refine Int.lt_iff_le_and_ne.mpr ⟨hle, fun hrank => ?_⟩
  -- nothing is lost at the end of the range, where there would be no sum
  have hnanos := (add?_eq_some.mp h).1
  rw [← rank_injective hrank] at hnanos
  omega

end Instant

theorem TimeUnit.total_pos {unit : TimeUnit} {amount : Nat} {d : Span}
    (h : unit.span? amount = some d) (hpos : 0 < amount) : 0 < d.total := by
  rw [span?] at h
  split at h
  · rename_i hlimit
    obtain rfl := Option.some.inj h
    rw [Span.total_ofMillis hlimit]
    have hunit : 0 < unit.inMillis := by cases unit <;> decide
    exact Nat.mul_pos (Nat.mul_pos hpos hunit) (by decide)
  · cases h

namespace Policy

variable {p : Policy} {now due : Instant}

theorem lt_of_pattern_next? (valid : p.fault? = none) (h : p.pattern.next? now = some due) :
    now < due := by
  rw [fault?] at valid
  cases hp : p.pattern with
  | every amount unit =>
    rw [hp] at h valid
    obtain ⟨d, hd, hdue⟩ := Option.bind_eq_some_iff.mp h
    have hamount : amount ≠ 0 := fun hzero => by simp [hzero] at valid
    have hpos : 0 < amount.toNat :=
      Nat.pos_of_ne_zero fun hzero => hamount (UInt64.toNat_inj.mp hzero)
    exact Instant.lt_of_add? hdue (TimeUnit.total_pos hd hpos)
  | hourly =>
    rw [hp] at h
    have hnanos := (Instant.ofNanos?_eq_some.mp h).1
    refine Instant.lt_of_second_lt ?_
    simp only [Instant.second, hnanos, nanosPerHour]
    omega
  | daily =>
    rw [hp] at h
    exact Instant.lt_of_onDay? h (by omega)
  | weekly =>
    rw [hp] at h
    refine Instant.lt_of_onDay? h ?_
    rw [daysSinceMonday]
    omega
  | monthly =>
    rw [hp] at h
    exact Instant.lt_of_onDay? h (Date.day_lt_nextMonthStart _)

/-- The next run of a policy without fault is strictly later. -/
theorem lt_of_next? (valid : p.fault? = none) {executions : UInt32}
    (h : p.next? now executions = some due) :
    now < due := by
  rw [next?] at h
  split at h
  · exact lt_of_pattern_next? valid (Option.filter_eq_some_iff.mp h).1
  · cases h

end Policy

end Timetable
