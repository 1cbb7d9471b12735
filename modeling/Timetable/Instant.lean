import Timetable.Calendar
import Timetable.Span

/-!
# Instants

An instant is a whole number of nanoseconds since 1970-01-01T00:00:00Z, and it may lie in a leap
second. A leap second comes after the last second of a minute and is not counted: its nanoseconds
have the numbers of those of the second before. Instants run from the first nanosecond of the year
-262143 to the last nanosecond of the year 262142; arithmetic that would leave this range either has
no result or stops at the last instant. Instants are moved by shifts. Not every span is short enough
to make a shift, but one that is not leads out of the range anyway.
-/
namespace Timetable

/-- The nanoseconds of the longest shift, whose milliseconds are the most that a signed 64-bit word
counts. -/
abbrev longestShift : Nat := 9223372036854775807 * nanosPerMilli

/-- How far an instant is moved. -/
structure Shift where
  nanos : Nat
  le_longest : nanos ≤ longestShift

/-- The shift by a span, unless the span is too long for one. -/
def Span.shift? (d : Span) : Option Shift :=
  if h : d.total ≤ longestShift then some ⟨d.total, h⟩ else none

/-- Nanoseconds in a day; leap seconds are not counted. -/
abbrev nanosPerDay : Int := 86400000000000

/-- Nanoseconds in an hour. -/
abbrev nanosPerHour : Int := 3600000000000

/-- The first nanosecond of the year -262143. -/
def firstNanos : Int := daysBeforeYear (-262143) * nanosPerDay

/-- The last nanosecond of the year 262142. -/
def lastNanos : Int := daysBeforeYear 262143 * nanosPerDay - 1

/-- Whether a leap second may come after the second: the last one of a minute that is not the last
minute. -/
def EndsMinute (second : Int) : Prop := second % 60 = 59 ∧ second < lastNanos / 1000000000

instance (second : Int) : Decidable (EndsMinute second) :=
  inferInstanceAs (Decidable (_ ∧ _))

/-- A point in time, exact to the nanosecond. -/
structure Instant where
  /-- The number of the nanosecond; one in a leap second has the number of that a second before. -/
  nanos : Int
  /-- Whether the instant lies in a leap second. -/
  leap : Bool := false
  first_le : firstNanos ≤ nanos
  le_last : nanos ≤ lastNanos
  endsMinute : leap = true → EndsMinute (nanos / 1000000000) := by simp
deriving DecidableEq

namespace Instant

/-- An instant in no leap second. -/
def ofNanos (n : Int) (first_le : firstNanos ≤ n := by decide)
    (le_last : n ≤ lastNanos := by decide) :
    Instant := { nanos := n, first_le, le_last }

@[simp] theorem nanos_ofNanos (n : Int) (first_le : firstNanos ≤ n) (le_last : n ≤ lastNanos) :
    (ofNanos n first_le le_last).nanos = n := rfl

@[simp] theorem leap_ofNanos (n : Int) (first_le : firstNanos ≤ n) (le_last : n ≤ lastNanos) :
    (ofNanos n first_le le_last).leap = false := rfl

@[ext] theorem ext {a b : Instant} (h : a.nanos = b.nanos) (hleap : a.leap = b.leap) : a = b := by
  cases a; cases b; cases h; cases hleap; rfl

/-- The number of the second. -/
def second (t : Instant) : Int := t.nanos / 1000000000

/-- The place among all instants. Every second is given the room of two, for the leap second that
may come after it. -/
def rank (t : Instant) : Int := t.nanos + (t.second + t.leap.toNat) * 1000000000

/-- Earlier instants are smaller. -/
instance : LE Instant := ⟨fun a b => a.rank ≤ b.rank⟩

instance : LT Instant := ⟨fun a b => a.rank < b.rank⟩

theorem le_def {a b : Instant} : a ≤ b ↔ a.rank ≤ b.rank := Iff.rfl

theorem lt_def {a b : Instant} : a < b ↔ a.rank < b.rank := Iff.rfl

instance (a b : Instant) : Decidable (a ≤ b) := inferInstanceAs (Decidable (a.rank ≤ b.rank))

instance (a b : Instant) : Decidable (a < b) := inferInstanceAs (Decidable (a.rank < b.rank))

/-- The last representable instant. -/
def last : Instant := ofNanos lastNanos

/-- Midnight of 1970-01-01. -/
def epoch : Instant := ofNanos 0

instance : Inhabited Instant := ⟨epoch⟩

/-! ## The order -/

section Order

variable {a b : Instant}

/-- The seconds decide first, and a leap second comes after its namesake. -/
theorem le_iff : a ≤ b ↔ a.second < b.second ∨
    a.second = b.second ∧
    a.leap.toNat * 1000000000 + a.nanos ≤ b.leap.toNat * 1000000000 + b.nanos := by
  have ha := a.leap.toNat_le
  have hb := b.leap.toNat_le
  rw [le_def]
  simp only [rank, second]
  omega

theorem rank_injective (h : a.rank = b.rank) : a = b := by
  simp only [rank, second] at h
  cases ha : a.leap <;> cases hb : b.leap <;>
    simp only [ha, hb, Bool.toNat_true, Bool.toNat_false] at h
  · exact Instant.ext (by omega) (ha.trans hb.symm)
  · omega
  · omega
  · exact Instant.ext (by omega) (ha.trans hb.symm)

theorem second_le_of_le (h : a ≤ b) : a.second ≤ b.second := by
  rw [le_iff] at h
  omega

theorem lt_of_second_lt (h : a.second < b.second) : a < b := by
  have ha := a.leap.toNat_le
  rw [lt_def]
  simp only [rank, second] at *
  omega

/-- In a leap second, or out of one, the numbers of the nanoseconds tell what is later. -/
theorem le_iff_of_leap_eq (h : a.leap = b.leap) : a ≤ b ↔ a.nanos ≤ b.nanos := by
  rw [le_iff, h]
  simp only [second]
  omega

theorem le_of_nanos_le (ha : a.leap = false) (h : a.nanos ≤ b.nanos) : a ≤ b := by
  rw [le_iff, ha]
  simp only [second, Bool.toNat_false]
  omega

end Order

/-! ## Sums -/

/-- The instant of that nanosecond count, if it is representable. -/
def ofNanos? (n : Int) : Option Instant :=
  if h : firstNanos ≤ n ∧ n ≤ lastNanos then some (ofNanos n h.1 h.2) else none

/-- The instant of that nanosecond count in a leap second, if there may be one. -/
def ofLeapNanos? (n : Int) : Option Instant :=
  if h : (firstNanos ≤ n ∧ n ≤ lastNanos) ∧ EndsMinute (n / 1000000000) then
    some { nanos := n, leap := true, first_le := h.1.1, le_last := h.1.2,
           endsMinute := fun _ => h.2 }
  else none

theorem ofNanos?_nanos {t : Instant} (h : t.leap = false) : ofNanos? t.nanos = some t := by
  rw [ofNanos?, dif_pos ⟨t.first_le, t.le_last⟩]
  exact congrArg some (Instant.ext rfl h.symm)

theorem ofLeapNanos?_nanos {t : Instant} (h : t.leap = true) : ofLeapNanos? t.nanos = some t := by
  rw [ofLeapNanos?, dif_pos ⟨⟨t.first_le, t.le_last⟩, t.endsMinute h⟩]
  exact congrArg some (Instant.ext rfl h.symm)

theorem ofNanos?_eq_some {n : Int} {t : Instant} :
    ofNanos? n = some t ↔ t.nanos = n ∧ t.leap = false := by
  constructor
  · intro h
    unfold ofNanos? at h
    split at h
    · obtain rfl := Option.some.inj h
      exact ⟨rfl, rfl⟩
    · cases h
  · rintro ⟨rfl, hleap⟩
    exact ofNanos?_nanos hleap

/-- Whether the instant lies in a leap second and is still in it so many nanoseconds later. -/
def StaysLeap (t : Instant) (nanos : Nat) : Prop :=
  t.leap = true ∧ (t.nanos + nanos) / 1000000000 = t.second

instance (t : Instant) (nanos : Nat) : Decidable (t.StaysLeap nanos) :=
  inferInstanceAs (Decidable (_ ∧ _))

/-- The instant moved by a shift, if it is representable. A shift counts a leap second as the second
before, so it begins anew when the leap second is left. -/
def move? (t : Instant) (s : Shift) : Option Instant :=
  if t.StaysLeap s.nanos then ofLeapNanos? (t.nanos + s.nanos)
  else ofNanos? (t.nanos + s.nanos)

/-- The instant a span later, if the span makes a shift and the instant is representable. -/
def add? (t : Instant) (d : Span) : Option Instant := d.shift?.bind t.move?

/-- The instant a span later; past the end of the range it is the last instant. -/
def add (t : Instant) (d : Span) : Instant := (t.add? d).getD last

/-- A span too long for a shift leads past the last instant, wherever it begins. -/
theorem lastNanos_lt_of_shift? {d : Span} (h : d.shift? = none) (t : Instant) :
    lastNanos < t.nanos + d.total := by
  have hfirst := t.first_le
  have hrange : lastNanos - firstNanos < longestShift := by decide
  unfold Span.shift? at h
  split at h
  · cases h
  · omega

theorem add?_eq (t : Instant) (d : Span) : t.add? d =
    if t.StaysLeap d.total then ofLeapNanos? (t.nanos + d.total)
      else ofNanos? (t.nanos + d.total) := by
  cases h : d.shift? with
  | none =>
    have hlate := lastNanos_lt_of_shift? h t
    rw [add?, h, Option.bind_none, ofLeapNanos?, ofNanos?, dif_neg fun hfits => by omega,
      dif_neg fun hfits => by omega, ite_self]
  | some s =>
    have hs : s.nanos = d.total := by
      unfold Span.shift? at h
      split at h
      · rw [← Option.some.inj h]
      · cases h
    rw [add?, h, Option.bind_some, move?, hs]

theorem add?_of_not_staysLeap {t : Instant} {d : Span} (h : ¬t.StaysLeap d.total) :
    t.add? d = ofNanos? (t.nanos + d.total) := by
  rw [add?_eq, if_neg h]

/-- Where the leap second is not left there is always a sum. -/
theorem exists_add?_of_staysLeap {t : Instant} {d : Span} (h : t.StaysLeap d.total) :
    ∃ u, t.add? d = some u ∧ u.nanos = t.nanos + d.total ∧ u.leap = true := by
  obtain ⟨hleap, hsame⟩ := h
  have hends := t.endsMinute hleap
  have hfirst := t.first_le
  have hsecond : (t.nanos + d.total) / 1000000000 = t.nanos / 1000000000 := hsame
  have hfits : firstNanos ≤ t.nanos + d.total ∧ t.nanos + d.total ≤ lastNanos := by
    have hbefore := hends.2
    omega
  rw [add?_eq, if_pos ⟨hleap, hsame⟩, ofLeapNanos?, dif_pos ⟨hfits, hsecond ▸ hends⟩]
  exact ⟨_, rfl, rfl, rfl⟩

theorem add?_eq_some {t u : Instant} {d : Span} :
    t.add? d = some u ↔ u.nanos = t.nanos + d.total ∧ (u.leap = true ↔ t.StaysLeap d.total) := by
  by_cases hstays : t.StaysLeap d.total
  · obtain ⟨v, hv, hnanos, hleap⟩ := exists_add?_of_staysLeap hstays
    rw [hv, Option.some.injEq]
    constructor
    · rintro rfl
      exact ⟨hnanos, iff_of_true hleap hstays⟩
    · rintro ⟨hu, huleap⟩
      exact Instant.ext (hnanos.trans hu.symm) (hleap.trans (huleap.mpr hstays).symm)
  · rw [add?_of_not_staysLeap hstays, ofNanos?_eq_some, iff_false_right hstays, Bool.not_eq_true]

/-- A sum of an instant and a span is exact up to the last instant. -/
theorem nanos_add (t : Instant) (d : Span) :
    (t.add d).nanos = min (t.nanos + d.total) lastNanos := by
  by_cases hstays : t.StaysLeap d.total
  · obtain ⟨u, hu, hnanos, -⟩ := exists_add?_of_staysLeap hstays
    have hlast := u.le_last
    rw [add, hu, Option.getD_some, hnanos]
    omega
  · have hfirst := t.first_le
    rw [add, add?_of_not_staysLeap hstays]
    unfold ofNanos?
    split
    · rw [Option.getD_some, nanos_ofNanos]
      omega
    · rw [Option.getD_none, last, nanos_ofNanos]
      omega

theorem leap_add (t : Instant) (d : Span) : (t.add d).leap = true ↔ t.StaysLeap d.total := by
  by_cases hstays : t.StaysLeap d.total
  · obtain ⟨u, hu, -, hleap⟩ := exists_add?_of_staysLeap hstays
    rw [add, hu, Option.getD_some, hleap]
    exact iff_of_true rfl hstays
  · refine iff_of_false ?_ hstays
    rw [add, add?_of_not_staysLeap hstays]
    unfold ofNanos?
    split
    · exact Bool.false_ne_true
    · exact Bool.false_ne_true

/-- Outside leap seconds a sum is in none. -/
theorem leap_add_of_not {t : Instant} (h : t.leap = false) (d : Span) : (t.add d).leap = false := by
  rw [← Bool.not_eq_true, leap_add, StaysLeap, h]
  simp

/-- A sum never lies before the instant. -/
theorem self_le_add (t : Instant) (d : Span) : t ≤ t.add d := by
  have hnanos := t.nanos_add d
  have hlast := t.le_last
  by_cases hleap : (t.add d).leap = t.leap
  · rw [le_iff_of_leap_eq hleap.symm, hnanos]
    omega
  · cases ht : t.leap with
    | false => exact absurd ((leap_add_of_not ht d).trans ht.symm) hleap
    | true =>
      -- the leap second is left, and what comes after it is later
      have hbefore : t.nanos / 1000000000 < lastNanos / 1000000000 := (t.endsMinute ht).2
      rw [ht, leap_add, StaysLeap, not_and] at hleap
      have hother := hleap ht
      refine Int.le_of_lt (lt_of_second_lt ?_)
      simp only [second, hnanos] at *
      omega

theorem le_add {t now : Instant} (h : t ≤ now) (d : Span) : t ≤ now.add d :=
  Int.le_trans h (now.self_le_add d)

/-! ## Differences -/

/-- The second of the day that the instant falls on. -/
def secondOfDay (t : Instant) : Int := t.second % 86400

/-- The nanoseconds that the leap second of one instant adds to its distance from another: none if
the other one has the later time of day. -/
def surplus (t other : Instant) : Int :=
  if t.leap = true ∧ other.secondOfDay ≤ t.secondOfDay then 1000000000 else 0

/-- The nanoseconds from an earlier instant to a later one; negative in the other direction. -/
def minus (later earlier : Instant) : Int :=
  later.nanos - earlier.nanos + later.surplus earlier - earlier.surplus later

/-- The span from an earlier instant to a later one; nothing in the other direction. -/
def since (later earlier : Instant) : Span where
  total := (later.minus earlier).toNat
  total_lt := by
    have h1 := later.le_last
    have h2 := earlier.first_le
    have h3 : lastNanos - firstNanos + 1000000000 < spanLimit := by decide
    have h4 : 0 < spanLimit := by decide
    have h5 : later.surplus earlier ≤ 1000000000 := by unfold surplus; split <;> decide
    have h6 : 0 ≤ earlier.surplus later := by unfold surplus; split <;> decide
    generalize spanLimit = limit at h3 h4 ⊢
    rw [minus]
    omega

/-! ## Dates and times of day -/

/-- The day that the instant falls on, counted from 1970-01-01. -/
def day (t : Instant) : Int := t.nanos / nanosPerDay

/-- The calendar date that the instant falls on. -/
def date (t : Instant) : Date := Date.ofDay t.day

/-- Nanoseconds since the instant's midnight. -/
def nanoOfDay (t : Instant) : Nat := (t.nanos % nanosPerDay).toNat

/-- The instant on that day, so many nanoseconds after midnight. -/
def onDay? (day : Int) (nanoOfDay : Nat) : Option Instant :=
  ofNanos? (day * nanosPerDay + nanoOfDay)

end Instant

end Timetable
