/-!
# Spans of time

A span is a length of time that is never negative: a whole number of nanoseconds whose second count
fits a 64-bit word. Its parts, whole seconds and the nanoseconds left over, are read off by
division, so two spans with the same parts are the same span.
-/
namespace Timetable

/-- Nanoseconds in one second. -/
abbrev nanosPerSecond : Nat := 1000000000

/-- Nanoseconds in one millisecond. -/
abbrev nanosPerMilli : Nat := 1000000

/-- The first number that a 64-bit word cannot hold. -/
abbrev wordLimit : Nat := 18446744073709551616

/-- The first number that a 32-bit word cannot hold. -/
abbrev shortLimit : Nat := 4294967296

/-- The first nanosecond count that is no span. -/
abbrev spanLimit : Nat := wordLimit * nanosPerSecond

/-- A length of time, exact to the nanosecond. -/
structure Span where
  total : Nat
  total_lt : total < spanLimit
deriving DecidableEq

namespace Span

@[ext] theorem ext {a b : Span} (h : a.total = b.total) : a = b := by
  cases a; cases b; cases h; rfl

instance : Inhabited Span := ⟨⟨0, by decide⟩⟩

/-- The empty span. -/
def zero : Span := ⟨0, by decide⟩

/-- Whole seconds. -/
def seconds (d : Span) : Nat := d.total / nanosPerSecond

/-- Nanoseconds beyond the whole seconds. -/
def subNanos (d : Span) : Nat := d.total % nanosPerSecond

/-- Whole milliseconds. -/
def millis (d : Span) : Nat := d.total / nanosPerMilli

/-- The span of so many nanoseconds, if there is one. -/
def ofNanos? (n : Nat) : Option Span :=
  if h : n < spanLimit then some ⟨n, h⟩ else none

/-- The span with these parts; nanoseconds beyond a second carry over. -/
def ofParts? (seconds nanos : Nat) : Option Span :=
  ofNanos? (seconds * nanosPerSecond + nanos)

/-- So many milliseconds, capped at the largest 64-bit count of them. -/
def ofMillis (n : Nat) : Span :=
  ⟨min n (wordLimit - 1) * nanosPerMilli, by
    have h : min n (wordLimit - 1) ≤ wordLimit - 1 := Nat.min_le_right _ _
    have := Nat.mul_le_mul_right nanosPerMilli h
    exact Nat.lt_of_le_of_lt this (by decide)⟩

theorem seconds_lt (d : Span) : d.seconds < wordLimit :=
  Nat.div_lt_of_lt_mul (by simpa [Nat.mul_comm] using d.total_lt)

theorem subNanos_lt (d : Span) : d.subNanos < nanosPerSecond :=
  Nat.mod_lt _ (by decide)

/-- The parts determine the span. -/
theorem ofParts?_parts (d : Span) : ofParts? d.seconds d.subNanos = some d := by
  have h : d.seconds * nanosPerSecond + d.subNanos = d.total := by
    rw [seconds, subNanos, Nat.mul_comm]; exact Nat.div_add_mod ..
  simp [ofParts?, ofNanos?, h, d.total_lt]

@[simp] theorem total_ofMillis {n : Nat} (h : n < wordLimit) :
    (ofMillis n).total = n * nanosPerMilli := by
  simp only [ofMillis, Nat.min_eq_left (Nat.le_sub_one_of_lt h)]

end Span

end Timetable
