import Timetable.Span

/-!
# Time units

Delays and intervals are given as an amount of a unit. The product is counted in milliseconds and
must fit a 64-bit word.
-/
namespace Timetable

/-- A unit in which delays are given. -/
inductive TimeUnit where
  | milliseconds
  | seconds
  | minutes
  | hours
  | days
deriving DecidableEq, Repr

namespace TimeUnit

/-- Milliseconds in one unit. -/
def inMillis : TimeUnit → Nat
  | milliseconds => 1
  | seconds => 1000
  | minutes => 60000
  | hours => 3600000
  | days => 86400000

/-- The span of so many units, if its milliseconds fit a 64-bit word. -/
def span? (unit : TimeUnit) (amount : Nat) : Option Span :=
  if amount * unit.inMillis < wordLimit then some (Span.ofMillis (amount * unit.inMillis)) else none

/-- The word for the unit in data. -/
def name : TimeUnit → String
  | milliseconds => "milliseconds"
  | seconds => "seconds"
  | minutes => "minutes"
  | hours => "hours"
  | days => "days"

/-- The word for the unit in messages. -/
def title : TimeUnit → String
  | milliseconds => "Milliseconds"
  | seconds => "Seconds"
  | minutes => "Minutes"
  | hours => "Hours"
  | days => "Days"

/-- All units, from the shortest to the longest. -/
def all : List TimeUnit := [milliseconds, seconds, minutes, hours, days]

theorem mem_all (u : TimeUnit) : u ∈ all := by cases u <;> decide

end TimeUnit

end Timetable
