import Timetable.Instant
import Timetable.TimeUnit

/-!
# Recurrence

A pattern names the run that follows an instant; a policy bounds a pattern by an end time, by a
number of runs and by a switch. Calendar patterns are read in UTC: they fire at the full hour, or at
09:00 on the next day, the next Monday or the first day of the next month.
-/
namespace Timetable

/-- When a recurring task fires next. -/
inductive Pattern where
  | every (amount : UInt64) (unit : TimeUnit)
  | hourly
  | daily
  | weekly
  | monthly
deriving DecidableEq, Repr

/-- The time of day of the daily, weekly and monthly patterns: nine hours after midnight. -/
def calendarHour : Nat := 32400000000000

namespace Pattern

/-- The first run strictly after an instant; none past the last instant. -/
def next? (p : Pattern) (now : Instant) : Option Instant :=
  match p with
  | every amount unit => (unit.span? amount.toNat).bind now.add?
  | hourly => Instant.ofNanos? ((now.nanos / nanosPerHour + 1) * nanosPerHour)
  | daily => Instant.onDay? (now.day + 1) calendarHour
  | weekly => Instant.onDay? (now.day + (7 - daysSinceMonday now.day)) calendarHour
  | monthly => Instant.onDay? now.date.nextMonthStart.toDay calendarHour

/-- The word for the pattern in data. -/
def kind : Pattern → String
  | every .. => "fixed_interval"
  | hourly => "hourly"
  | daily => "daily"
  | weekly => "weekly"
  | monthly => "monthly"

end Pattern

/-- A pattern with its bounds; no more than `maxExecutions` runs, where zero stands for no bound. -/
structure Policy where
  pattern : Pattern
  endTime : Option Instant := none
  maxExecutions : UInt32 := 0
  enabled : Bool := true
deriving DecidableEq

/-- Why a policy makes no schedule. -/
inductive PolicyFault where
  | zeroInterval
  | intervalOverflows
deriving DecidableEq, Repr

/-- The sentence for a fault. -/
def PolicyFault.message : PolicyFault → String
  | zeroInterval => "recurrence interval must be greater than 0"
  | intervalOverflows => "recurrence interval overflows"

namespace Policy

/-- What is wrong with the policy, if anything. -/
def fault? (p : Policy) : Option PolicyFault :=
  match p.pattern with
  | .every amount unit =>
    if amount = 0 then some .zeroInterval
    else if (unit.span? amount.toNat).isNone then some .intervalOverflows
    else none
  | _ => none

/-- Whether so many runs use up the bound on runs. -/
def isExhausted (p : Policy) (executions : UInt32) : Bool :=
  0 < p.maxExecutions && p.maxExecutions ≤ executions

/-- The run after an instant at which so many runs have happened. None means that the recurrence is
over: it is switched off, its runs are used up, or the next one would come after the end time. -/
def next? (p : Policy) (now : Instant) (executions : UInt32) : Option Instant :=
  if p.enabled && !p.isExhausted executions then
    (p.pattern.next? now).filter fun t => p.endTime.all fun e => t ≤ e
  else none

end Policy

end Timetable
