import Timetable.Task

/-!
# Metrics and statistics

Running counts of attempts with their mean duration, and the counts of tasks by status.
-/
namespace Timetable

/-- Counts of attempts, and the mean of their durations in milliseconds. -/
structure Metrics where
  total : Nat := 0
  succeeded : Nat := 0
  failed : Nat := 0
  average : Float := 0

/-- Milliseconds of a span, seconds and fraction converted apart. -/
def Span.toMillisFloat (d : Span) : Float :=
  (d.seconds.toUInt64.toFloat + d.subNanos.toUInt64.toFloat / 1000000000) * 1000

/-- The counts with one more attempt; the mean moves toward its duration. -/
def Metrics.record (m : Metrics) (duration : Span) (succeeded : Bool) : Metrics :=
  let total := m.total + 1
  { total := total
    succeeded := if succeeded then m.succeeded + 1 else m.succeeded
    failed := if succeeded then m.failed else m.failed + 1
    average := m.average + (duration.toMillisFloat - m.average) / total.toUInt64.toFloat }

/-- What a scheduler reports of itself. -/
structure Statistics where
  totalTasks : Nat := 0
  pending : Nat := 0
  scheduled : Nat := 0
  running : Nat := 0
  completed : Nat := 0
  failed : Nat := 0
  cancelled : Nat := 0
  /-- Tasks that carry a recurrence policy. -/
  recurring : Nat := 0
  totalExecutions : Nat := 0
  successfulExecutions : Nat := 0
  failedExecutions : Nat := 0
  averageExecution : Float := 0
  /-- Workers that execute a unit of work. -/
  activeWorkers : Nat := 0
  workerThreads : Nat := 0
  uptime : Span := Span.zero

/-- The counts over a list of tasks. -/
def Statistics.collect (tasks : List (Task W)) (m : Metrics) : Statistics where
  totalTasks := tasks.length
  pending := tasks.countP fun t => t.status = .pending
  scheduled := tasks.countP fun t => t.status = .scheduled
  running := tasks.countP fun t => t.status = .running
  completed := tasks.countP fun t => t.status = .completed
  failed := tasks.countP fun t => t.status = .failed
  cancelled := tasks.countP fun t => t.status = .cancelled
  recurring := tasks.countP fun t => t.isRecurring
  totalExecutions := m.total
  successfulExecutions := m.succeeded
  failedExecutions := m.failed
  averageExecution := m.average

end Timetable
