/-!
# Task status

Where a task stands. A scheduled task waits for its due time, a running one has been claimed, and
the last three are terminal: nothing further is planned.
-/
namespace Timetable

/-- Where a task stands. -/
inductive Status where
  | pending
  | scheduled
  | running
  | completed
  | failed
  | cancelled
deriving DecidableEq, Repr

namespace Status

/-- Whether nothing further is planned. -/
def isTerminal : Status → Bool
  | completed | failed | cancelled => true
  | pending | scheduled | running => false

/-- The word for the status in data and in messages. -/
def name : Status → String
  | pending => "pending"
  | scheduled => "scheduled"
  | running => "running"
  | completed => "completed"
  | failed => "failed"
  | cancelled => "cancelled"

/-- The word for the status in descriptions. -/
def title : Status → String
  | pending => "Pending"
  | scheduled => "Scheduled"
  | running => "Running"
  | completed => "Completed"
  | failed => "Failed"
  | cancelled => "Cancelled"

/-- All statuses, in the order of a task's life. -/
def all : List Status := [pending, scheduled, running, completed, failed, cancelled]

theorem mem_all (s : Status) : s ∈ all := by cases s <;> decide

end Status

end Timetable
