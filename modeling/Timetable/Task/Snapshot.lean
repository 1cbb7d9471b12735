import Timetable.Recurrence
import Timetable.Task.Priority
import Timetable.Task.Status
import Timetable.TaskId

/-!
# Snapshots of tasks

Everything that can be seen of a task at one moment; only its unit of work is left out.
-/
namespace Timetable

/-- How many times a failed attempt is repeated unless the task says otherwise. -/
def defaultRetries : UInt32 := 3

/-- What can be seen of a task. -/
structure Snapshot where
  id : TaskId
  name : String
  description : String := ""
  priority : Priority := .normal
  status : Status := .pending
  /-- When the task was accepted. -/
  createdAt : Instant
  /-- The due time given last. -/
  scheduledAt : Option Instant := none
  /-- When the last attempt started. -/
  lastExecution : Option Instant := none
  /-- The due time ahead, if there is one. -/
  nextExecution : Option Instant := none
  /-- Attempts that ended. -/
  executionCount : UInt32 := 0
  /-- The error of the last attempt, if it failed. -/
  lastError : Option String := none
  /-- How long the last attempt took. -/
  lastDuration : Option Span := none
  /-- Retries since the last success. -/
  retryCount : UInt32 := 0
  maxRetries : UInt32 := defaultRetries
  recurrence : Option Policy := none
deriving DecidableEq

/-- Whether the task recurs. -/
def Snapshot.isRecurring (s : Snapshot) : Bool := s.recurrence.isSome

end Timetable
