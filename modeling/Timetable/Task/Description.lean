import Timetable.Instant.Stamp
import Timetable.Task
import Timetable.Text.Quoted

/-!
# Descriptions of tasks

One line that shows a task and its recurrence to a developer.
-/
namespace Timetable

/-- An optional part of a description. -/
def describeOption {α : Type} (describe : α → String) : Option α → String
  | none => "None"
  | some a => "Some(" ++ describe a ++ ")"

/-- A record with named parts. -/
def describeRecord (name : String) (parts : List (String × String)) (isPartial : Bool) : String :=
  let shown := parts.map fun (key, value) => key ++ ": " ++ value
  name ++ " \x7b " ++ String.intercalate ", " (if isPartial then shown ++ [".."]
    else shown) ++ " \x7d"

namespace Pattern

/-- The pattern on one line. -/
def describe : Pattern → String
  | every amount unit =>
    describeRecord "FixedInterval" [("amount", toString amount.toNat), ("unit", unit.title)] false
  | hourly => "Hourly"
  | daily => "Daily"
  | weekly => "Weekly"
  | monthly => "Monthly"

end Pattern

/-- The policy on one line. -/
def Policy.describe (p : Policy) : String :=
  describeRecord "RecurrencePolicy"
    [("pattern", p.pattern.describe), ("end_time", describeOption Instant.stamp p.endTime),
      ("max_executions", toString p.maxExecutions.toNat), ("enabled", toString p.enabled)] false

/-- The task on one line; `nameOf` says how identifiers are shown. -/
def Task.describe (nameOf : TaskId → String) (t : Task W) : String :=
  describeRecord "Task"
    [("id", "TaskId(" ++ nameOf t.id ++ ")"), ("name", Text.quoted t.name),
      ("priority", t.priority.title), ("status", t.status.title),
      ("next_execution", describeOption Instant.stamp t.nextExecution),
      ("execution_count", toString t.executionCount.toNat),
      ("retry_count", toString t.retryCount.toNat),
      ("recurrence", describeOption Policy.describe t.recurrence)] true

end Timetable
