import Timetable.Task.Snapshot

/-!
# Events

What happens to a task is announced by events. A notice is an event together with the task as it was
just then.
-/
namespace Timetable

/-- The kinds of events. -/
inductive EventKind where
  | scheduled
  | started
  | completed
  | failed
  | cancelled
deriving DecidableEq, Repr

/-- Something that happened to a task. -/
inductive Event where
  | scheduled
  | started
  | completed
  | failed (error : String)
  | cancelled
deriving DecidableEq, Repr

namespace EventKind

/-- The word for the kind. -/
def name : EventKind → String
  | scheduled => "scheduled"
  | started => "started"
  | completed => "completed"
  | failed => "failed"
  | cancelled => "cancelled"

/-- All kinds. -/
def all : List EventKind := [scheduled, started, completed, failed, cancelled]

theorem mem_all (k : EventKind) : k ∈ all := by cases k <;> decide

end EventKind

namespace Event

/-- The kind of an event. -/
def kind : Event → EventKind
  | scheduled => .scheduled
  | started => .started
  | completed => .completed
  | failed _ => .failed
  | cancelled => .cancelled

/-- The error of a failed attempt. -/
def error? : Event → Option String
  | failed error => some error
  | _ => none

/-- The word for the event. -/
def name (e : Event) : String := e.kind.name

end Event

/-- An event and the task at that moment. -/
structure Notice where
  event : Event
  task : Snapshot
deriving DecidableEq

end Timetable
