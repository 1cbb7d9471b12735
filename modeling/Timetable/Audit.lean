import Timetable.Task.Event

/-!
# The audit trail

A bounded log of what happened to tasks. When it is full the oldest entry makes room for a new one,
so that the log holds the last of the events recorded.
-/
namespace Timetable

/-- An entry of the audit trail. -/
structure AuditEvent where
  eventId : String
  taskId : TaskId
  /-- The task's name at the time of the event. -/
  taskName : String
  action : String
  createdAt : Instant
  payload : Option String := none
deriving DecidableEq

/-- The entry for a notice; the error of a failed attempt is its payload. -/
def AuditEvent.ofNotice (eventId : String) (n : Notice) (now : Instant) : AuditEvent where
  eventId := eventId
  taskId := n.task.id
  taskName := n.task.name
  action := n.event.name
  createdAt := now
  payload := n.event.error?

/-- The last events recorded, at most so many. -/
structure AuditTrail where
  capacity : Nat
  events : List AuditEvent := []

namespace AuditTrail

/-- The trail with one more event. -/
def record (t : AuditTrail) (e : AuditEvent) : AuditTrail :=
  if t.capacity = 0 then t
  else if t.capacity ≤ t.events.length then { t with events := t.events.tail ++ [e] }
  else { t with events := t.events ++ [e] }

/-- The stored events of one task, the oldest first. -/
def eventsFor (t : AuditTrail) (id : TaskId) : List AuditEvent :=
  t.events.filter fun e => e.taskId = id

end AuditTrail

end Timetable
