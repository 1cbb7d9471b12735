import Timetable.Audit
import Timetable.Codec.Task

/-!
# Entries of the audit trail in JSON
-/
namespace Timetable.AuditEvent

open Json
open Json.Record (required optional)

/-- An entry. -/
def ofJson : Value → Except Fault AuditEvent :=
  RecordStyle.decode { title := "struct AuditEvent" }
    (AuditEvent.mk <$> required "event_id" string <*> required "task_id" TaskId.ofJson <*>
      required "task_name" string <*> required "action" string <*>
      required "created_at" Instant.ofJson <*> optional "payload" string)

/-- An entry as an object. -/
def toJson (e : AuditEvent) : Value :=
  record [("event_id", ofString e.eventId), ("task_id", e.taskId.toJson),
    ("task_name", ofString e.taskName), ("action", ofString e.action),
    ("created_at", e.createdAt.toJson), ("payload", ofOption ofString e.payload)]

end Timetable.AuditEvent
