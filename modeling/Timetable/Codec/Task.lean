import Timetable.Codec.Recurrence
import Timetable.Task.Event
import Timetable.TaskId.Reading

/-!
# Tasks in JSON

Snapshots are records. An event is an object with the member `event` for its kind and, where the
kind has one, a member `error`; in an array the kind comes first.
-/
namespace Timetable

open Json
open Json.Record (required optional)

/-- An identifier. -/
def TaskId.ofJson : Value → Except Fault TaskId :=
  readString "a formatted UUID string" fun s =>
    match TaskId.read s.toList with
    | .ok id => .ok id
    | .error f => .error ("UUID parsing failed: " ++ f.message)

/-- The written form of an identifier. -/
def TaskId.toJson (id : TaskId) : Value := ofString id.text

/-- The words for priorities. -/
def Priority.vocabulary : Vocabulary Priority := ⟨Priority.all, Priority.name⟩

/-- A priority. -/
def Priority.ofJson : Value → Except Fault Priority := Priority.vocabulary.decode

/-- The words for statuses. -/
def Status.vocabulary : Vocabulary Status := ⟨Status.all, Status.name⟩

/-- A status. -/
def Status.ofJson : Value → Except Fault Status := Status.vocabulary.decode

namespace Snapshot

/-- The fields of a snapshot, whose policy has so much room left. -/
def fields (room : Nat) : Record Snapshot :=
  Snapshot.mk <$> required "id" TaskId.ofJson <*> required "name" string <*>
    required "description" string <*> required "priority" Priority.ofJson <*>
    required "status" Status.ofJson <*> required "created_at" Instant.ofJson <*>
    optional "scheduled_at" Instant.ofJson <*> optional "last_execution" Instant.ofJson <*>
    optional "next_execution" Instant.ofJson <*> required "execution_count" short <*>
    optional "last_error" string <*> optional "last_duration" Span.ofJson <*>
    required "retry_count" short <*> required "max_retries" short <*>
    optional "recurrence" (Policy.ofJson room)

/-- A snapshot. -/
def ofJson : Value → Except Fault Snapshot :=
  RecordStyle.decode { title := "struct TaskSnapshot" } (fields (depthLimit - 1))

/-- A snapshot as an object. -/
def toJson (s : Snapshot) : Value :=
  record [("id", s.id.toJson), ("name", ofString s.name), ("description", ofString s.description),
    ("priority", ofString s.priority.name), ("status", ofString s.status.name),
    ("created_at", s.createdAt.toJson), ("scheduled_at", ofOption Instant.toJson s.scheduledAt),
    ("last_execution", ofOption Instant.toJson s.lastExecution),
    ("next_execution", ofOption Instant.toJson s.nextExecution),
    ("execution_count", ofNat s.executionCount.toNat),
    ("last_error", ofOption ofString s.lastError),
    ("last_duration", ofOption Span.toJson s.lastDuration),
    ("retry_count", ofNat s.retryCount.toNat), ("max_retries", ofNat s.maxRetries.toNat),
    ("recurrence", ofOption Policy.toJson s.recurrence)]

end Snapshot

/-- The words for kinds of events. -/
def EventKind.vocabulary : Vocabulary EventKind := ⟨EventKind.all, EventKind.name⟩

namespace Event

/-- What events are called. -/
def title : String := "adjacently tagged enum TaskEvent"

/-- An event that needs no error; only null may stand in its place. -/
def plain (e : Event) (called : String) : Value → Except Fault Event
  | .null => .ok e
  | v => mismatch ("unit variant TaskEvent::" ++ called) v

/-- The event of a kind, with the value of the member `error`. -/
def ofContent (kind : EventKind) (v : Value) : Except Fault Event :=
  match kind with
  | .scheduled => plain .scheduled "Scheduled" v
  | .started => plain .started "Started" v
  | .completed => plain .completed "Completed" v
  | .failed => (string v).map .failed
  | .cancelled => plain .cancelled "Cancelled" v

/-- The event of a kind alone. -/
def ofKind : EventKind → Except Fault Event
  | .scheduled => .ok .scheduled
  | .started => .ok .started
  | .completed => .ok .completed
  | .failed => .error (.missingField "error")
  | .cancelled => .ok .cancelled

/-- The member that comes next, of the two that matter, with the members behind it. -/
inductive NextMember where
  | event (v : Value) (rest : List (Quotation × Value))
  | error (v : Value) (rest : List (Quotation × Value))
  | none

/-- The next member that matters; others are passed over. -/
def next : List (Quotation × Value) → Except Fault NextMember
  | [] => .ok .none
  | (quotation, v) :: members => do
    let name ← sound quotation
    if name = "event" then .ok (.event v members)
    else if name = "error" then .ok (.error v members)
    else next members

/-- The event, if no further member matters. -/
def last (e : Event) (members : List (Quotation × Value)) : Except Fault Event := do
  match ← next members with
  | .event .. => .error (.duplicateField "event")
  | .error .. => .error (.duplicateField "error")
  | .none => .ok e

/-- The event whose kind comes first. -/
def afterKind (kind : EventKind) (members : List (Quotation × Value)) : Except Fault Event := do
  match ← next members with
  | .event .. => .error (.duplicateField "event")
  | .error v rest => do last (← ofContent kind v) rest
  | .none => ofKind kind

/-- The event whose error comes first and is held back. -/
def afterError (held : Value) (members : List (Quotation × Value)) : Except Fault Event := do
  readable (depthLimit - 1) held
  match ← next members with
  | .event v rest => do
    let kind ← EventKind.vocabulary.decode v
    last (← ofContent kind held) rest
  | .error .. => .error (.duplicateField "error")
  | .none => .error (.missingField "event")

/-- An event. -/
def ofJson : Value → Except Fault Event
  | .object members => do
    match ← next members with
    | .event v rest => do afterKind (← EventKind.vocabulary.decode v) rest
    | .error v rest => afterError v rest
    | .none => .error (.missingField "event")
  | .array [] => .error (.wrongLength 0 title)
  | .array (v :: items) => do
    let kind ← EventKind.vocabulary.decode v
    match items with
    | [] => .error (.wrongLength 1 title)
    | content :: others => do
      let e ← ofContent kind content
      if others.isEmpty then .ok e else .error .trailing
  | v => mismatch title v

/-- An event as an object. -/
def toJson (e : Event) : Value :=
  record (("event", ofString e.name) ::
    match e.error? with
    | some error => [("error", ofString error)]
    | none => [])

end Event

end Timetable
