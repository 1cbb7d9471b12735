import Timetable.Instant.Reading
import Timetable.Json.Record
import Timetable.TimeUnit

/-!
# Times in JSON

Spans are records of whole seconds and nanoseconds, and instants are stamps.
-/
namespace Timetable

open Json
open Json.Record (required)

/-- A span from its parts, if it is one. -/
def Span.ofWords (seconds : UInt64) (nanos : UInt32) : Except Fault Span :=
  match Span.ofParts? seconds.toNat nanos.toNat with
  | some d => .ok d
  | none => .error (.meaningless "overflow deserializing Duration")

/-- A span; no other member is allowed beside its parts. -/
def Span.ofJson : Value → Except Fault Span :=
  RecordStyle.decode { title := "struct Duration", tellsCount := false, isClosed := true }
    ((Prod.mk <$> required "secs" word <*> required "nanos" short).andThen
      fun (seconds, nanos) => Span.ofWords seconds nanos)

/-- The parts of a span. -/
def Span.toJson (d : Span) : Value :=
  record [("secs", ofNat d.seconds), ("nanos", ofNat d.subNanos)]

/-- An instant. -/
def Instant.ofJson : Value → Except Fault Instant :=
  readString "an RFC 3339 formatted date and time string" fun s =>
    match Instant.read s.toList with
    | .ok t => .ok t
    | .error f => .error f.message

/-- The stamp of an instant. -/
def Instant.toJson (t : Instant) : Value := ofString t.stamp

/-- The words for units. -/
def TimeUnit.vocabulary : Vocabulary TimeUnit := ⟨TimeUnit.all, TimeUnit.name⟩

/-- A unit. -/
def TimeUnit.ofJson : Value → Except Fault TimeUnit := TimeUnit.vocabulary.decode

end Timetable
