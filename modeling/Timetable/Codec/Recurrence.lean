import Timetable.Codec.Time
import Timetable.Recurrence

/-!
# Recurrences in JSON

A pattern is an object whose member `kind` tells which other members it needs; they may come before
it and are held back until it is known. It may also be an array that begins with the kind.
-/
namespace Timetable

open Json
open Json.Record (required optional)

/-- The kinds of patterns; only an interval needs more than its kind. -/
inductive PatternKind where
  | interval
  | plain (p : Pattern)
deriving DecidableEq

namespace PatternKind

/-- The word for a kind. -/
def name : PatternKind → String
  | interval => "fixed_interval"
  | plain p => p.kind

/-- The words for kinds. -/
def vocabulary : Vocabulary PatternKind :=
  ⟨[interval, plain .hourly, plain .daily, plain .weekly, plain .monthly], name⟩

/-- The value of the member `kind`. -/
def ofJson : Value → Except Fault PatternKind
  | .string s => (sound s).bind vocabulary.meaning
  | v => mismatch "variant identifier" v

end PatternKind

namespace Pattern

/-- The members of an interval. -/
def intervalRecord : Record Pattern :=
  Pattern.every <$> required "amount" word <*> required "unit" TimeUnit.vocabulary.decodeHeld

/-- What an interval is called. -/
def intervalTitle : String := "struct variant RecurrencePattern::FixedInterval"

/-- The kind among the members, and the members held back, the last one first. -/
def scanKind (room : Nat) (kind : Option PatternKind) (held : List (Quotation × Value)) :
    List (Quotation × Value) → Except Fault (PatternKind × List (Quotation × Value))
  | [] =>
    match kind with
    | some k => .ok (k, held)
    | none => .error (.missingField "kind")
  | (quotation, v) :: members => do
    let name ← sound quotation
    if name = "kind" then
      if kind.isSome then .error (.duplicateField "kind")
      else scanKind room (some (← PatternKind.ofJson v)) held members
    else do
      readable room v
      scanKind room kind ((quotation, v) :: held) members

/-- The pattern of a kind in the members held back. -/
def ofMembers (kind : PatternKind) (held : List (Quotation × Value)) : Except Fault Pattern :=
  match kind with
  | .plain p => .ok p
  | .interval => intervalRecord.ofMembers false held

/-- The pattern of a kind in the items that follow it. -/
def ofItems (kind : PatternKind) (items : List Value) : Except Fault Pattern :=
  let exactly (count : Nat) (p : Pattern) : Except Fault Pattern :=
    if count < items.length then
      .error (.wrongLength items.length (Record.elements count ++ " in sequence"))
    else .ok p
  match kind with
  | .plain p => exactly 0 p
  | .interval => do
    exactly 2 (← intervalRecord.ofItems false (intervalTitle ++ " with 2 elements") items)

/-- A pattern, with so much room left for arrays and objects inside one another. -/
def ofJson (room : Nat) : Value → Except Fault Pattern
  | .object members => do
    let (kind, held) ← scanKind (room - 1) none [] members
    ofMembers kind held.reverse
  | .array [] => .error (.missingField "kind")
  | .array (tag :: items) => do
    let kind ← PatternKind.ofJson tag
    items.forM (readable (room - 1))
    ofItems kind items
  | v => mismatch "internally tagged enum RecurrencePattern" v

/-- A pattern as an object. -/
def toJson (p : Pattern) : Value :=
  match p with
  | every amount unit =>
    record [("kind", ofString p.kind), ("amount", ofNat amount.toNat), ("unit", ofString unit.name)]
  | _ => record [("kind", ofString p.kind)]

end Pattern

namespace Policy

/-- A policy, with so much room left for arrays and objects inside one another. -/
def ofJson (room : Nat) : Value → Except Fault Policy :=
  RecordStyle.decode { title := "struct RecurrencePolicy" }
    (Policy.mk <$> required "pattern" (Pattern.ofJson (room - 1)) <*>
      optional "end_time" Instant.ofJson <*> required "max_executions" short <*>
      required "enabled" bool)

/-- A policy as an object. -/
def toJson (p : Policy) : Value :=
  record [("pattern", p.pattern.toJson), ("end_time", ofOption Instant.toJson p.endTime),
    ("max_executions", ofNat p.maxExecutions.toNat), ("enabled", .bool p.enabled)]

end Policy

end Timetable
