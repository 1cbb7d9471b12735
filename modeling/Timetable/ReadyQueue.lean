import Timetable.Instant
import Timetable.Task.Priority
import Timetable.TaskId

/-!
# The ready queue

Identifiers of tasks that wait for their due time. The queue keeps its entries three times: in
dispatch order, in the order of their due times, and by identifier. The first answers what comes
next, the second finds the entries that are due without a look at the others, and the third finds
the entry of an identifier, which is queued once at most.
-/
namespace Timetable

variable {α : Type}

/-- The list with the element put before the first one that has to follow it. -/
def insertSorted (before : α → α → Bool) (a : α) : List α → List α
  | [] => [a]
  | b :: bs => if before a b then a :: b :: bs else b :: insertSorted before a bs

/-- The elements in order, one inserted after the other. -/
def sortBy (before : α → α → Bool) (l : List α) : List α := l.foldr (insertSorted before) []

/-- Whether one due time comes before another; entries without a due time come last. -/
def dueBefore : Option Instant → Option Instant → Bool
  | some a, some b => a < b
  | some _, none => true
  | none, _ => false

/-- An entry of the queue; the number counts insertions. -/
structure QueueEntry where
  id : TaskId
  priority : Priority
  due : Option Instant
  number : Nat
deriving DecidableEq

namespace QueueEntry

/-- Dispatch order: the more urgent first, then the earlier due, then the earlier inserted. -/
def dispatchedBefore (a b : QueueEntry) : Bool :=
  if a.priority ≠ b.priority then b.priority.rank < a.priority.rank
  else if a.due ≠ b.due then dueBefore a.due b.due
  else a.number < b.number

/-- The order of due times, of equal ones the earlier inserted first. -/
def dueSooner (a b : QueueEntry) : Bool :=
  if a.due ≠ b.due then dueBefore a.due b.due else a.number < b.number

/-- Whether the entry is due at that time. -/
def isDue (e : QueueEntry) (now : Instant) : Bool := e.due.any fun t => t ≤ now

end QueueEntry

/-- The three views of one set of entries, and the number of the next insertion. -/
structure ReadyQueue where
  byRank : List QueueEntry := []
  /-- Only the entries that have a due time. -/
  byDue : List QueueEntry := []
  byId : List QueueEntry := []
  nextNumber : Nat := 0

namespace ReadyQueue

/-- The queue without entries. -/
def empty : ReadyQueue := {}

/-- The entry of an identifier. -/
def entryOf? (q : ReadyQueue) (id : TaskId) : Option QueueEntry := q.byId.find? fun e => e.id = id

/-- The queue without the identifier, and whether it was queued. -/
def remove (q : ReadyQueue) (id : TaskId) : Bool × ReadyQueue :=
  match q.entryOf? id with
  | none => (false, q)
  | some e =>
    (true, { q with
      byRank := q.byRank.filter fun x => x ≠ e
      byDue := if e.due.isSome then q.byDue.filter fun x => x ≠ e else q.byDue
      byId := q.byId.filter fun x => x.id ≠ id })

/-- The queue with a new entry, and whether the identifier was not queued before. An older entry of
the identifier is replaced, and its place in the order of insertion is lost. -/
def insert (q : ReadyQueue) (id : TaskId) (priority : Priority) (due : Option Instant) :
    Bool × ReadyQueue :=
  let (wasQueued, q) := q.remove id
  let e : QueueEntry := { id, priority, due, number := q.nextNumber }
  (!wasQueued, {
    byRank := insertSorted QueueEntry.dispatchedBefore e q.byRank
    byDue := if due.isSome then insertSorted QueueEntry.dueSooner e q.byDue else q.byDue
    byId := e :: q.byId
    nextNumber := q.nextNumber + 1 })

/-- The identifiers due at that time, in dispatch order, and the queue without them. -/
def extractDue (q : ReadyQueue) (now : Instant) : List TaskId × ReadyQueue :=
  let due := q.byDue.takeWhile fun e => e.isDue now
  ((sortBy QueueEntry.dispatchedBefore due).map QueueEntry.id, { q with
    byRank := q.byRank.filter fun e => e ∉ due
    byDue := q.byDue.dropWhile fun e => e.isDue now
    byId := q.byId.filter fun e => e ∉ due })

/-- The queued identifiers in dispatch order. -/
def toList (q : ReadyQueue) : List TaskId := q.byRank.map QueueEntry.id

/-- The earliest due time. -/
def nextDue? (q : ReadyQueue) : Option Instant := q.byDue.head?.bind QueueEntry.due

/-- The number of entries. -/
def size (q : ReadyQueue) : Nat := q.byId.length

/-- Whether nothing is queued. -/
def isEmpty (q : ReadyQueue) : Bool := q.byId.isEmpty

end ReadyQueue

end Timetable
