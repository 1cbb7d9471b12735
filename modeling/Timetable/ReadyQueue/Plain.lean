import Timetable.ReadyQueue

/-!
# The ready queue as one list

What the ready queue does, said on a single list in the order of insertion. Dispatch order is a
stable sort of that list by urgency and due time.
-/
namespace Timetable

/-- A waiting identifier with what its place depends on. -/
structure Waiting where
  id : TaskId
  priority : Priority
  due : Option Instant
deriving DecidableEq

/-- Whether one may be dispatched no later than the other, whichever was inserted first. -/
def Waiting.mayPrecede (a b : Waiting) : Bool :=
  if a.priority = b.priority then !dueBefore b.due a.due else b.priority.rank < a.priority.rank

/-- The waiting identifiers in the order of insertion. -/
structure PlainQueue where
  entries : List Waiting := []

namespace PlainQueue

/-- The list without the identifier, and whether it was there. -/
def remove (q : PlainQueue) (id : TaskId) : Bool × PlainQueue :=
  (q.entries.any fun e => e.id = id, ⟨q.entries.filter fun e => e.id ≠ id⟩)

/-- The list with the identifier at its end, and whether it was not there before. -/
def insert (q : PlainQueue) (id : TaskId) (priority : Priority) (due : Option Instant) :
    Bool × PlainQueue :=
  let (wasQueued, q) := q.remove id
  (!wasQueued, ⟨q.entries ++ [{ id, priority, due }]⟩)

/-- The entries in dispatch order. -/
def inOrder (q : PlainQueue) : List Waiting := q.entries.mergeSort Waiting.mayPrecede

/-- The identifiers in dispatch order. -/
def toList (q : PlainQueue) : List TaskId := q.inOrder.map Waiting.id

/-- Whether the entry is due at that time. -/
def isDue (now : Instant) (e : Waiting) : Bool := e.due.any fun t => t ≤ now

/-- The identifiers due at that time, in dispatch order, and the list without them. -/
def extractDue (q : PlainQueue) (now : Instant) : List TaskId × PlainQueue :=
  ((q.inOrder.filter (isDue now)).map Waiting.id, ⟨q.entries.filter fun e => !isDue now e⟩)

/-- The least of the due times. -/
def nextDue? (q : PlainQueue) : Option Instant :=
  (q.entries.filterMap Waiting.due).foldl
    (fun least t => some (match least with
      | none => t
      | some s => if t < s then t else s)) none

/-- The number of entries. -/
def size (q : PlainQueue) : Nat := q.entries.length

end PlainQueue

end Timetable
