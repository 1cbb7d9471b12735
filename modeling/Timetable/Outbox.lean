import Timetable.Task.Event

/-!
# The outbox

Notices wait in the outbox in the order in which their transitions happened. One thread at a time
delivers them: it takes all that wait, announces them one by one, gives credit for the whole batch,
and steps down when nothing waits. Any other thread that wants its own notices delivered waits for
that thread; only a hook, which runs on the delivering thread itself, goes on at once.
-/
namespace Timetable

/-- What can run: callers, the clock and the workers of the pool. -/
inductive Thread where
  | caller (number : Nat)
  | clock
  | worker (number : Nat)
deriving DecidableEq, Repr

/-- Notices on their way to the listeners. -/
structure Outbox where
  /-- Published, and not yet taken for delivery. -/
  waiting : List Notice := []
  published : Nat := 0
  delivered : Nat := 0
  deliverer : Option Thread := none

/-- What is left to do for a thread that wants notices delivered. -/
inductive DeliveryTurn where
  | goOn
  | wait
  | deliver
deriving DecidableEq, Repr

/-- A thing to do in the course of a delivery. -/
inductive Errand where
  /-- Have everything delivered that is published by now. -/
  | deliver
  /-- Go on once so many notices are delivered. -/
  | reach (target : Nat)
  /-- Take a batch, or step down if nothing waits. -/
  | drain
  | announce (n : Notice)
  | credit (size : Nat)
deriving DecidableEq

namespace Outbox

/-- The outbox with more notices at its end. -/
def publish (o : Outbox) (notices : List Notice) : Outbox :=
  { o with waiting := o.waiting ++ notices, published := o.published + notices.length }

/-- Whether every notice published has been delivered. -/
def isSettled (o : Outbox) : Bool := o.delivered = o.published

/-- What a thread does that wants the first so many notices delivered. -/
def turn (o : Outbox) (me : Thread) (target : Nat) : DeliveryTurn :=
  if target ≤ o.delivered then .goOn
  else match o.deliverer with
    | some other => if other = me then .goOn else .wait
    | none => .deliver

/-- The outbox with that thread as its deliverer. -/
def stepUp (o : Outbox) (me : Thread) : Outbox := { o with deliverer := some me }

/-- The outbox without a deliverer. -/
def stepDown (o : Outbox) : Outbox := { o with deliverer := none }

/-- Everything that waits, and the outbox without it. -/
def takeBatch (o : Outbox) : List Notice × Outbox := (o.waiting, { o with waiting := [] })

/-- The outbox after a batch of that size has been announced. -/
def credit (o : Outbox) (size : Nat) : Outbox := { o with delivered := o.delivered + size }

/-- The outbox after a thread has run an errand, and the errands in its place; none while the thread
has to wait. An announcement leaves the outbox alone. -/
def run? (o : Outbox) (me : Thread) : Errand → Option (Outbox × List Errand)
  | .deliver => some (o, [.reach o.published])
  | .reach target =>
    match o.turn me target with
    | .goOn => some (o, [])
    | .wait => none
    | .deliver => some (o.stepUp me, [.drain])
  | .drain =>
    let (batch, o) := o.takeBatch
    if batch.isEmpty then some (o.stepDown, [])
    else some (o, batch.map .announce ++ [.credit batch.length, .drain])
  | .announce _ => some (o, [])
  | .credit size => some (o.credit size, [])

end Outbox

end Timetable
