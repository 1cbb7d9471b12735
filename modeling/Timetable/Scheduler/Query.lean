import Timetable.Scheduler

/-!
# Questions to the scheduler

Listings are ordered by the time of acceptance and, where times are equal, by its number.
-/
namespace Timetable.Scheduler

variable {W : Type}

/-- Whether one task was accepted no later than the other. -/
def acceptedBefore (a b : Task W) : Bool :=
  a.createdAt < b.createdAt || (a.createdAt = b.createdAt && a.sequence ≤ b.sequence)

/-- The tasks that satisfy the test, the oldest first. -/
def listWhere (s : Scheduler W) (test : Task W → Bool) : List Snapshot :=
  ((s.tasks.filter test).mergeSort acceptedBefore).map Task.toSnapshot

/-- All tasks. -/
def listAll (s : Scheduler W) : List Snapshot := s.listWhere fun _ => true

/-- The tasks in a status. -/
def listByStatus (s : Scheduler W) (status : Status) : List Snapshot :=
  s.listWhere fun t => t.status = status

/-- The tasks that wait for their due time, in dispatch order. -/
def listPending (s : Scheduler W) : List Snapshot :=
  s.queue.toList.filterMap fun id => (s.task? id).map Task.toSnapshot

/-- The tasks that have been claimed. -/
def listRunning (s : Scheduler W) : List Snapshot := s.listByStatus .running

/-- The earliest due time of a task that waits. -/
def nextDue? (s : Scheduler W) : Option Instant := s.queue.nextDue?

/-- The task of that identifier, as it stands. -/
def snapshot? (s : Scheduler W) (id : TaskId) : Option Snapshot := (s.task? id).map Task.toSnapshot

/-- Whether no attempt is in flight and every notice has been delivered. -/
def isSettled (s : Scheduler W) : Bool := s.inFlight = 0 && s.outbox.isSettled

/-- What a call returns that waits until nothing is in flight and every notice is delivered, when it
looks at the scheduler; none if it goes on waiting. When its time is up it looks once more. -/
def awaitSettled? (s : Scheduler W) (timeUp : Bool) : Option Bool :=
  if s.isSettled then some true else if timeUp then some false else none

/-- The time since the start, which stands still after the stop. -/
def uptime (s : Scheduler W) (now : Instant) : Span :=
  match s.startedAt with
  | none => .zero
  | some started => (s.stoppedAt.getD now).since started

/-- The statistics, with the counts of the pool if there is one at work. -/
def statistics (s : Scheduler W) (pool : Option (Pool (Job W))) (now : Instant) : Statistics :=
  let st := { Statistics.collect s.tasks s.metrics with uptime := s.uptime now }
  match pool with
  | none => st
  | some p => { st with activeWorkers := p.counts.active, workerThreads := p.counts.live }

end Timetable.Scheduler
