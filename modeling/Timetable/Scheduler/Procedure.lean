import Timetable.Scheduler.Query

/-!
# Calls in place

The operations of a scheduler hand out a changed scheduler, or the reason why there is none. A call
changes the scheduler in place, one part after the other, and may find out in the midst of it that
it has to be refused. Here the calls are written in that way: what has been changed before a refusal
stays changed.
-/
namespace Timetable

variable {W α : Type}

/-- A call at work on a scheduler. -/
abbrev Procedure (W α : Type) := ExceptT SchedulerError (StateM (Scheduler W)) α

namespace Procedure

/-- The answer to a call, and what the call leaves behind. -/
def outcome (p : Procedure W α) (s : Scheduler W) : Except SchedulerError α × Scheduler W :=
  (p.run.run s).run

/-- Notices put into the outbox. -/
def publish (notices : List Notice) : Procedure W Unit :=
  modify fun s => { s with outbox := s.outbox.publish notices }

/-- A new task, due at that time. -/
def enqueue (t : Task W) (due now : Instant) : Procedure W TaskId := do
  if !(← get).accepting then throw .shutDown
  if let some fault := t.fault? then throw (.invalidArgument (.task fault))
  if ((← get).task? t.id).isSome then throw (.duplicateTask t.id)
  let numbered := t.accept now (← get).nextSequence
  modify fun s => { s with nextSequence := s.nextSequence + 1 }
  let scheduled := numbered.schedule due
  modify fun s => { s with queue := (s.queue.insert t.id scheduled.priority (some due)).2 }
  publish [scheduled.notice .scheduled]
  modify fun s => { s with tasks := s.tasks ++ [scheduled] }
  return t.id

/-- A new task offered in one of the ways. -/
def schedule (o : Offer) (t : Task W) (asked now : Instant) : Procedure W TaskId := do
  match o.due? t asked with
  | .error cause => throw (.invalidArgument cause)
  | .ok due => enqueue t due now

/-- A task cancelled, and whether there was anything to cancel. -/
def cancel (id : TaskId) : Procedure W Bool := do
  let some t := (← get).task? id | return false
  match t.status with
  | .pending | .scheduled =>
    modify fun s => { s with queue := (s.queue.remove id).2 }
    modify fun s => { s with tasks := Scheduler.replace s.tasks t.cancel }
  | .running => modify fun s => { s with tasks := Scheduler.replace s.tasks t.cancel }
  | .completed | .failed | .cancelled => return false
  publish [t.cancel.notice .cancelled]
  return true

/-- A recurrence switched on or off, and whether there is one. -/
def setRecurrenceEnabled (id : TaskId) (enabled : Bool) : Procedure W Bool := do
  let some t := (← get).task? id | return false
  if t.recurrence.isNone then return false
  modify fun s => { s with tasks := Scheduler.replace s.tasks (t.switch enabled) }
  return true

/-- A task that has ended dropped, and what was last seen of it. -/
def evict (id : TaskId) : Procedure W Snapshot := do
  let some t := (← get).task? id | throw (.taskNotFound id)
  if !t.status.isTerminal then throw (.invalidArgument (.notTerminal id t.status))
  modify fun s => { s with tasks := s.tasks.filter fun u => u.id ≠ id }
  return t.toSnapshot

/-- The jobs of all tasks that are due, if the scheduler is at work. -/
def tick (now : Instant) : Procedure W (List (Job W)) := modifyGet fun s => s.tick now

/-- The scheduler started, with the pool it has got if it did not run before. -/
def start (now : Instant) : Procedure W (Option (Pool (Job W))) := do
  match (← get).lifecycle with
  | .running => return none
  | .stopped => throw .shutDown
  | .created =>
    match Pool.create (← get).config.pool with
    | .error cause => throw (.pool cause)
    | .ok pool =>
      modify fun s => { s with startedAt := some now }
      modify fun s => { s with dispatching := true }
      modify fun s => { s with lifecycle := .running }
      return some pool

/-- The scheduler stopped. If it ran, its pool is shut down, and the answer is whether the workers
left in time. -/
def stop (now : Instant) (inTime : Bool) : Procedure W Bool := do
  let previous := (← get).lifecycle
  modify fun s => { s with lifecycle := .stopped }
  modify fun s => { s with accepting := false }
  modify fun s => { s with dispatching := false }
  if previous ≠ .running then return true
  modify fun s => { s with stoppedAt := some now }
  return inTime

end Procedure

end Timetable
