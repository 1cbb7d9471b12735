import Timetable.Config
import Timetable.Error
import Timetable.Metrics
import Timetable.Outbox
import Timetable.Pool
import Timetable.ReadyQueue

/-!
# The scheduler

The scheduler's state and its transitions. Each transition is a single step under the scheduler's
lock; it changes tasks, queue, metrics and outbox together. A claimed task becomes a job, which
carries the task's unit of work until the attempt is recorded or the job is handed back.
-/
namespace Timetable

/-- The scheduler's life; it never goes back. -/
inductive Lifecycle where
  | created
  | running
  | stopped
deriving DecidableEq, Repr

/-- A way to offer a new task. -/
inductive Offer where
  | dueNow
  | dueAt (due : Instant)
  | dueAfter (amount : Nat) (unit : TimeUnit)
  | recurring
deriving DecidableEq

/-- When a task offered at that time is due first. The first run of a recurring task is the one it
asks for, or at once, and must not come after the end of its recurrence. -/
def Offer.due? {W : Type} (o : Offer) (t : Task W) (asked : Instant) : Except Refusal Instant :=
  match o with
  | dueNow => .ok asked
  | dueAt due => .ok due
  | dueAfter amount unit =>
    match unit.span? amount with
    | none => .error (.delayOverflows amount unit)
    | some delay => .ok (asked.add delay)
  | recurring =>
    match t.recurrence with
    | none => .error (.noRecurrence t.id)
    | some policy =>
      let due := t.nextExecution.getD asked
      match policy.endTime.filter fun last => last < due with
      | some last => .error (.startsAfterEnd t.id due last)
      | none => .ok due

/-- A claimed task on its way to a worker. -/
structure Job (W : Type) where
  id : TaskId
  work : W

/-- The state of a scheduler whose units of work are of type `W`. -/
structure Scheduler (W : Type) where
  config : Config
  tasks : List (Task W) := []
  queue : ReadyQueue := .empty
  metrics : Metrics := {}
  /-- Jobs whose attempt is neither recorded nor handed back. -/
  inFlight : Nat := 0
  outbox : Outbox := {}
  nextSequence : Nat := 0
  accepting : Bool := true
  dispatching : Bool := false
  lifecycle : Lifecycle := .created
  startedAt : Option Instant := none
  stoppedAt : Option Instant := none

namespace Scheduler

variable {W : Type}

/-- A scheduler not yet started; the first rule that the configuration breaks forbids it. -/
def create (c : Config) : Except SchedulerError (Scheduler W) :=
  match c.fault? with
  | some fault => .error (.invalidConfig ("config invalid: " ++ fault.message))
  | none => .ok { config := c }

/-- Whether the scheduler has been started and not stopped. -/
def isRunning (s : Scheduler W) : Bool := s.lifecycle = .running

/-- The task of that identifier. -/
def task? (s : Scheduler W) (id : TaskId) : Option (Task W) := s.tasks.find? fun t => t.id = id

/-- The tasks, with that one in the place of the one of its identifier. -/
def replace (tasks : List (Task W)) (t : Task W) : List (Task W) :=
  tasks.map fun u => if u.id = t.id then t else u

/-- The scheduler with a task changed and queued if it waits for a due time, and with
notices of it. -/
def put (s : Scheduler W) (t : Task W) (notices : List Notice) : Scheduler W :=
  { s with
    tasks := replace s.tasks t
    queue := match t.due? with
      | some due => (s.queue.insert t.id t.priority (some due)).2
      | none => s.queue
    outbox := s.outbox.publish notices }

/-! ## Accepting tasks -/

/-- The scheduler with a valid task taken in, due at that time. -/
def takeIn (s : Scheduler W) (t : Task W) (due now : Instant) :
    Except SchedulerError (Scheduler W) :=
  if (s.task? t.id).isSome then .error (.duplicateTask t.id)
  else
    let t := (t.accept now s.nextSequence).schedule due
    .ok { s with
      tasks := s.tasks ++ [t]
      queue := (s.queue.insert t.id t.priority (some due)).2
      outbox := s.outbox.publish [t.notice .scheduled]
      nextSequence := s.nextSequence + 1 }

/-- A new task, due at that time. -/
def enqueue (s : Scheduler W) (t : Task W) (due now : Instant) :
    Except SchedulerError (Scheduler W) :=
  if !s.accepting then .error .shutDown
  else match t.fault? with
    | some fault => .error (.invalidArgument (.task fault))
    | none => s.takeIn t due now

/-- A new task offered in one of the ways. The clock is read when the task is offered and again when
it is accepted. -/
def schedule (s : Scheduler W) (o : Offer) (t : Task W) (asked now : Instant) :
    Except SchedulerError (Scheduler W) :=
  match o.due? t asked with
  | .error cause => .error (.invalidArgument cause)
  | .ok due => s.enqueue t due now

/-! ## Claiming due tasks -/

/-- The task of the identifier, claimed, if it waits and has its unit of work. -/
def claim? (s : Scheduler W) (id : TaskId) : Option (Job W × Scheduler W) :=
  match s.task? id with
  | none => none
  | some t =>
    if t.status ≠ .scheduled then none
    else t.claim?.map fun (work, t) =>
      ({ id, work }, { s with
        tasks := replace s.tasks t
        inFlight := s.inFlight + 1
        outbox := s.outbox.publish [t.notice .started] })

/-- The tasks of the identifiers, claimed one after the other; what cannot be claimed
is left out. -/
def claimAll (s : Scheduler W) : List TaskId → List (Job W) × Scheduler W
  | [] => ([], s)
  | id :: ids =>
    match s.claim? id with
    | none => s.claimAll ids
    | some (job, s) =>
      let (jobs, s) := s.claimAll ids
      (job :: jobs, s)

/-- All tasks that are due, claimed in dispatch order. -/
def claimDue (s : Scheduler W) (now : Instant) : List (Job W) × Scheduler W :=
  let (due, queue) := s.queue.extractDue now
  { s with queue }.claimAll due

/-- A tick: what it claims, if it claims at all, and the scheduler after that. -/
def tick (s : Scheduler W) (now : Instant) : List (Job W) × Scheduler W :=
  if s.isRunning && s.dispatching then s.claimDue now else ([], s)

/-! ## After an attempt -/

/-- The scheduler after an attempt of the job. Of an evicted task only the metrics know. -/
def finish (s : Scheduler W) (job : Job W) (a : Attempt) (now : Instant) : Scheduler W :=
  let s := { s with
    inFlight := s.inFlight - 1
    metrics := s.metrics.record a.duration (decide (a.outcome = Outcome.success)) }
  match s.task? job.id with
  | none => s
  | some t =>
    let (t, notices) := t.settle job.work a now s.config.retryDelay
    s.put t notices

/-- The scheduler after the job was handed back before it began. -/
def abandon (s : Scheduler W) (job : Job W) (now : Instant) : Scheduler W :=
  let s := { s with inFlight := s.inFlight - 1 }
  match s.task? job.id with
  | none => s
  | some t =>
    if t.status = .running then s.put (t.handBack job.work now) []
    else { s with tasks := replace s.tasks (t.handBack job.work now) }

/-! ## Changing tasks -/

/-- The scheduler with a task cancelled; none if there is no such task or it has ended. A running
attempt goes on, but the task is not queued again. -/
def cancel? (s : Scheduler W) (id : TaskId) : Option (Scheduler W) :=
  match s.task? id with
  | none => none
  | some t =>
    if t.status.isTerminal then none
    else
      let queue := if t.status = .running then s.queue else (s.queue.remove id).2
      let t := t.cancel
      some { s with
        tasks := replace s.tasks t
        queue := queue
        outbox := s.outbox.publish [t.notice .cancelled] }

/-- The scheduler with a recurrence switched on or off; none if there is no such recurrence. -/
def setRecurrenceEnabled? (s : Scheduler W) (id : TaskId) (enabled : Bool) :
    Option (Scheduler W) :=
  match s.task? id with
  | none => none
  | some t =>
    if t.isRecurring then some { s with tasks := replace s.tasks (t.switch enabled) } else none

/-- The scheduler without a task that has ended, and what was last seen of the task. -/
def evict (s : Scheduler W) (id : TaskId) : Except SchedulerError (Snapshot × Scheduler W) :=
  match s.task? id with
  | none => .error (.taskNotFound id)
  | some t =>
    if t.status.isTerminal then
      .ok (t.toSnapshot, { s with tasks := s.tasks.filter fun u => u.id ≠ id })
    else .error (.invalidArgument (.notTerminal id t.status))

/-! ## Starting and stopping -/

/-- The scheduler started; one that runs goes on, and one that was stopped stays so. -/
def start (s : Scheduler W) (now : Instant) : Except SchedulerError (Scheduler W) :=
  match s.lifecycle with
  | .running => .ok s
  | .stopped => .error .shutDown
  | .created => .ok { s with lifecycle := .running, dispatching := true, startedAt := some now }

/-- The scheduler stopped: it accepts and dispatches nothing any more. -/
def stop (s : Scheduler W) (now : Instant) : Scheduler W :=
  { s with
    lifecycle := .stopped
    accepting := false
    dispatching := false
    stoppedAt := if s.lifecycle = .running then some now else s.stoppedAt }

end Scheduler

end Timetable
