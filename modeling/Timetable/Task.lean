import Timetable.Task.Event
import Timetable.Text.Blank

/-!
# Tasks

A task carries a unit of work, which an attempt takes out and hands back. This module holds the
transitions of a single task; the ones that follow an attempt are `Task.settle`, which records the
attempt and then plans a recurrence or a retry.
-/
namespace Timetable

/-- A task whose units of work are of type `W`. -/
structure Task (W : Type) extends Snapshot where
  /-- The order of acceptance. -/
  sequence : Nat := 0
  /-- The unit of work, while no attempt holds it. -/
  work : Option W

/-- What an attempt came to. -/
inductive Outcome where
  | success
  | failure (error : String)
deriving DecidableEq, Repr

/-- An attempt that has ended. -/
structure Attempt where
  startedAt : Instant
  duration : Span
  outcome : Outcome
deriving DecidableEq

/-- Why a task cannot be accepted. -/
inductive TaskFault where
  | blankName
  | notPending (id : TaskId) (status : Status)
  | noWork (id : TaskId)
  | policy (fault : PolicyFault)
deriving DecidableEq, Repr

/-- The sentence for a fault; `nameOf` says how identifiers are shown. -/
def TaskFault.message (nameOf : TaskId → String) : TaskFault → String
  | blankName => "task name must not be empty"
  | notPending id status => "task " ++ nameOf id ++ " is " ++ status.name ++ ", expected pending"
  | noWork id => "task " ++ nameOf id ++ " has no unit of work"
  | policy fault => fault.message

/-- A count one higher, which stays at the largest word. -/
def countUp (n : UInt32) : UInt32 := if n = 4294967295 then n else n + 1

theorem toNat_countUp {n : UInt32} (h : n ≠ 4294967295) : (countUp n).toNat = n.toNat + 1 := by
  have h' : n.toNat ≠ 4294967295 := fun e => h (UInt32.toNat_inj.mp (by simpa using e))
  have := n.toNat_lt
  rw [countUp, if_neg h, UInt32.toNat_add]
  simp only [UInt32.reduceToNat]
  omega

namespace Task

variable {W : Type}

/-- A notice of the task as it stands. -/
def notice (t : Task W) (e : Event) : Notice := ⟨e, t.toSnapshot⟩

/-- What keeps the task from being accepted; of several faults the first. -/
def fault? (t : Task W) : Option TaskFault :=
  if Text.isBlankText t.name then some .blankName
  else if t.status ≠ .pending then some (.notPending t.id t.status)
  else if t.work.isNone then some (.noWork t.id)
  else (t.recurrence.bind Policy.fault?).map .policy

/-- Acceptance at a time, as the one of that number. -/
def accept (t : Task W) (now : Instant) (sequence : Nat) : Task W :=
  { t with createdAt := now, sequence := sequence }

/-- The task with a due time ahead. -/
def schedule (t : Task W) (due : Instant) : Task W :=
  { t with status := .scheduled, scheduledAt := some due, nextExecution := some due }

/-- The due time, while the task waits for it. -/
def due? (t : Task W) : Option Instant :=
  if t.status = .scheduled then t.nextExecution else none

/-- The task while an attempt holds its unit of work. -/
def claimed (t : Task W) : Task W := { t with status := .running, work := none }

/-- The unit of work, taken out for an attempt. -/
def claim? (t : Task W) : Option (W × Task W) := t.work.map fun w => (w, t.claimed)

/-- The task with its unit of work handed back. -/
def giveBack (t : Task W) (w : W) : Task W := { t with work := some w }

/-- The task with its recurrence switched on or off. -/
def switch (t : Task W) (enabled : Bool) : Task W :=
  { t with recurrence := t.recurrence.map fun p => { p with enabled := enabled } }

/-- The task whose job was handed back before it began: if it still runs it waits again, as it did
before. -/
def handBack (t : Task W) (w : W) (now : Instant) : Task W :=
  if t.status = .running then (t.giveBack w).schedule (t.nextExecution.getD now) else t.giveBack w

/-- The task once an attempt is counted. -/
def recordAttempt (t : Task W) (a : Attempt) : Task W :=
  { t with
    executionCount := countUp t.executionCount
    lastExecution := some a.startedAt
    lastDuration := some a.duration }

/-- The task in a status that ends it, unless it is cancelled already. -/
def endAs (t : Task W) (status : Status) : Task W :=
  if t.status = .cancelled then t else { t with status := status, nextExecution := none }

/-- The task after an attempt that succeeded. -/
def recordSuccess (t : Task W) : Task W :=
  { t with lastError := none, retryCount := 0 }.endAs .completed

/-- The task after an attempt that failed. -/
def recordFailure (t : Task W) (error : String) : Task W :=
  { t with lastError := some error }.endAs .failed

/-- The task with nothing ahead of it. -/
def cancel (t : Task W) : Task W := { t with status := .cancelled, nextExecution := none }

/-- The task waiting for one more retry. -/
def retry (t : Task W) (due : Instant) : Task W :=
  { t with retryCount := countUp t.retryCount }.schedule due

/-- Whether its failed attempts have used up the bound of its recurrence. -/
def isExhausted (t : Task W) : Bool := t.recurrence.any fun p => p.isExhausted t.executionCount

/-- What comes after a success: a recurring task is scheduled again, or cancelled when its
recurrence is over. -/
def afterSuccess? (t : Task W) (now : Instant) : Option (Task W × Event) :=
  t.recurrence.map fun p =>
    match p.next? now t.executionCount with
    | some due => (t.schedule due, .scheduled)
    | none => (t.cancel, .cancelled)

/-- What comes after a failure: a recurring task that has used up its runs is cancelled, and any
other is retried while retries are left. -/
def afterFailure? (t : Task W) (now : Instant) (retryDelay : Span) : Option (Task W × Event) :=
  if t.isExhausted then some (t.cancel, .cancelled)
  else if t.maxRetries ≤ t.retryCount then none
  else some (t.retry (now.add retryDelay), .scheduled)

/-- The task and the event right after the attempt. -/
def record (t : Task W) (w : W) (a : Attempt) : Task W × Event :=
  let t := (t.giveBack w).recordAttempt a
  match a.outcome with
  | .success => (t.recordSuccess, .completed)
  | .failure error => (t.recordFailure error, .failed error)

/-- What is planned after the attempt; nothing for a task that was cancelled meanwhile. -/
def followUp? (t : Task W) (outcome : Outcome) (now : Instant) (retryDelay : Span) :
    Option (Task W × Event) :=
  if t.status = .cancelled then none
  else match outcome with
    | .success => t.afterSuccess? now
    | .failure _ => t.afterFailure? now retryDelay

/-- The task after an attempt, and the notices of what happened to it. -/
def settle (t : Task W) (w : W) (a : Attempt) (now : Instant) (retryDelay : Span) :
    Task W × List Notice :=
  let (ended, event) := t.record w a
  match ended.followUp? a.outcome now retryDelay with
  | none => (ended, [ended.notice event])
  | some (next, following) => (next, [ended.notice event, next.notice following])

end Task

end Timetable
