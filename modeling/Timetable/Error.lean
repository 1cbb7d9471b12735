import Timetable.Instant.Stamp
import Timetable.Task

/-!
# Errors

Why a call is refused. Errors are causes; the sentence for each is given by one function, which
takes a way to show identifiers.
-/
namespace Timetable

/-- Why an argument is no good. -/
inductive Refusal where
  | task (fault : TaskFault)
  | delayOverflows (amount : Nat) (unit : TimeUnit)
  | noRecurrence (id : TaskId)
  | startsAfterEnd (id : TaskId) (due last : Instant)
  | notTerminal (id : TaskId) (status : Status)
  /-- A reason given in words. -/
  | stated (reason : String)
deriving DecidableEq

/-- The sentence for a refusal. -/
def Refusal.message (nameOf : TaskId → String) : Refusal → String
  | task fault => fault.message nameOf
  | delayOverflows amount unit =>
    "delay of " ++ toString amount ++ " " ++ unit.title ++ " overflows"
  | noRecurrence id => "task " ++ nameOf id ++ " has no recurrence policy"
  | startsAfterEnd id due last =>
    "first run of task " ++ nameOf id ++ " at " ++ due.inWords ++ " is after the recurrence end " ++
      last.inWords
  | notTerminal id status =>
    "task " ++ nameOf id ++ " is " ++ status.name ++ " and cannot be evicted"
  | stated reason => reason

/-- Why a worker pool refuses. -/
inductive PoolError where
  | shutDown
  | invalidConfig (reason : String)
  | spawnFailed (reason : String)
deriving DecidableEq, Repr

/-- The sentence for an error of a pool. -/
def PoolError.message : PoolError → String
  | shutDown => "pool has been shut down"
  | invalidConfig reason => "invalid configuration: " ++ reason
  | spawnFailed reason => "failed to spawn worker: " ++ reason

/-- Why a scheduler refuses. -/
inductive SchedulerError where
  | invalidArgument (cause : Refusal)
  | duplicateTask (id : TaskId)
  | taskNotFound (id : TaskId)
  | shutDown
  | invalidConfig (reason : String)
  | pool (cause : PoolError)
deriving DecidableEq

/-- The sentence for an error of a scheduler. -/
def SchedulerError.message (nameOf : TaskId → String) : SchedulerError → String
  | invalidArgument cause => "invalid argument: " ++ cause.message nameOf
  | duplicateTask id => "duplicate task: " ++ nameOf id
  | taskNotFound id => "task not found: " ++ nameOf id
  | shutDown => "scheduler is shut down"
  | invalidConfig reason => "invalid configuration: " ++ reason
  | pool cause => "worker pool error: " ++ cause.message

end Timetable
