import Timetable.Config.Pool
import Timetable.Error

/-!
# The worker pool

Jobs wait in a channel and are taken in the order in which they were sent. A pool keeps its core
workers and adds surplus workers, up to its maximum, while more jobs wait than workers are idle; a
surplus worker leaves after a while without work. Shutting down raises a flag, closes the channel
and hands back the jobs that wait. Every function here is one step that no other step can interrupt.
-/
namespace Timetable

/-- Whether a worker stays for the pool's lifetime. -/
inductive WorkerRole where
  | core
  | surplus
deriving DecidableEq, Repr

/-- A live worker; it has a job while it is busy. -/
structure Worker (J : Type) where
  number : Nat
  role : WorkerRole
  job : Option J := none

/-- The counts that a pool keeps of itself. -/
structure PoolCounts where
  live : Nat := 0
  idle : Nat := 0
  active : Nat := 0
  queued : Nat := 0
  completed : Nat := 0
  abandoned : Nat := 0
  submitted : Nat := 0
deriving DecidableEq, Repr

/-- A pool whose jobs are of type `J`. -/
structure Pool (J : Type) where
  config : PoolConfig
  /-- Jobs in the channel, the oldest first. -/
  waiting : List J := []
  /-- Whether the channel takes jobs. -/
  isOpen : Bool := true
  /-- Whether the pool has been told to shut down. -/
  isStopping : Bool := false
  workers : List (Worker J) := []
  /-- The number of the next worker. -/
  hired : Nat := 0
  counts : PoolCounts := {}

/-- A job taken from the channel. It begins, unless the pool is shutting down. -/
structure Pickup (J : Type) where
  job : J
  begins : Bool
  pool : Pool J

namespace Pool

variable {J : Type}

/-- The pool with one more idle worker. -/
def hire (p : Pool J) (role : WorkerRole) : Pool J :=
  { p with
    workers := p.workers ++ [{ number := p.hired, role := role }]
    hired := p.hired + 1
    counts := { p.counts with live := p.counts.live + 1, idle := p.counts.idle + 1 } }

/-- A pool with that many core workers hired. -/
def hireCore (p : Pool J) : Nat → Pool J
  | 0 => p
  | n + 1 => (p.hire .core).hireCore n

/-- A new pool with its core workers; the first rule that the configuration breaks forbids it. -/
def create (c : PoolConfig) : Except PoolError (Pool J) :=
  match c.fault? with
  | some fault => .error (.invalidConfig fault.message)
  | none => .ok (({ config := c } : Pool J).hireCore c.coreSize.toNat)

/-- The pool with a job sent to its channel; none if the channel is closed. -/
def post? (p : Pool J) (job : J) : Option (Pool J) :=
  if p.isOpen then some { p with
    waiting := p.waiting ++ [job]
    counts := { p.counts with queued := p.counts.queued + 1, submitted := p.counts.submitted + 1 } }
  else none

/-- The pool with a job sent to its channel; none if the pool takes no jobs any more. -/
def send? (p : Pool J) (job : J) : Option (Pool J) := if p.isStopping then none else p.post? job

/-- The pool after a job was handed back instead of being sent. -/
def reject (p : Pool J) : Pool J :=
  { p with counts := { p.counts with abandoned := p.counts.abandoned + 1 } }

/-- The check that follows a sent job: a surplus worker is hired if more jobs wait than workers are
idle and the pool is below its maximum. -/
def grow (p : Pool J) : Pool J :=
  if p.counts.idle < p.counts.queued ∧ p.counts.live < p.config.maxSize.toNat then p.hire .surplus
  else p

/-- The worker of that number. -/
def worker? (p : Pool J) (number : Nat) : Option (Worker J) :=
  p.workers.find? fun w => w.number = number

/-- The workers, with a job given to the one of that number, or taken from it. -/
def assign (p : Pool J) (number : Nat) (job : Option J) : List (Worker J) :=
  p.workers.map fun w => if w.number = number then { w with job := job } else w

/-- An idle worker takes the oldest job. -/
def take? (p : Pool J) (number : Nat) : Option (Pickup J) :=
  match p.worker? number, p.waiting with
  | some { job := none, .. }, job :: rest =>
    if p.isStopping then
      some { job, begins := false, pool := { p with
        waiting := rest
        counts := { p.counts with
          queued := p.counts.queued - 1
          abandoned := p.counts.abandoned + 1 } } }
    else
      some { job, begins := true, pool := { p with
        waiting := rest
        workers := p.assign number (some job)
        counts := { p.counts with
          queued := p.counts.queued - 1
          idle := p.counts.idle - 1
          active := p.counts.active + 1 } } }
  | _, _ => none

/-- A busy worker ends its job, however the job ended. -/
def complete? (p : Pool J) (number : Nat) : Option (Pool J) :=
  match p.worker? number with
  | some { job := some _, .. } =>
    some { p with
      workers := p.assign number none
      counts := { p.counts with
        active := p.counts.active - 1
        completed := p.counts.completed + 1
        idle := p.counts.idle + 1 } }
  | _ => none

/-- An idle worker leaves: a surplus worker when no job waits, any worker when none will come. -/
def retire? (p : Pool J) (number : Nat) : Option (Pool J) :=
  match p.worker? number with
  | some { job := none, role, .. } =>
    if p.waiting.isEmpty ∧ (role = .surplus ∨ p.isOpen = false) then
      some { p with
        workers := p.workers.filter fun w => w.number ≠ number
        counts := { p.counts with live := p.counts.live - 1, idle := p.counts.idle - 1 } }
    else none
  | _ => none

/-- The pool told to shut down. -/
def raiseFlag (p : Pool J) : Pool J := { p with isStopping := true }

/-- The pool with its channel closed. -/
def close (p : Pool J) : Pool J := { p with isOpen := false }

/-- The oldest waiting job, handed back, and the pool without it. -/
def drain? (p : Pool J) : Option (J × Pool J) :=
  match p.waiting with
  | [] => none
  | job :: rest =>
    some (job, { p with
      waiting := rest
      counts := { p.counts with
        queued := p.counts.queued - 1
        abandoned := p.counts.abandoned + 1 } })

/-- The numbers of the idle workers. -/
def idleWorkers (p : Pool J) : List Nat :=
  (p.workers.filter fun w => w.job.isNone).map Worker.number

/-- The jobs that are being executed. -/
def activeJobs (p : Pool J) : List J := p.workers.filterMap Worker.job

/-- Whether the number of live workers depends on how a check for growth fell. -/
def sizeVaries (p : Pool J) : Bool :=
  p.config.coreSize < p.config.maxSize && p.counts.active < p.config.maxSize.toNat && !p.isStopping

end Pool

/-- What a pool reports; the number of workers is left out while it varies. -/
structure PoolReport where
  workers : Option Nat
  idle : Option Nat
  counts : PoolCounts
deriving DecidableEq

/-- The pool's report. -/
def Pool.report (p : Pool J) : PoolReport where
  workers := if p.sizeVaries then none else some p.counts.live
  idle := if p.sizeVaries then none else some p.counts.idle
  counts := p.counts

end Timetable
