import Timetable.Pool

/-!
# Jobs in a pool

Calls to a worker pool whose jobs end at once, end badly at once, or wait until they are released.
After each call the pool is left alone until nothing can happen: no worker is idle while a job
waits, and every job under execution waits for its release.
-/
namespace Timetable.Scenario.Jobs

/-- How a job behaves. -/
inductive JobKind where
  | quick
  | gated
  | crash
deriving DecidableEq, Repr

/-- A job for the pool. -/
structure PoolJob where
  id : Nat
  kind : JobKind
deriving DecidableEq, Repr

/-- A call to the pool. -/
inductive Call where
  | submit (job : PoolJob)
  | release (id : Nat)
  | shutdown
  | isShutdown
  | config
  /-- Wait until only so many workers live. -/
  | awaitWorkers (count : Nat)
deriving DecidableEq

/-- What a call gives back. -/
inductive Reply where
  | accepted
  | refused (e : PoolError)
  | flag (value : Bool)
  | count (n : Nat)
  | config (c : PoolConfig)
deriving DecidableEq

/-- What becomes of a job. -/
inductive JobEvent where
  | executes (id : Nat)
  | finishes (id : Nat)
  | abandoned (id : Nat)
deriving DecidableEq, Repr

/-- The pool and what became of its jobs, the latest first. -/
structure State where
  pool : Pool PoolJob
  log : List JobEvent := []

namespace State

/-- The state with one more note. -/
def note (s : State) (e : JobEvent) : State := { s with log := e :: s.log }

/-- A worker takes the oldest job. A job that does not wait for its release ends at once. -/
def pickUp? (s : State) (number : Nat) : Option State :=
  (s.pool.take? number).map fun taken =>
    let s := { s with pool := taken.pool }
    if taken.begins then
      let s := s.note (.executes taken.job.id)
      if taken.job.kind = .gated then s
      else { s with pool := (s.pool.complete? number).getD s.pool }
    else s.note (.abandoned taken.job.id)

/-- Idle workers take jobs, at most so many. -/
def work : Nat → State → State
  | 0, s => s
  | n + 1, s =>
    match s.pool.idleWorkers.findSome? s.pickUp? with
    | none => s
    | some s => s.work n

/-- The idle workers among those given leave while more workers live than wanted. -/
def dismiss (p : Pool PoolJob) (wanted : Nat) : List Nat → Pool PoolJob
  | [] => p
  | number :: numbers =>
    if wanted < p.counts.live then dismiss ((p.retire? number).getD p) wanted numbers else p

/-- The state when nothing can happen any more: waiting jobs have met idle workers, and where no job
will come any more the idle workers have left. -/
def settle (s : State) : State :=
  let s := s.work s.pool.waiting.length
  if s.pool.isOpen then s else { s with pool := dismiss s.pool 0 s.pool.idleWorkers }

/-- The jobs that wait are handed back, at most so many. -/
def handBack : Nat → State → State
  | 0, s => s
  | n + 1, s =>
    match s.pool.drain? with
    | none => s
    | some (job, pool) => { s with pool }.note (.abandoned job.id) |>.handBack n

/-- The effect of a call, and its reply. A shutdown succeeds when no worker stays busy. -/
def perform (s : State) : Call → State × Reply
  | .submit job =>
    match s.pool.send? job with
    | some pool => ({ s with pool := pool.grow }, .accepted)
    | none => ({ s with pool := s.pool.reject }.note (.abandoned job.id), .refused .shutDown)
  | .release id =>
    match s.pool.workers.find? fun w => w.job.any fun j => j.id = id && j.kind = .gated with
    | none => (s, .flag false)
    | some w =>
      ({ s with pool := (s.pool.complete? w.number).getD s.pool }.note (.finishes id), .flag true)
  | .shutdown =>
    if s.pool.isStopping then (s, .flag true)
    else
      let s := { s with pool := s.pool.raiseFlag.close }
      let s := s.handBack s.pool.waiting.length
      (s, .flag s.pool.activeJobs.isEmpty)
  | .isShutdown => (s, .flag s.pool.isStopping)
  | .config => (s, .config s.pool.config)
  | .awaitWorkers count =>
    let pool := dismiss s.pool count s.pool.idleWorkers
    ({ s with pool }, .count pool.counts.live)

end State

/-- What a call led to. -/
structure Entry where
  reply : Reply
  log : List JobEvent
  report : PoolReport

/-- The state after a call, and what the call led to. -/
def State.request (s : State) (c : Call) : State × Entry :=
  let (s, reply) := { s with log := [] }.perform c
  let s := s.settle
  (s, { reply, log := s.log.reverse, report := s.pool.report })

/-- What the calls led to, one after the other. -/
def State.requestAll (s : State) : List Call → List Entry
  | [] => []
  | c :: calls =>
    let (s, entry) := s.request c
    entry :: s.requestAll calls

end Timetable.Scenario.Jobs
