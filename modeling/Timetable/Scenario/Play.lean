import Timetable.Scenario.Step

/-!
# Playing a scenario

Of the many orders in which threads could take their steps, playing a scenario uses one. The user's
thread goes on as long as it can, then the clock and the workers in turn, then idle workers take
jobs. A clock of its own ticks when no other thread can go on and a task is due, and time limits run
out only when nothing else can happen.
-/
namespace Timetable.Scenario

namespace Session

/-- The threads that may have something to do, the most urgent first. -/
def threads (s : Session) : List Thread :=
  .caller 0 :: .clock ::
    (s.pool.elim [] Pool.workers).map fun w => .worker w.number

/-- The idle workers. -/
def idleWorkers (s : Session) : List Nat := s.pool.elim [] Pool.idleWorkers

/-- Workers leave only when no job will come any more. -/
def departure? (s : Session) : Option Session :=
  if s.pool.all Pool.isOpen then none else s.idleWorkers.findSome? s.leave?

/-- A tick of the scheduler's own clock, when a task is due. -/
def ownTick? (s : Session) : Option Session :=
  if s.scheduler.config.autoTick && s.scheduler.isRunning && (s.agenda .clock).isEmpty &&
      s.scheduler.nextDue?.any fun t => t ≤ s.clock then
    some (s.setAgenda .clock [.call .clock .tick])
  else none

/-- The next step in the order of play. -/
def advance? (s : Session) : Option Session :=
  s.threads.findSome? s.step? <|> s.idleWorkers.findSome? s.pickUp? <|> s.departure? <|>
    s.ownTick? <|> s.threads.findSome? s.giveUp?

/-- Whether every thread has nothing to do or holds an attempt. -/
def isAtRest (s : Session) : Bool :=
  s.agendas.all fun (_, items) =>
    match items with
    | [] | .hold _ :: _ => true
    | _ => false

/-- Steps until nothing can happen, and whether that point was reached within the limit. -/
def settle : Nat → Session → Session × Bool
  | 0, s => (s, s.advance?.isNone)
  | limit + 1, s =>
    match s.advance? with
    | none => (s, true)
    | some s => s.settle limit

end Session

/-- The steps that one call of the user may lead to. -/
def stepLimit : Nat := 1000000

/-- What a call of the user led to. -/
structure Entry where
  reply : Reply
  log : List LogEntry
  /-- All tasks afterwards, in the order of acceptance. -/
  tasks : List Snapshot
  /-- The tasks that wait afterwards, in dispatch order. -/
  pending : List Snapshot
  /-- Whether the threads have come to rest. -/
  settled : Bool

/-- The session after a call of the user, and what the call led to. -/
def Session.request (s : Session) (c : Call) : Session × Entry :=
  let start := { s with log := [], answer := .nothing, inTick := c.isTick }
  let (s, settled) := (start.setAgenda (.caller 0) [.call .user c]).settle stepLimit
  (s, {
    reply := s.answer
    log := s.log.reverse
    tasks := s.scheduler.listAll
    pending := s.scheduler.listPending
    settled := settled && s.isAtRest })

/-- What a scenario starts from. -/
structure Setup where
  clock : Instant
  config : Config
  listeners : List (ListenerScript Call) := []
  /-- The capacity of the audit trail, if there is one. -/
  audit : Option Nat := none

/-- A session before its first call. -/
def Setup.session (setup : Setup) : Except SchedulerError Session :=
  match Scheduler.create setup.config with
  | .error e => .error e
  | .ok scheduler =>
    let s : Session := { scheduler, clock := setup.clock }
    let s := setup.listeners.foldl (fun s l => s.register l.name (Session.listenerOf l)) s
    .ok (match setup.audit with
      | none => s
      | some capacity =>
        { s with
          trail := { capacity }
          notifier := (s.notifier.add ⟨.all, .audit⟩).2 })

/-- The session after the calls of the user, one after the other, and what they led to. -/
def Session.requestAll (s : Session) : List Call → Session × List Entry
  | [] => (s, [])
  | c :: calls =>
    let (s, entry) := s.request c
    let (s, entries) := s.requestAll calls
    (s, entry :: entries)

end Timetable.Scenario
