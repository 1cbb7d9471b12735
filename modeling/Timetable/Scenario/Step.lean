import Timetable.Scenario.Session
import Timetable.Scheduler.Procedure

/-!
# Steps of a session

What a thread does with the next thing on its agenda. A call changes the scheduler in one step and
then has the new notices delivered before its reply is given.
-/
namespace Timetable.Scenario

namespace Session

/-- The agenda of a call that changed the scheduler. -/
def delivered (origin : Origin) (c : Call) (r : Reply) : List Item :=
  [.errand .deliver, .reply origin c r]

/-- What comes of a call at work on the scheduler: a refusal, or what follows the answer. -/
def serve {α : Type} (s : Session) (origin : Origin) (c : Call) (p : Procedure Work α)
    (follow : α → Session → Session × List Item) : Session × List Item :=
  match p.outcome s.scheduler with
  | (.error e, scheduler) => ({ s with scheduler }, [.reply origin c (.refused e)])
  | (.ok a, scheduler) => follow a { s with scheduler }

/-- A new task offered to the scheduler. -/
def accept (s : Session) (origin : Origin) (c : Call) (t : TaskScript Call) (o : Offer) :
    Session × List Item :=
  let (task, s) := s.build t
  s.serve origin c (Procedure.schedule o task s.clock s.clock) fun id s =>
    (s, delivered origin c (.task id))

/-- What a stop has to do once the scheduler counts as stopped. -/
def shutDown (s : Session) (origin : Origin) (c : Call) : List Item :=
  (if s.scheduler.config.autoTick then [.joinClock] else []) ++
    [.raiseFlag, .closePool, .handBack, .awaitExit origin c]

/-- The statistics, and the number of worker threads where it is certain. -/
def statistics (s : Session) : Reply :=
  let st := s.scheduler.statistics s.runningPool s.clock
  let varies := s.runningPool.any Pool.sizeVaries
  .stats st (if varies then none else some st.workerThreads)

/-- The effect of a call, and what the thread has to do before it goes on. -/
def perform (s : Session) (origin : Origin) (c : Call) : Session × List Item :=
  let answer (r : Reply) : Session × List Item := (s, [.reply origin c r])
  match c with
  | .scheduleNow t => s.accept origin c t .dueNow
  | .scheduleAt t due => s.accept origin c t (.dueAt due)
  | .scheduleAfter t amount unit => s.accept origin c t (.dueAfter amount unit)
  | .scheduleRecurring t => s.accept origin c t .recurring
  | .cancel label =>
    let (id, labels) := s.labels.resolve label
    let s := { s with labels }
    s.serve origin c (Procedure.cancel id) fun found s =>
      (s, if found then delivered origin c (.flag true) else [.reply origin c (.flag false)])
  | .evict label =>
    let (id, labels) := s.labels.resolve label
    let s := { s with labels }
    s.serve origin c (Procedure.evict id) fun last s => (s, [.reply origin c (.snapshot last)])
  | .tick =>
    let atWork := s.scheduler.isRunning && s.scheduler.dispatching
    s.serve origin c (Procedure.tick s.clock) fun jobs s =>
      (s, (if atWork then [.errand .deliver] else []) ++ jobs.map .submit ++
        [.reply origin c (.count jobs.length)])
  | .advance d =>
    let clock := s.clock.add d
    ({ s with clock }, [.reply origin c (.time clock)])
  | .setClock clock => ({ s with clock }, [.reply origin c (.time clock)])
  | .start =>
    s.serve origin c (Procedure.start s.clock) fun pool s =>
      ({ s with pool := pool <|> s.pool }, [.reply origin c .nothing])
  | .stop =>
    -- the answer of a scheduler that ran waits for the workers
    s.serve origin c (Procedure.stop s.clock false) fun atRest s =>
      (s, if atRest then [.reply origin c (.flag true)] else s.shutDown origin c)
  | .isRunning => answer (.flag s.scheduler.isRunning)
  | .waitIdle _ => (s, [.awaitIdle origin c])
  | .release label =>
    match s.held? label with
    | none => answer (.flag false)
    | some (t, items) => (s.setAgenda t items, [.reply origin c (.flag true)])
  | .get label =>
    let (id, labels) := s.labels.resolve label
    let r := match s.scheduler.snapshot? id with
      | none => Reply.nothing
      | some t => .snapshot t
    ({ s with labels }, [.reply origin c r])
  | .listAll => answer (.snapshots s.scheduler.listAll)
  | .listStatus status => answer (.labels ((s.scheduler.listByStatus status).map Snapshot.id))
  | .listPending => answer (.labels (s.scheduler.listPending.map Snapshot.id))
  | .listRunning => answer (.labels (s.scheduler.listRunning.map Snapshot.id))
  | .nextDue => answer (match s.scheduler.nextDue? with
      | none => .nothing
      | some t => .time t)
  | .stats => answer s.statistics
  | .poolStats => answer (match s.runningPool with
      | none => .nothing
      | some p => .pool p.report)
  | .config => answer (.config s.scheduler.config)
  | .addListener l => (s.register l.name (listenerOf l), [.reply origin c .nothing])
  | .removeListener name =>
    match s.listeners.find? fun l => l.1 = name with
    | none => answer .nothing
    | some (_, id) =>
      let (found, notifier) := s.notifier.remove id
      ({ s with notifier }, [.reply origin c (.flag found)])
  | .setRecurrence label enabled =>
    let (id, labels) := s.labels.resolve label
    let s := { s with labels }
    s.serve origin c (Procedure.setRecurrenceEnabled id enabled) fun found s =>
      (s, [.reply origin c (.flag found)])
  | .audit none => answer (.audit s.trail.events)
  | .audit (some label) =>
    let (id, labels) := s.labels.resolve label
    ({ s with labels }, [.reply origin c (.audit (s.trail.eventsFor id))])

/-- A hook's work on a notice, up to the place where its crash would be caught. -/
def react (s : Session) (id : ListenerId) (n : Notice) : Reaction → Session × List Item
  | .audit =>
    let eventId := (TaskId.ofNat s.labels.next).text
    ({ s with trail := s.trail.record (.ofNotice eventId n s.clock) }, [.guard])
  | .script l =>
    let label := s.labels.nameOf n.task.id
    let rules := l.rules.zipIdx.filter fun (r, _) =>
      r.kind = n.event.kind && r.label.all fun wanted => wanted = label
    (s.note (.heard l.name n),
      rules.map (fun (r, i) => .rule id l.name i r) ++
        (if l.crashes.contains n.event.kind then [.crash] else []) ++ [.guard])

/-- What is left of an agenda after a crash: it goes on behind the place where the
crash is caught. -/
def unwind : List Item → List Item
  | [] => []
  | .guard :: rest => rest
  | _ :: rest => unwind rest

/-- An attempt of the job up to its end. -/
def attempt (s : Session) (job : Job Work) (startedAt : Instant) : Session × List Item :=
  let script := job.work.script
  let work := { job.work with attempts := job.work.attempts + 1 }
  let call := Item.call (.inside work.label)
  (s.note (.attempt job.id work.attempts),
    script.steps.map call ++
      (if script.hold then .hold work.label :: script.after.map call else []) ++
      [.finish { job with work }
        { startedAt, duration := script.elapsed, outcome := script.ending.outcome }])

/-- The session with its pool changed. -/
def changePool (s : Session) (f : Pool (Job Work) → Pool (Job Work)) : Session :=
  { s with pool := s.pool.map f }

/-- The session after one thing on a thread's agenda, and the thread's agenda from there on; none
while the thread is blocked. -/
def run? (s : Session) (me : Thread) (item : Item) (rest : List Item) :
    Option (Session × List Item) :=
  match item with
  | .call origin c =>
    let (s, items) := s.perform origin c
    some (s, items ++ rest)
  | .reply .user _ r => some ({ s with answer := r, inTick := false }, rest)
  | .reply .clock _ _ =>
    -- with the clock goes the last hold on a pool that nobody has shut down
    some (s, (if s.orphaned then [.raiseFlag, .closePool, .handBack] else []) ++ rest)
  | .reply (.inside place) c r => some (s.note (.replied place c.name r), rest)
  | .errand (.announce n) =>
    let hooks := (s.notifier.audience n.event.kind).map fun (id, l) => Item.hook id l.reaction n
    some (s, hooks ++ rest)
  | .errand e =>
    (s.scheduler.outbox.run? me e).map fun (outbox, errands) =>
      ({ s with scheduler := { s.scheduler with outbox } }, errands.map .errand ++ rest)
  | .hook id reaction n =>
    let (s, items) := s.react id n reaction
    some (s, items ++ rest)
  | .rule id listener index r =>
    if s.fired (id, index) < r.times then
      some (s.fire (id, index), r.steps.map (.call (.inside listener)) ++ rest)
    else some (s, rest)
  | .crash => some (s, unwind rest)
  | .guard => some (s, rest)
  | .submit job =>
    match s.pool.bind fun p => p.send? job with
    | some pool => some ({ s with pool := some pool }, .grow :: rest)
    | none => some ((s.changePool Pool.reject).abandon job, rest)
  | .grow => some (s.changePool Pool.grow, rest)
  | .attempt job startedAt =>
    if s.inTick then none
    else
      let (s, items) := s.attempt job startedAt
      some (s, items ++ rest)
  | .hold _ => none
  | .finish job a =>
    some ({ s with scheduler := s.scheduler.finish job a s.clock },
      .errand .deliver :: .complete :: rest)
  | .complete =>
    match me with
    | .worker number => some (s.changePool fun p => (p.complete? number).getD p, rest)
    | _ => some (s, rest)
  | .joinClock =>
    -- no thread can wait for its own end, and the attempt to do so is a crash
    if me = .clock then some ({ s with orphaned := true }, unwind rest)
    else if (s.agenda .clock).isEmpty then some (s, rest)
    else none
  | .raiseFlag => some (s.changePool Pool.raiseFlag, rest)
  | .closePool => some (s.changePool Pool.close, rest)
  | .handBack =>
    match s.pool.bind Pool.drain? with
    | none => some (s, rest)
    | some (job, pool) => some ({ s with pool := some pool }.abandon job, .handBack :: rest)
  | .awaitExit origin c =>
    if s.pool.all fun p => p.workers.isEmpty then some (s, .reply origin c (.flag true) :: rest)
    else none
  | .awaitIdle origin c =>
    (s.scheduler.awaitSettled? false).map fun r => (s, .reply origin c (.flag r) :: rest)

/-- One step of a thread; none if it has nothing to do or is blocked. -/
def step? (s : Session) (me : Thread) : Option Session :=
  match s.agenda me with
  | [] => none
  | item :: rest => (s.run? me item rest).map fun (s, items) => s.setAgenda me items

/-- An idle worker takes a job, which it hands back if the pool is shutting down. -/
def pickUp? (s : Session) (number : Nat) : Option Session :=
  (s.pool.bind fun p => p.take? number).map fun taken =>
    let s := { s with pool := some taken.pool }
    if taken.begins then s.setAgenda (.worker number) [.attempt taken.job s.clock]
      else s.abandon taken.job

/-- An idle worker leaves the pool. -/
def leave? (s : Session) (number : Nat) : Option Session :=
  (s.pool.bind fun p => p.retire? number).map fun pool => { s with pool := some pool }

/-- A thread that waits for a limited time gives up. -/
def giveUp? (s : Session) (me : Thread) : Option Session :=
  match s.agenda me with
  | .awaitExit origin c :: rest => some (s.setAgenda me (.reply origin c (.flag false) :: rest))
  | .awaitIdle origin c :: rest => (s.scheduler.awaitSettled? true).map fun r =>
    s.setAgenda me (.reply origin c (.flag r) :: rest)
  | _ => none

end Session

end Timetable.Scenario
