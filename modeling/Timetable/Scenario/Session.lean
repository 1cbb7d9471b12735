import Timetable.Scenario

/-!
# Sessions

A session is a scheduler with its pool, its listeners and its clock while a scenario is played.
Every thread has an agenda: the things it will do next, the next one first. Taking one thing off the
agenda of one thread is one step; it may put more things in its place. A thread is blocked while the
next thing on its agenda has to wait for others.
-/
namespace Timetable.Scenario

/-- A unit of work: the scripts of its attempts, and how many attempts there have been. -/
structure Work where
  label : String
  scripts : List (AttemptScript Call)
  attempts : Nat := 0

/-- The script of the next attempt. -/
def Work.script (w : Work) : AttemptScript Call :=
  (w.scripts[min w.attempts (w.scripts.length - 1)]?).getD {}

/-- How a listener reacts. -/
inductive Reaction where
  | script (l : ListenerScript Call)
  | audit

/-- Who makes a call: the user, the clock, or something inside the scheduler. -/
inductive Origin where
  | user
  | clock
  | inside (place : String)

/-- A thing on a thread's agenda. -/
inductive Item where
  | call (origin : Origin) (c : Call)
  | reply (origin : Origin) (c : Call) (r : Reply)
  | errand (e : Errand)
  | hook (id : ListenerId) (reaction : Reaction) (n : Notice)
  | rule (id : ListenerId) (listener : String) (index : Nat) (r : Rule Call)
  | crash
  /-- The end of a hook, where a crash is caught. -/
  | guard
  | submit (job : Job Work)
  | grow
  | attempt (job : Job Work) (startedAt : Instant)
  | hold (label : String)
  | finish (job : Job Work) (a : Attempt)
  | complete
  /-- The wait of a stop until the thread of the clock has ended. -/
  | joinClock
  | raiseFlag
  | closePool
  | handBack
  | awaitExit (origin : Origin) (c : Call)
  | awaitIdle (origin : Origin) (c : Call)

/-- Everything that changes while a scenario is played. -/
structure Session where
  scheduler : Scheduler Work
  pool : Option (Pool (Job Work)) := none
  notifier : Notifier Reaction := .empty
  trail : AuditTrail := { capacity := 0 }
  clock : Instant
  agendas : List (Thread × List Item) := []
  labels : Labels := {}
  /-- Listeners by name, the latest first. -/
  listeners : List (String × ListenerId) := []
  /-- How often each rule of each listener has fired. -/
  firings : List ((ListenerId × Nat) × Nat) := []
  /-- The notes made, the latest first. -/
  log : List LogEntry := []
  /-- The reply to the user's call. -/
  answer : Reply := .nothing
  /-- Whether the user's call is a tick without a reply yet; meanwhile no attempt begins. -/
  inTick : Bool := false
  /-- Whether a stop on the thread of the clock has broken off before it shut the pool down. -/
  orphaned : Bool := false

namespace Session

/-- What the thread will do next. -/
def agenda (s : Session) (t : Thread) : List Item :=
  ((s.agendas.find? fun a => a.1 = t).map Prod.snd).getD []

/-- The session with another agenda for the thread. -/
def setAgenda (s : Session) (t : Thread) (items : List Item) : Session :=
  { s with agendas := (t, items) :: s.agendas.filter fun a => a.1 ≠ t }

/-- The session with one more note. -/
def note (s : Session) (e : LogEntry) : Session := { s with log := e :: s.log }

/-- The pool, while the scheduler runs. -/
def runningPool (s : Session) : Option (Pool (Job Work)) :=
  if s.scheduler.isRunning then s.pool else none

/-- The session with a listener registered under a name. -/
def register (s : Session) (name : String) (l : Listener Reaction) : Session :=
  let (id, notifier) := s.notifier.add l
  { s with notifier, listeners := (name, id) :: s.listeners }

/-- A scripted listener as the notifier knows it. -/
def listenerOf (l : ListenerScript Call) : Listener Reaction := ⟨l.hooks, .script l⟩

/-- The session with the scheduler changed by giving back a job. -/
def abandon (s : Session) (job : Job Work) : Session :=
  { s with scheduler := s.scheduler.abandon job s.clock }

/-- The task of a script, under a new identifier. -/
def build (s : Session) (t : TaskScript Call) : Task Work × Session :=
  let (id, labels) := s.labels.bind t.label
  ({ id
     name := t.name
     description := t.description
     priority := t.priority
     createdAt := s.clock
     maxRetries := t.maxRetries
     recurrence := t.recurrence
     nextExecution := t.startingAt
     work := some { label := t.label, scripts := t.attempts } }, { s with labels })

/-- How often a rule has fired. -/
def fired (s : Session) (key : ListenerId × Nat) : Nat :=
  ((s.firings.find? fun f => f.1 = key).map Prod.snd).getD 0

/-- The session after the rule has fired once more. -/
def fire (s : Session) (key : ListenerId × Nat) : Session :=
  { s with firings := (key, s.fired key + 1) :: s.firings.filter fun f => f.1 ≠ key }

/-- The first thread that holds an attempt of the label, and its agenda after the release. -/
def held? (s : Session) (label : String) : Option (Thread × List Item) :=
  s.agendas.findSome? fun (t, items) =>
    match items with
    | .hold l :: rest => if l = label then some (t, rest) else none
    | _ => none

end Session

end Timetable.Scenario
