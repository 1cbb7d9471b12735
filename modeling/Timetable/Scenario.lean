import Timetable.Audit
import Timetable.Notifier
import Timetable.Scheduler.Query

/-!
# Scenarios

A scenario is a script of calls to a scheduler. Units of work and hooks are scripted too: an attempt
may make calls, wait until it is released, take its time and end well or badly, and a hook may make
calls when it hears of an event. Tasks go by labels. A new task takes its label over from an older
one, which is still shown under it.
-/
namespace Timetable.Scenario

/-- How an attempt ends; a crash may leave a message. -/
inductive Ending where
  | ok
  | error (message : String) (context : List String)
  | crash (message : Option String)
deriving DecidableEq, Repr

/-- What the attempt comes to: an error is told with its context, the outermost first. -/
def Ending.outcome : Ending → Outcome
  | ok => .success
  | error message context => .failure (String.intercalate ": " (context.reverse ++ [message]))
  | crash message => .failure ("panicked: " ++ message.getD "unknown panic")

/-- What an attempt does. -/
structure AttemptScript (C : Type) where
  steps : List C := []
  /-- Whether it then waits until it is released. -/
  hold : Bool := false
  /-- What it does after the release. -/
  after : List C := []
  /-- How long it takes. -/
  elapsed : Span := .zero
  ending : Ending := .ok

/-- A task with the scripts of its attempts; the last script serves all further attempts. -/
structure TaskScript (C : Type) where
  label : String
  name : String
  description : String := ""
  priority : Priority := .normal
  maxRetries : UInt32 := defaultRetries
  recurrence : Option Policy := none
  startingAt : Option Instant := none
  attempts : List (AttemptScript C) := []

/-- Calls that a hook makes when it hears of an event, the first so many times. -/
structure Rule (C : Type) where
  kind : EventKind
  label : Option String := none
  times : Nat := 1
  steps : List C

/-- A listener with the rules of its hooks and the kinds of events at which they crash. -/
structure ListenerScript (C : Type) where
  name : String
  hooks : Hooks
  crashes : List EventKind := []
  rules : List (Rule C) := []

/-- A call to the scheduler, its clock or its surroundings. -/
inductive Call where
  | scheduleNow (task : TaskScript Call)
  | scheduleAt (task : TaskScript Call) (due : Instant)
  | scheduleAfter (task : TaskScript Call) (amount : Nat) (unit : TimeUnit)
  | scheduleRecurring (task : TaskScript Call)
  | cancel (label : String)
  | evict (label : String)
  | tick
  | advance (d : Span)
  | setClock (t : Instant)
  | start
  | stop
  | isRunning
  | waitIdle (d : Span)
  | release (label : String)
  | get (label : String)
  | listAll
  | listStatus (status : Status)
  | listPending
  | listRunning
  | nextDue
  | stats
  | poolStats
  | config
  | addListener (l : ListenerScript Call)
  | removeListener (name : String)
  | setRecurrence (label : String) (enabled : Bool)
  | audit (label : Option String)

/-- The word for a call. -/
def Call.name : Call → String
  | scheduleNow .. => "schedule_now"
  | scheduleAt .. => "schedule_at"
  | scheduleAfter .. => "schedule_after"
  | scheduleRecurring .. => "schedule_recurring"
  | cancel .. => "cancel"
  | evict .. => "evict"
  | tick => "tick"
  | advance .. => "advance"
  | setClock .. => "set_clock"
  | start => "start"
  | stop => "stop"
  | isRunning => "is_running"
  | waitIdle .. => "wait_idle"
  | release .. => "release"
  | get .. => "get"
  | listAll => "list_all"
  | listStatus .. => "list_status"
  | listPending => "list_pending"
  | listRunning => "list_running"
  | nextDue => "next_due"
  | stats => "stats"
  | poolStats => "pool_stats"
  | config => "config"
  | addListener .. => "add_listener"
  | removeListener .. => "remove_listener"
  | setRecurrence .. => "recurrence"
  | audit .. => "audit"

/-- Whether the call is a tick. -/
def Call.isTick : Call → Bool
  | tick => true
  | _ => false

/-- What a call gives back. -/
inductive Reply where
  | nothing
  | flag (value : Bool)
  | count (n : Nat)
  | task (id : TaskId)
  | refused (e : SchedulerError)
  | snapshot (s : Snapshot)
  | snapshots (l : List Snapshot)
  | labels (l : List TaskId)
  | time (t : Instant)
  /-- The number of worker threads is left out while it varies. -/
  | stats (s : Statistics) (threads : Option Nat)
  | pool (r : PoolReport)
  | config (c : Config)
  | audit (events : List AuditEvent)

/-- What is noted while a scenario is played. -/
inductive LogEntry where
  | attempt (id : TaskId) (number : Nat)
  | heard (listener : String) (n : Notice)
  /-- A call from inside a hook or an attempt, and its reply. -/
  | replied (place : String) (call : String) (reply : Reply)

/-! ## Labels -/

/-- The tasks that labels stand for. A label that no task has stands for an unknown identifier. -/
structure Labels where
  /-- Every label given, the latest first. -/
  given : List (String × TaskId) := []
  next : Nat := 0

namespace Labels

/-- A new identifier under the label. -/
def bind (l : Labels) (label : String) : TaskId × Labels :=
  (.ofNat l.next, { given := (label, .ofNat l.next) :: l.given, next := l.next + 1 })

/-- The identifier that the label stands for. -/
def resolve (l : Labels) (label : String) : TaskId × Labels :=
  match l.given.find? fun g => g.1 = label with
  | some g => (g.2, l)
  | none => l.bind label

/-- The label that the identifier was given. -/
def nameOf (l : Labels) (id : TaskId) : String :=
  ((l.given.find? fun g => g.2 = id).map Prod.fst).getD ""

end Labels

end Timetable.Scenario
