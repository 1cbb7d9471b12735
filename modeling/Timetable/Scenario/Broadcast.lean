import Timetable.Notifier

/-!
# Broadcasting to scripted listeners

Calls to a notifier on one thread. A hook may itself add, remove and notify; what it calls happens
at once, before the notice reaches the next listener. The agenda is the stack of things still to do,
and a crash in a hook is caught where the hook ends.
-/
namespace Timetable.Scenario.Broadcast

/-- A listener that makes calls when it hears of an event. -/
structure Script (C : Type) where
  name : String
  hooks : Hooks
  crashes : List EventKind := []
  steps : List (EventKind × List C) := []

/-- A call to the notifier. -/
inductive Call where
  | add (l : Script Call)
  | remove (name : String)
  | notify (task : String) (event : Event)

/-- What a call gives back. -/
inductive Reply where
  | nothing
  | flag (value : Bool)
  | hooks (h : Hooks)
deriving DecidableEq

/-- A hook that was called. -/
structure Heard where
  listener : String
  task : String
  event : Event
deriving DecidableEq

/-- A thing still to do. -/
inductive Item where
  | call (c : Call)
  | hook (l : Script Call) (task : String) (event : Event)
  | crash
  /-- The end of a hook. -/
  | guard

/-- The notifier and what its listeners have heard. -/
structure State where
  notifier : Notifier (Script Call) := .empty
  /-- Listeners by name, the latest first. -/
  names : List (String × ListenerId) := []
  /-- The hooks called, the latest first. -/
  log : List Heard := []

/-- What is left to do after a crash. -/
def unwind : List Item → List Item
  | [] => []
  | .guard :: rest => rest
  | _ :: rest => unwind rest

namespace State

/-- The effect of a call, its reply, and the hooks that it sets off. -/
def perform (s : State) : Call → State × Reply × List Item
  | .add l =>
    let (id, notifier) := s.notifier.add ⟨l.hooks, l⟩
    ({ s with notifier, names := (l.name, id) :: s.names }, .hooks l.hooks, [])
  | .remove name =>
    match s.names.find? fun n => n.1 = name with
    | none => (s, .nothing, [])
    | some (_, id) =>
      let (found, notifier) := s.notifier.remove id
      ({ s with notifier }, .flag found, [])
  | .notify task event =>
    (s, .nothing, (s.notifier.audience event.kind).map fun (_, l) => .hook l.reaction task event)

/-- What a hook does. -/
def react (l : Script Call) (event : Event) : List Item :=
  (l.steps.flatMap fun (kind, calls) => if kind = event.kind then calls.map .call else []) ++
    (if l.crashes.contains event.kind then [.crash] else []) ++ [.guard]

/-- One step. -/
def run (s : State) (rest : List Item) : Item → State × List Item
  | .call c =>
    let (s, _, items) := s.perform c
    (s, items ++ rest)
  | .hook l task event =>
    ({ s with log := ⟨l.name, task, event⟩ :: s.log }, react l event ++ rest)
  | .crash => (s, unwind rest)
  | .guard => (s, rest)

/-- Steps until nothing is left to do, or the limit is reached. -/
def runAll : Nat → State → List Item → State
  | _, s, [] => s
  | 0, s, _ => s
  | limit + 1, s, item :: rest =>
    let (s, items) := s.run rest item
    runAll limit s items

end State

/-- The steps that one call may lead to. -/
def stepLimit : Nat := 1000000

/-- What a call of the user led to. -/
structure Entry where
  reply : Reply
  log : List Heard
  size : Nat
  isEmpty : Bool

/-- The state after a call of the user, and what the call led to. -/
def State.request (s : State) (c : Call) : State × Entry :=
  let (s, reply, items) := { s with log := [] }.perform c
  let s := s.runAll stepLimit items
  (s, { reply, log := s.log.reverse, size := s.notifier.size, isEmpty := s.notifier.isEmpty })

/-- What the calls of the user led to, one after the other. -/
def State.requestAll (s : State) : List Call → List Entry
  | [] => []
  | c :: calls =>
    let (s, entry) := s.request c
    entry :: s.requestAll calls

end Timetable.Scenario.Broadcast
