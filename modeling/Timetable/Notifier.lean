import Timetable.Task.Event

/-!
# Listeners and the notifier

A listener has a hook for some kinds of events. The notifier keeps listeners in the order in which
they were added; a notice goes to those that were registered when it was announced and have a hook
for it.
-/
namespace Timetable

/-- The kinds of events that a listener has a hook for. -/
structure Hooks where
  scheduled : Bool := false
  started : Bool := false
  completed : Bool := false
  failed : Bool := false
  cancelled : Bool := false
deriving DecidableEq, Repr

namespace Hooks

/-- A hook for every kind. -/
def all : Hooks := ⟨true, true, true, true, true⟩

/-- A hook for each of these kinds. -/
def ofList (kinds : List EventKind) : Hooks where
  scheduled := kinds.contains .scheduled
  started := kinds.contains .started
  completed := kinds.contains .completed
  failed := kinds.contains .failed
  cancelled := kinds.contains .cancelled

/-- Whether there is a hook for the kind. -/
def has (h : Hooks) : EventKind → Bool
  | .scheduled => h.scheduled
  | .started => h.started
  | .completed => h.completed
  | .failed => h.failed
  | .cancelled => h.cancelled

@[simp] theorem has_all (k : EventKind) : all.has k = true := by cases k <;> rfl

@[simp] theorem has_ofList (kinds : List EventKind) (k : EventKind) :
    (ofList kinds).has k = kinds.contains k := by cases k <;> rfl

end Hooks

/-- The number given to a listener when it is added. -/
structure ListenerId where
  number : Nat
deriving DecidableEq, Repr

/-- A listener whose hooks react as an `R` says. -/
structure Listener (R : Type) where
  hooks : Hooks
  reaction : R

/-- The registered listeners, in the order in which they were added. -/
structure Notifier (R : Type) where
  entries : List (ListenerId × Listener R) := []
  added : Nat := 0

namespace Notifier

variable {R : Type}

/-- A notifier without listeners. -/
def empty : Notifier R := {}

/-- The notifier with one more listener, called after all others, and the listener's number. -/
def add (n : Notifier R) (l : Listener R) : ListenerId × Notifier R :=
  (⟨n.added⟩, { entries := n.entries ++ [(⟨n.added⟩, l)], added := n.added + 1 })

/-- The notifier without that listener, and whether it was registered. -/
def remove (n : Notifier R) (id : ListenerId) : Bool × Notifier R :=
  (n.entries.any fun e => e.1 = id, { n with entries := n.entries.filter fun e => e.1 ≠ id })

/-- The listeners to call for an event of that kind, in order. -/
def audience (n : Notifier R) (kind : EventKind) : List (ListenerId × Listener R) :=
  n.entries.filter fun e => e.2.hooks.has kind

/-- The number of listeners. -/
def size (n : Notifier R) : Nat := n.entries.length

/-- Whether there are no listeners. -/
def isEmpty (n : Notifier R) : Bool := n.entries.isEmpty

end Notifier

/-- The listener's hooks on one line. -/
def Hooks.describe (h : Hooks) : String :=
  let parts := EventKind.all.map fun k => k.name ++ ": " ++ toString (h.has k)
  "TaskListener \x7b " ++ String.intercalate ", " parts ++ " \x7d"

end Timetable
