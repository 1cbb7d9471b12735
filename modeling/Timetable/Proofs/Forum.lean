import Mathlib.Logic.Relation
import Timetable.Notifier

/-!
# Calls to a notifier

Whoever calls a notifier does so when it likes and as often as it likes. A notice calls hooks one
after the other, and a hook may do all that a caller may do: it adds and removes listeners, itself
included, it notifies, and its own notice is over before it goes on. It may also panic, which is
caught where the hook ends. Everything that happens is recorded, with the answers and with the hooks
that are called.
-/
namespace Timetable

/-- A call of a hook: whose hook it is, the kind of events it is for, and what it is told. -/
structure HookCall (T : Type) where
  listener : ListenerId
  hook : EventKind
  task : T
  error : Option String

/-- The call of a listener's hook for an event; with a failed attempt goes its error. -/
def Event.callTo {T : Type} (e : Event) (task : T) (id : ListenerId) : HookCall T :=
  ⟨id, e.kind, task, e.error?⟩

/-- A thing still to do. Notices go by numbers. -/
inductive Duty (R T : Type) where
  /-- Something of the caller's own. -/
  | work
  | hook (number : Nat) (event : Event) (task : T) (id : ListenerId) (l : Listener R)
  /-- The end of a hook. -/
  | guard
  /-- The end of a notice. -/
  | done (number : Nat)

/-- Something that has happened. -/
inductive Happening (R T : Type) where
  | added (id : ListenerId) (l : Listener R)
  | removed (id : ListenerId) (found : Bool)
  | announced (number : Nat) (event : Event) (task : T)
  | called (number : Nat) (l : Listener R) (call : HookCall T)
  | returned (number : Nat)

/-- A notifier and its callers. -/
structure Forum (R T : Type) where
  notifier : Notifier R := .empty
  /-- What is still to do, the next thing first. -/
  agenda : List (Duty R T) := []
  history : List (Happening R T) := []
  /-- How many notices there have been. -/
  notices : Nat := 0

namespace Forum

variable {R T : Type}

/-- What is left to do after a panic. -/
def unwind : List (Duty R T) → List (Duty R T)
  | [] => []
  | .guard :: rest => rest
  | _ :: rest => unwind rest

/-- One step. -/
inductive Step (f : Forum R T) : Forum R T → Prop
  | takeUp (h : f.agenda = []) : Step f { f with agenda := [.work] }
  | work {rest : List (Duty R T)} (h : f.agenda = .work :: rest) (more : Nat) :
    Step f { f with agenda := List.replicate more .work ++ rest }
  | add {rest : List (Duty R T)} (h : f.agenda = .work :: rest) (l : Listener R) :
    Step f { f with
      notifier := (f.notifier.add l).2
      agenda := rest
      history := f.history ++ [.added (f.notifier.add l).1 l] }
  | remove {rest : List (Duty R T)} (h : f.agenda = .work :: rest) (id : ListenerId) :
    Step f { f with
      notifier := (f.notifier.remove id).2
      agenda := rest
      history := f.history ++ [.removed id (f.notifier.remove id).1] }
  | notify {rest : List (Duty R T)} (h : f.agenda = .work :: rest) (event : Event) (task : T) :
    Step f { f with
      agenda := (f.notifier.audience event.kind).map
        (fun e => .hook f.notices event task e.1 e.2) ++ .done f.notices :: rest
      history := f.history ++ [.announced f.notices event task]
      notices := f.notices + 1 }
  | panic {rest : List (Duty R T)} (h : f.agenda = .work :: rest) :
    Step f { f with agenda := unwind rest }
  | hook {number : Nat} {event : Event} {task : T} {id : ListenerId} {l : Listener R}
    {rest : List (Duty R T)} (h : f.agenda = .hook number event task id l :: rest) (more : Nat) :
    Step f { f with
      agenda := List.replicate more .work ++ .guard :: rest
      history := f.history ++ [.called number l (event.callTo task id)] }
  | caught {rest : List (Duty R T)} (h : f.agenda = .guard :: rest) :
    Step f { f with agenda := rest }
  | done {number : Nat} {rest : List (Duty R T)} (h : f.agenda = .done number :: rest) :
    Step f { f with agenda := rest, history := f.history ++ [.returned number] }

/-- A run of any length. -/
abbrev Run : Forum R T → Forum R T → Prop := Relation.ReflTransGen Step

/-- What a notifier without listeners and its callers can get into. -/
def Reachable (f : Forum R T) : Prop := Run {} f

end Forum

/-! ## What a history tells -/

namespace Happening

variable {R T : Type}

/-- The listener that was added. -/
def added? : Happening R T → Option (ListenerId × Listener R)
  | added id l => some (id, l)
  | _ => none

/-- Whether the listener of that number was found and removed. -/
def removes (id : ListenerId) : Happening R T → Bool
  | removed other found => found && other = id
  | _ => false

/-- Whether some listener was found and removed. -/
def isRemoval : Happening R T → Bool
  | removed _ found => found
  | _ => false

/-- The notice that it belongs to. -/
def number? : Happening R T → Option Nat
  | announced number _ _ | called number _ _ | returned number => some number
  | added _ _ | removed _ _ => none

/-- The hook that was called for that notice. -/
def callOf? (number : Nat) : Happening R T → Option (HookCall T)
  | called other _ call => if other = number then some call else none
  | _ => none

end Happening

namespace Duty

variable {R T : Type}

/-- The notice that it belongs to. -/
def number? : Duty R T → Option Nat
  | hook number .. | done number => some number
  | work | guard => none

/-- The hook that is still to be called for that notice. -/
def callOf? (number : Nat) : Duty R T → Option (HookCall T)
  | hook other event task id _ => if other = number then some (event.callTo task id) else none
  | _ => none

end Duty

section Histories

variable {R T : Type}

/-- The listeners added and not removed since, in the order in which they were added. -/
def registered (history : List (Happening R T)) : List (ListenerId × Listener R) :=
  (history.filterMap Happening.added?).filter fun e => !history.any (Happening.removes e.1)

/-- The hooks called for a notice. -/
def callsOf (number : Nat) (history : List (Happening R T)) : List (HookCall T) :=
  history.filterMap (Happening.callOf? number)

/-- The calls that a notice owes to the listeners registered then: one to each that has a
hook for it. -/
def owed (history : List (Happening R T)) (event : Event) (task : T) : List (HookCall T) :=
  ((registered history).filter fun e => e.2.hooks.has event.kind).map fun e => event.callTo task e.1

/-- The hooks on an agenda that are still to be called for a notice. -/
def callsDue (number : Nat) (agenda : List (Duty R T)) : List (HookCall T) :=
  agenda.filterMap (Duty.callOf? number)

/-- The notices on an agenda. -/
def numbers (agenda : List (Duty R T)) : List Nat := agenda.filterMap Duty.number?

@[simp] theorem callsOf_append (number : Nat) (h h' : List (Happening R T)) :
    callsOf number (h ++ h') = callsOf number h ++ callsOf number h' := List.filterMap_append

theorem callsOf_concat {number : Nat} {x : Happening R T} (hx : x.callOf? number = none)
    (h : List (Happening R T)) : callsOf number (h ++ [x]) = callsOf number h := by
  simp [callsOf, hx]

@[simp] theorem callsDue_append (number : Nat) (l l' : List (Duty R T)) :
    callsDue number (l ++ l') = callsDue number l ++ callsDue number l' := List.filterMap_append

@[simp] theorem numbers_append (l l' : List (Duty R T)) :
    numbers (l ++ l') = numbers l ++ numbers l' :=
  List.filterMap_append

theorem callsOf_eq_nil {number : Nat} {h : List (Happening R T)}
    (hnot : ∀ x ∈ h, x.number? ≠ some number) :
    callsOf number h = [] := by
  apply List.filterMap_eq_nil_iff.mpr
  intro x hx
  cases x with
  | called other l call =>
    have hne : other ≠ number := fun heq => hnot _ hx (congrArg some heq)
    simp [Happening.callOf?, hne]
  | _ => rfl

theorem callsDue_eq_nil {number : Nat} {l : List (Duty R T)} (h : number ∉ numbers l) :
    callsDue number l = [] := by
  apply List.filterMap_eq_nil_iff.mpr
  intro d hd
  cases d with
  | hook other event task id l =>
    have hne : other ≠ number := fun heq => h (List.mem_filterMap.mpr ⟨_, hd, congrArg some heq⟩)
    simp [Duty.callOf?, hne]
  | _ => rfl

/-- A history that has grown by one is split where it was split before, or at its end. -/
theorem concat_eq_append_cons {α : Type} {l before after : List α} {x y : α}
    (h : l ++ [x] = before ++ y :: after) :
    (before = l ∧ y = x ∧ after = []) ∨ ∃ front, after = front ++ [x] ∧
    l = before ++ y :: front := by
  rcases List.eq_nil_or_concat after with rfl | ⟨front, z, rfl⟩
  · obtain ⟨hl, hx⟩ := List.append_inj' h rfl
    obtain rfl := List.singleton_inj.mp hx
    exact .inl ⟨hl.symm, rfl, rfl⟩
  · rw [List.concat_eq_append, ← List.cons_append, ← List.append_assoc] at h
    obtain ⟨hl, hx⟩ := List.append_inj' h rfl
    obtain rfl := List.singleton_inj.mp hx
    exact .inr ⟨front, List.concat_eq_append, hl⟩

variable {history : List (Happening R T)} {x : Happening R T}

theorem registered_append (hadded : x.added? = none) (hremoves : ∀ id, x.removes id = false) :
    registered (history ++ [x]) = registered history := by
  simp [registered, hadded, hremoves]

/-- A listener whose number is new is registered behind all others. -/
theorem registered_added {id : ListenerId} {l : Listener R}
    (hnew : history.any (Happening.removes id) = false) :
    registered (history ++ [.added id l]) = registered history ++ [(id, l)] := by
  have hremoves (id' : ListenerId) : (Happening.added (T := T) id l).removes id' = false := rfl
  simp only [registered, List.filterMap_append, List.filter_append, List.any_append,
    List.any_cons, hremoves, List.any_nil, Bool.or_false]
  simp [Happening.added?, hnew]

theorem registered_removed (id : ListenerId) (found : Bool)
    (hfound : found = false → id ∉ (registered history).map Prod.fst) :
    registered (history ++ [.removed id found]) = (registered history).filter fun e => e.1 ≠
      id := by
  cases found with
  | true =>
    have hadded : ([.removed id true] : List (Happening R T)).filterMap Happening.added? = [] := rfl
    simp only [registered, List.filterMap_append, hadded, List.append_nil, List.filter_filter]
    apply List.filter_congr
    intro e _
    by_cases he : e.1 = id
    · simp [Happening.removes, he]
    · simp [Happening.removes, he, Ne.symm he]
  | false =>
    have hsame : registered (history ++ [.removed id false]) = registered history :=
      registered_append rfl fun _ => rfl
    rw [hsame, List.filter_eq_self.mpr]
    intro e he
    have hne : e.1 ≠ id := fun heq => hfound rfl (List.mem_map.mpr ⟨e, he, heq⟩)
    simpa using hne

end Histories

end Timetable
