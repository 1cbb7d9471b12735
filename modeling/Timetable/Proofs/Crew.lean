import Mathlib.Logic.Function.Basic
import Mathlib.Logic.Relation
import Timetable.Outbox

/-!
# Threads at one outbox

Any number of threads share an outbox. What a thread does of its own is left open: it takes up work
when it likes, and as often as it likes it publishes notices under the lock and then has them
delivered. An announcement calls any number of hooks on the announcing thread, one after the other.
A hook may do all that a thread may do, and it may panic, which is caught where the hook ends.
-/
namespace Timetable

namespace Outbox

variable {o o' : Outbox} {me : Thread} {errands : List Errand}

/-- A thread that waits for a delivery goes on when it is done or is its own, and delivers when
nobody does. -/
theorem run?_reach_eq_some {target : Nat} (h : o.run? me (.reach target) = some (o', errands)) :
    (o' = o ∧ errands = [] ∧ (target ≤ o.delivered ∨ o.deliverer = some me)) ∨
      (o' = o.stepUp me ∧ errands = [.drain] ∧ o.deliverer = none) := by
  simp only [run?, turn] at h
  by_cases hdone : target ≤ o.delivered
  · simp only [hdone, if_true, Option.some.injEq, Prod.mk.injEq] at h
    exact .inl ⟨h.1.symm, h.2.symm, .inl hdone⟩
  · cases hd : o.deliverer with
    | none =>
      simp only [hdone, if_false, hd, Option.some.injEq, Prod.mk.injEq] at h
      exact .inr ⟨h.1.symm, h.2.symm, rfl⟩
    | some other =>
      by_cases hme : other = me
      · simp only [hdone, if_false, hd, hme, if_true, Option.some.injEq, Prod.mk.injEq] at h
        exact .inl ⟨h.1.symm, h.2.symm, .inr (by rw [hme])⟩
      · simp [hdone, hd, hme] at h

/-- A thread that delivers takes all that waits, and steps down when nothing does. -/
theorem run?_drain_eq_some (h : o.run? me .drain = some (o', errands)) :
    (o.waiting = [] ∧ o' = o.stepDown ∧ errands = []) ∨
      (o.waiting ≠ [] ∧ o' = { o with waiting := [] } ∧
        errands = o.waiting.map .announce ++ [.credit o.waiting.length, .drain]) := by
  simp only [run?, takeBatch] at h
  cases hw : o.waiting with
  | nil =>
    simp only [hw, List.isEmpty_nil, if_true, Option.some.injEq, Prod.mk.injEq] at h
    refine .inl ⟨rfl, ?_, h.2.symm⟩
    rw [← h.1, stepDown, stepDown, hw]
  | cons n notices =>
    simp only [hw, List.isEmpty_cons, Bool.false_eq_true, if_false, Option.some.injEq,
      Prod.mk.injEq] at h
    exact .inr ⟨by simp, h.1.symm, h.2.symm⟩

end Outbox

/-- A thing on the agenda of a thread. -/
inductive Chore where
  | work
  | errand (e : Errand)
  /-- A hook to call. -/
  | hook
  /-- The end of a hook. -/
  | guard
deriving DecidableEq

/-- Threads at an outbox. -/
structure Crew where
  outbox : Outbox := {}
  /-- What each thread will do next, the next thing first. -/
  agenda : Thread → List Chore := fun _ => []
  /-- The notices published so far. -/
  published : List Notice := []
  /-- The notices announced so far. -/
  notified : List Notice := []

namespace Crew

/-- The crew with another agenda for one thread. -/
def give (c : Crew) (t : Thread) (chores : List Chore) : Crew :=
  { c with agenda := Function.update c.agenda t chores }

@[simp] theorem give_agenda (c : Crew) (t : Thread) (chores : List Chore) :
    (c.give t chores).agenda t = chores := Function.update_self ..

@[simp] theorem give_agenda_of_ne (c : Crew) {t u : Thread} (chores : List Chore) (h : u ≠ t) :
    (c.give t chores).agenda u = c.agenda u := Function.update_of_ne h ..

@[simp] theorem give_outbox (c : Crew) (t : Thread) (chores : List Chore) :
    (c.give t chores).outbox = c.outbox := rfl

@[simp] theorem give_published (c : Crew) (t : Thread) (chores : List Chore) :
    (c.give t chores).published = c.published := rfl

@[simp] theorem give_notified (c : Crew) (t : Thread) (chores : List Chore) :
    (c.give t chores).notified = c.notified := rfl

/-- What is left of an agenda after a panic. -/
def unwind : List Chore → List Chore
  | [] => []
  | .guard :: rest => rest
  | _ :: rest => unwind rest

/-- One step of a thread. -/
inductive Step (c : Crew) (me : Thread) : Crew → Prop
  | takeUp (h : c.agenda me = []) : Step c me (c.give me [.work])
  | work {rest : List Chore} (h : c.agenda me = .work :: rest) (more : Nat) :
    Step c me (c.give me (List.replicate more .work ++ rest))
  /-- A section under the lock, and the call for delivery that follows it. -/
  | publish {rest : List Chore} (h : c.agenda me = .work :: rest) (notices : List Notice)
    (more : Nat) :
    Step c me { c.give me (.errand .deliver :: List.replicate more .work ++ rest) with
      outbox := c.outbox.publish notices
      published := c.published ++ notices }
  | panic {rest : List Chore} (h : c.agenda me = .work :: rest) :
    Step c me (c.give me (unwind rest))
  | hook {rest : List Chore} (h : c.agenda me = .hook :: rest) (more : Nat) :
    Step c me (c.give me (List.replicate more .work ++ .guard :: rest))
  | caught {rest : List Chore} (h : c.agenda me = .guard :: rest) : Step c me (c.give me rest)
  | announce {n : Notice} {rest : List Chore} (h : c.agenda me = .errand (.announce n) :: rest)
    (audience : Nat) :
    Step c me { c.give me (List.replicate audience .hook ++ rest) with
      notified := c.notified ++ [n] }
  | errand {e : Errand} {rest : List Chore} {o : Outbox} {errands : List Errand}
    (h : c.agenda me = .errand e :: rest) (hquiet : ∀ n, e ≠ .announce n)
    (ho : c.outbox.run? me e = some (o, errands)) :
    Step c me { c.give me (errands.map .errand ++ rest) with outbox := o }

/-- A run of any length, in which the threads take their steps in any order. -/
abbrev Run : Crew → Crew → Prop := Relation.ReflTransGen fun c c' => ∃ t, Step c t c'

/-- What a crew can get into that has done nothing yet. -/
def Reachable (c : Crew) : Prop := Run {} c

theorem Reachable.run {c c' : Crew} (h : c.Reachable) (run : Run c c') : c'.Reachable :=
  Relation.ReflTransGen.trans h run

variable {c c' : Crew} {me : Thread}

theorem Step.published_prefix (h : Step c me c') : c.published <+: c'.published := by
  cases h with
  | publish => exact List.prefix_append ..
  | _ => exact List.prefix_refl _

/-- A step changes no agenda but the one of its thread. -/
theorem Step.agenda_of_ne (h : Step c me c') {t : Thread} (ht : t ≠ me) :
    c'.agenda t = c.agenda t := by
  cases h <;> exact give_agenda_of_ne c _ ht

end Crew

end Timetable
