import Timetable.Proofs.Coherence

/-!
# A scheduler at work

The scheduler together with the jobs it has given out and a record of everything that has happened.
A step is one section under the scheduler's lock, or the moment when a worker begins an attempt.
Steps of callers, workers, hooks and the clock come in any order, and every reading of the clock is
arbitrary.

The flags that open and close the scheduler are read before the lock is taken. So a task may still
be taken in, and due tasks may still be claimed, right after a stop.
-/
namespace Timetable

variable {W : Type}

/-- A task as it comes from its constructor: it has its unit of work, and nothing has
happened to it. -/
structure Task.IsNew (t : Task W) : Prop where
  pending : t.status = .pending
  unscheduled : t.scheduledAt = none
  unattempted : t.lastExecution = none ∧ t.lastDuration = none ∧ t.lastError = none
  executionCount : t.executionCount = 0
  retryCount : t.retryCount = 0
  armed : t.work.isSome

/-- A job on its way, from its claim until its attempt is recorded or it is handed back. -/
structure Dispatch (W : Type) where
  job : Job W
  /-- When its attempt began. -/
  startedAt : Option Instant := none

/-- A task as it was when it was accepted. -/
structure Admission (W : Type) where
  offer : Offer
  task : Task W

/-- A scheduler at work. -/
structure World (W : Type) where
  scheduler : Scheduler W
  /-- The jobs given out, in the order of their claims. -/
  jobs : List (Dispatch W) := []
  /-- The tasks accepted so far. -/
  accepted : List (Admission W) := []
  /-- What was last seen of the tasks evicted so far. -/
  evicted : List Snapshot := []
  /-- The notices published so far. -/
  history : List Notice := []
  /-- The tasks of the attempts begun so far. -/
  begun : List TaskId := []

/-- What can happen to a scheduler. -/
inductive Deed (W : Type) where
  | accept (offer : Offer) (task : Task W) (asked now : Instant)
  | claim (now : Instant)
  | attempt (job : Job W) (startedAt : Instant)
  /-- The unit of work may have changed in the attempt. -/
  | finish (job : Job W) (work : W) (a : Attempt) (now : Instant)
  | abandon (job : Job W) (now : Instant)
  | cancel (id : TaskId)
  | switch (id : TaskId) (enabled : Bool)
  | evict (id : TaskId)
  | start (now : Instant)
  | stop (now : Instant)
  | deliver (me : Thread) (e : Errand)

/-- The one task that a deed is about, if there is one. -/
def Deed.subject? : Deed W → Option TaskId
  | accept _ t _ _ => some t.id
  | attempt job _ => some job.id
  | finish job _ _ _ => some job.id
  | abandon job _ => some job.id
  | cancel id => some id
  | switch id _ => some id
  | evict id => some id
  | claim _ | start _ | stop _ | deliver _ _ => none

/-- The notices that one outbox has waiting beyond those of another. -/
def Outbox.news (before after : Outbox) : List Notice := after.waiting.drop before.waiting.length

@[simp] theorem Outbox.news_publish (o : Outbox) (notices : List Notice) :
    o.news (o.publish notices) = notices := by simp [news, publish]

@[simp] theorem Outbox.news_self (o : Outbox) : o.news o = [] := by simp [news]

namespace World

/-- The world after a section that changed the scheduler; what the section published
is remembered. -/
def turn (w : World W) (s : Scheduler W) : World W :=
  { w with scheduler := s, history := w.history ++ w.scheduler.outbox.news s.outbox }

/-- A world in which nothing has happened yet. -/
def fresh (s : Scheduler W) : World W := { scheduler := s }

/-- One step. Accepted tasks are new, and their identifiers have never been seen before. -/
inductive Step : World W → Deed W → World W → Prop
  | accept {w : World W} {o : Offer} {t : Task W} {asked due now : Instant} {s : Scheduler W}
    (new : t.IsNew) (unseen : ∀ a ∈ w.accepted, a.task.id ≠ t.id)
    (hdue : o.due? t asked = .ok due) (valid : t.fault? = none)
    (h : w.scheduler.takeIn t due now = .ok s) :
    Step w (.accept o t asked now) { w.turn s with accepted := w.accepted ++ [⟨o, t⟩] }
  | claim (w : World W) (now : Instant) :
    Step w (.claim now) { w.turn (w.scheduler.claimDue now).2 with
      jobs := w.jobs ++ (w.scheduler.claimDue now).1.map fun job => { job } }
  | attempt {w : World W} {before after : List (Dispatch W)} {job : Job W}
    (h : w.jobs = before ++ { job } :: after) (startedAt : Instant) :
    Step w (.attempt job startedAt) { w with
      jobs := before ++ { job, startedAt := some startedAt } :: after
      begun := w.begun ++ [job.id] }
  | finish {w : World W} {before after : List (Dispatch W)} {job : Job W} {a : Attempt}
    (h : w.jobs = before ++ { job, startedAt := some a.startedAt } :: after) (work : W)
    (now : Instant) :
    Step w (.finish job work a now)
      { w.turn (w.scheduler.finish { job with work } a now) with jobs := before ++ after }
  | abandon {w : World W} {before after : List (Dispatch W)} {job : Job W}
    (h : w.jobs = before ++ { job } :: after) (now : Instant) :
    Step w (.abandon job now)
      { w.turn (w.scheduler.abandon job now) with jobs := before ++ after }
  | cancel {w : World W} {id : TaskId} {s : Scheduler W} (h : w.scheduler.cancel? id = some s) :
    Step w (.cancel id) (w.turn s)
  | switch {w : World W} {id : TaskId} {enabled : Bool} {s : Scheduler W}
    (h : w.scheduler.setRecurrenceEnabled? id enabled = some s) :
    Step w (.switch id enabled) (w.turn s)
  | evict {w : World W} {id : TaskId} {last : Snapshot} {s : Scheduler W}
    (h : w.scheduler.evict id = .ok (last, s)) :
    Step w (.evict id) { w.turn s with evicted := w.evicted ++ [last] }
  | start {w : World W} {now : Instant} {s : Scheduler W} (h : w.scheduler.start now = .ok s) :
    Step w (.start now) (w.turn s)
  | stop (w : World W) (now : Instant) : Step w (.stop now) (w.turn (w.scheduler.stop now))
  /-- Deliveries only touch the outbox. Which errands a thread may run, and when, is left open. -/
  | deliver {w : World W} {me : Thread} {e : Errand} {o : Outbox} {errands : List Errand}
    (h : w.scheduler.outbox.run? me e = some (o, errands)) :
    Step w (.deliver me e) { w with scheduler := { w.scheduler with outbox := o } }

/-- A call that offers a task and is not refused is a step, whatever the way of offering it. -/
theorem Step.of_schedule {w : World W} {o : Offer} {t : Task W} {asked now : Instant}
    {s : Scheduler W} (new : t.IsNew) (unseen : ∀ a ∈ w.accepted, a.task.id ≠ t.id)
    (h : w.scheduler.schedule o t asked now = .ok s) :
    Step w (.accept o t asked now) { w.turn s with accepted := w.accepted ++ [⟨o, t⟩] } := by
  obtain ⟨-, valid, due, hdue, htaken⟩ := Scheduler.schedule_eq_ok h
  exact .accept new unseen hdue valid htaken

/-- A run, step by step. -/
inductive Run : World W → List (Deed W) → World W → Prop
  | refl (w : World W) : Run w [] w
  | step {w w₁ w₂ : World W} {deeds : List (Deed W)} {d : Deed W} (run : Run w deeds w₁)
    (h : Step w₁ d w₂) : Run w (deeds ++ [d]) w₂

/-- What has been published stays in the record. -/
theorem Step.history {w w' : World W} {d : Deed W} (h : Step w d w') :
    ∃ news, w'.history = w.history ++ news := by
  cases h with
  | attempt | deliver => exact ⟨[], (List.append_nil _).symm⟩
  | _ => exact ⟨_, rfl⟩

theorem Run.history {w w' : World W} {deeds : List (Deed W)} (run : Run w deeds w') :
    ∃ news, w'.history = w.history ++ news := by
  induction run with
  | refl => exact ⟨[], (List.append_nil _).symm⟩
  | step _ h ih =>
    obtain ⟨first, hfirst⟩ := ih
    obtain ⟨second, hsecond⟩ := h.history
    exact ⟨first ++ second, by rw [hsecond, hfirst, List.append_assoc]⟩

/-- The worlds that a new scheduler can get into. -/
def Reachable (w : World W) : Prop :=
  ∃ (c : Config) (s : Scheduler W) (deeds : List (Deed W)),
    Scheduler.create c = .ok s ∧ Run (fresh s) deeds w

theorem Reachable.step {w w' : World W} {d : Deed W} (hw : w.Reachable) (h : Step w d w') :
    w'.Reachable := by
  obtain ⟨c, s, deeds, hs, run⟩ := hw
  exact ⟨c, s, deeds ++ [d], hs, run.step h⟩

theorem Reachable.run {w w' : World W} {deeds : List (Deed W)} (hw : w.Reachable)
    (run : Run w deeds w') : w'.Reachable := by
  induction run with
  | refl => exact hw
  | step _ h ih => exact ih.step h

/-- What holds of a new scheduler and is kept by every step holds in every reachable world. -/
theorem Reachable.induction {motive : World W → Prop} {w : World W} (hw : w.Reachable)
    (fresh : ∀ c s, Scheduler.create c = .ok s → motive (World.fresh s))
    (step : ∀ w d w', w.Reachable → Step w d w' → motive w → motive w') : motive w := by
  obtain ⟨c, s, deeds, hs, run⟩ := hw
  have start : (World.fresh s).Reachable := ⟨c, s, [], hs, .refl _⟩
  induction run with
  | refl => exact fresh c s hs
  | step run h ih => exact step _ _ _ (start.run run) h ih

end World

/-- A task to begin with, which does not recur. -/
def Task.sample : Task Nat :=
  { id := .ofNat 1, name := "report", createdAt := .epoch, work := some 0 }

theorem Task.isNew_sample : Task.sample.IsNew := ⟨rfl, rfl, ⟨rfl, rfl, rfl⟩, rfl, rfl, rfl⟩

/-- Some reachable world has a task executing. -/
theorem World.exists_executing : ∃ w : World Nat, w.Reachable ∧
    w.scheduler.task? (.ofNat 1) =
      some ((Task.sample.accept .epoch 0).schedule .epoch).claimed ∧
    w.jobs = [{ job := ⟨.ofNat 1, 0⟩, startedAt := some .epoch }] ∧ w.scheduler.config = {} := by
  have accepted := (Run.refl (fresh ({ config := {} } : Scheduler Nat))).step
    (@Step.accept _ _ .dueNow _ .epoch .epoch .epoch _ Task.isNew_sample (by simp [fresh]) rfl
      (by decide) rfl)
  have claimed := accepted.step (.claim _ .epoch)
  have executing := claimed.step (@Step.attempt _ _ [] [] ⟨.ofNat 1, 0⟩ rfl .epoch)
  exact ⟨_, ⟨{}, _, _, rfl, executing⟩, rfl, rfl, rfl⟩

end Timetable
