import Timetable.Proofs.Soundness
import Timetable.Scheduler.Query

/-!
# The course of a scheduler

A scheduler is created, may be started, and is stopped in the end. Only a start and a stop move it
on this course. The flags by which calls and ticks find out whether they are welcome agree with it
at any time: new tasks are accepted until the stop, and due tasks are claimed between the start and
the stop.
-/
namespace Timetable

variable {W : Type}

/-- How far a scheduler has come, and when it got there. -/
structure Course where
  lifecycle : Lifecycle
  accepting : Bool
  dispatching : Bool
  startedAt : Option Instant
  stoppedAt : Option Instant
deriving DecidableEq

namespace Scheduler

/-- The course of the scheduler so far. -/
def course (s : Scheduler W) : Course :=
  ⟨s.lifecycle, s.accepting, s.dispatching, s.startedAt, s.stoppedAt⟩

/-- The flags say how far the scheduler has come. -/
structure Gated (s : Scheduler W) : Prop where
  accepting : s.accepting = true ↔ s.lifecycle ≠ .stopped
  dispatching : s.dispatching = true ↔ s.lifecycle = .running

variable {s s' : Scheduler W}

theorem course_put (s : Scheduler W) (t : Task W) (notices : List Notice) :
    (s.put t notices).course = s.course :=
  rfl

theorem course_finish (s : Scheduler W) (job : Job W) (a : Attempt) (now : Instant) :
    (s.finish job a now).course = s.course := by
  cases ht : s.task? job.id with
  | none =>
    rw [finish_of_none job ht]
    rfl
  | some t =>
    rw [finish_of_some job ht, course_put]
    rfl

theorem course_abandon (s : Scheduler W) (job : Job W) (now : Instant) :
    (s.abandon job now).course = s.course := by
  cases ht : s.task? job.id with
  | none =>
    rw [abandon_of_none ht]
    rfl
  | some t =>
    rw [abandon_of_some ht]
    split <;> rfl

theorem Gated.of_course (hs : s.Gated) (h : s'.course = s.course) : s'.Gated := by
  obtain ⟨hlifecycle, haccepting, hdispatching, -, -⟩ := Course.mk.inj h
  exact ⟨by rw [haccepting, hlifecycle, hs.accepting],
    by rw [hdispatching, hlifecycle, hs.dispatching]⟩

theorem Gated.start (hs : s.Gated) {now : Instant} (h : s.start now = .ok s') : s'.Gated := by
  unfold Scheduler.start at h
  split at h
  · obtain rfl := Except.ok.inj h
    exact hs
  · cases h
  · rename_i hcreated
    obtain rfl := Except.ok.inj h
    have hopen : s.accepting = true := hs.accepting.mpr (by rw [hcreated]; decide)
    exact ⟨by simp [hopen], by simp⟩

theorem gated_stop (s : Scheduler W) (now : Instant) : (s.stop now).Gated :=
  ⟨by simp [stop], by simp [stop]⟩

end Scheduler

namespace World

variable {w w' : World W} {d : Deed W}

/-- Nothing but a start and a stop moves the scheduler on its course. -/
theorem Step.course (h : Step w d w') (hw : w.Sound) (hstart : ∀ now, d ≠ .start now)
    (hstop : ∀ now, d ≠ .stop now) :
    w'.scheduler.course = w.scheduler.course := by
  cases h with
  | accept _ _ _ _ h =>
    obtain ⟨-, rfl⟩ := Scheduler.takeIn_eq_ok h
    rfl
  | claim now =>
    have hs := congrArg Scheduler.course (hw.coherent.claimDue_eq hw.armed now).2.1
    exact hs
  | attempt | deliver => rfl
  | finish h work now => exact w.scheduler.course_finish _ _ now
  | abandon h now => exact w.scheduler.course_abandon _ now
  | cancel h =>
    obtain ⟨t, -, -, rfl⟩ := Scheduler.cancel?_eq_some h
    rfl
  | switch h =>
    obtain ⟨t, -, -, rfl⟩ := Scheduler.setRecurrenceEnabled?_eq_some h
    rfl
  | evict h =>
    obtain ⟨t, -, -, -, rfl⟩ := Scheduler.evict_eq_ok h
    rfl
  | start h => exact absurd rfl (hstart _)
  | stop now => exact absurd rfl (hstop _)

theorem Step.gated (h : Step w d w') (hw : w.Sound) (hgated : w.scheduler.Gated) :
    w'.scheduler.Gated := by
  by_cases hstart : ∃ now, d = .start now
  · obtain ⟨now, rfl⟩ := hstart
    cases h with
    | start h => exact hgated.start h
  · by_cases hstop : ∃ now, d = .stop now
    · obtain ⟨now, rfl⟩ := hstop
      cases h with
      | stop => exact w.scheduler.gated_stop now
    · exact hgated.of_course (h.course hw (not_exists.mp hstart) (not_exists.mp hstop))

/-- In every reachable world the flags say how far the scheduler has come. -/
theorem Reachable.gated (hw : w.Reachable) : w.scheduler.Gated := by
  refine hw.induction (motive := fun w => w.scheduler.Gated) (fun c s hs => ?_)
    fun w d w' hw h ih => h.gated hw.sound ih
  obtain rfl := Scheduler.create_eq_ok hs
  exact ⟨by simp [fresh], by simp [fresh]⟩

end World

end Timetable
