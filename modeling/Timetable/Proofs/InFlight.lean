import Timetable.Proofs.Mirror
import Timetable.Scheduler.Query

/-!
# Jobs in flight

The scheduler counts the jobs that are out: a claim raises the count by as many as it gives out, and
each attempt that is recorded and each job that is handed back lowers it by one. As one of the jobs
goes with each of them, the count never falls short, whatever becomes of the tasks meanwhile.
-/
namespace Timetable

variable {W : Type}

namespace Scheduler

/-- An attempt that is recorded is not in flight any more, whether or not its task is
still there. -/
theorem inFlight_finish (s : Scheduler W) (job : Job W) (a : Attempt) (now : Instant) :
    (s.finish job a now).inFlight = s.inFlight - 1 := by
  cases ht : s.task? job.id with
  | none =>
    rw [finish_of_none job ht]
    rfl
  | some t =>
    rw [finish_of_some job ht]
    rfl

theorem inFlight_abandon (s : Scheduler W) (job : Job W) (now : Instant) :
    (s.abandon job now).inFlight = s.inFlight - 1 := by
  cases ht : s.task? job.id with
  | none =>
    rw [abandon_of_none ht]
    rfl
  | some t =>
    rw [abandon_of_some ht]
    split <;> rfl

/-- A claim counts the jobs that it gives out. -/
theorem Coherent.inFlight_claimDue {s : Scheduler W} (h : s.Coherent) (ha : s.Armed)
    (now : Instant) :
    (s.claimDue now).2.inFlight = s.inFlight + (s.claimDue now).1.length := by
  obtain ⟨-, hs, -⟩ := h.claimDue_eq ha now
  have hlength : (s.claimDue now).1.length = (s.queue.extractDue now).1.length := by
    rw [← h.claimed_ids ha now, List.length_map]
  rw [hs, hlength]

theorem awaitSettled?_eq_true {s : Scheduler W} {timeUp : Bool} :
    s.awaitSettled? timeUp = some true ↔ s.isSettled = true := by
  cases h : s.isSettled <;> cases timeUp <;> simp [awaitSettled?, h]

end Scheduler

namespace World

variable {w w' : World W} {d : Deed W}

/-- What a step does to the number of jobs in flight is what it does to the number of jobs
that are out. -/
theorem Step.inFlight (h : Step w d w') (hw : w.Sound)
    (hcount : w.scheduler.inFlight = w.jobs.length) :
    w'.scheduler.inFlight = w'.jobs.length := by
  cases h with
  | accept _ _ _ _ h =>
    obtain ⟨-, rfl⟩ := Scheduler.takeIn_eq_ok h
    exact hcount
  | claim now =>
    have hclaim := hw.coherent.inFlight_claimDue hw.armed now
    simp only [turn, List.length_append, List.length_map]
    omega
  | attempt h =>
    simp only [h, List.length_append, List.length_cons] at hcount ⊢
    exact hcount
  | @finish before after job a h work now =>
    have hfinish := w.scheduler.inFlight_finish { job with work } a now
    simp only [turn, hfinish, h, List.length_append, List.length_cons] at hcount ⊢
    omega
  | @abandon before after job h now =>
    have habandon := w.scheduler.inFlight_abandon job now
    simp only [turn, habandon, h, List.length_append, List.length_cons] at hcount ⊢
    omega
  | cancel h =>
    obtain ⟨t, -, -, rfl⟩ := Scheduler.cancel?_eq_some h
    exact hcount
  | switch h =>
    obtain ⟨t, -, -, rfl⟩ := Scheduler.setRecurrenceEnabled?_eq_some h
    exact hcount
  | evict h =>
    obtain ⟨t, -, -, -, rfl⟩ := Scheduler.evict_eq_ok h
    exact hcount
  | start h =>
    obtain ⟨_, _, _, rfl⟩ := Scheduler.start_eq_ok h
    exact hcount
  | stop now => exact hcount
  | deliver h => exact hcount

theorem Reachable.inFlight_eq (hw : w.Reachable) : w.scheduler.inFlight = w.jobs.length := by
  refine hw.induction (motive := fun w => w.scheduler.inFlight = w.jobs.length) (fun c s hs => ?_)
    fun w d w' hw h ih => h.inFlight hw.sound ih
  obtain rfl := Scheduler.create_eq_ok hs
  rfl

end World

/-- Whether a section calls for the delivery of its notices when it has given up the lock. -/
def Deed.delivers : Deed W → Bool
  | accept .. | claim _ | finish .. | cancel _ => true
  | _ => false

/-- A section publishes what it adds to the record; if it does not call for a delivery
that is nothing. -/
theorem World.Step.publishes {w w' : World W} {d : Deed W} (h : World.Step w d w') (hw : w.Sound)
    (hd : ∀ me e, d ≠ .deliver me e) : ∃ notices,
      w'.scheduler.outbox = w.scheduler.outbox.publish notices ∧ w'.history = w.history ++ notices ∧
        (d.delivers = false → notices = []) := by
  have publishing {s : Scheduler W} {notices : List Notice}
      (hs : s.outbox = w.scheduler.outbox.publish notices) :
      (w.turn s).scheduler.outbox = w.scheduler.outbox.publish notices ∧
        (w.turn s).history = w.history ++ notices := ⟨hs, by simp [turn, hs]⟩
  have quiet {s : Scheduler W} (hs : s.outbox = w.scheduler.outbox) :
      (w.turn s).scheduler.outbox = w.scheduler.outbox.publish [] ∧
      (w.turn s).history = w.history ++ [] :=
    publishing (hs.trans (Outbox.publish_nil _).symm)
  cases h with
  | accept _ _ _ _ h =>
    obtain ⟨-, rfl⟩ := Scheduler.takeIn_eq_ok h
    exact ⟨_, (publishing rfl).1, (publishing rfl).2, by simp [Deed.delivers]⟩
  | claim now =>
    obtain ⟨-, hs, -⟩ := hw.coherent.claimDue_eq hw.armed now
    have hboth := publishing (congrArg Scheduler.outbox hs)
    exact ⟨_, hboth.1, hboth.2, by simp [Deed.delivers]⟩
  | attempt => exact ⟨[], (Outbox.publish_nil _).symm, (List.append_nil _).symm, fun _ => rfl⟩
  | @finish before after job a h work now =>
    obtain ⟨notices, hs⟩ := w.scheduler.outbox_finish { job with work } a now
    exact ⟨notices, (publishing hs).1, (publishing hs).2, by simp [Deed.delivers]⟩
  | @abandon before after job h now =>
    have hboth := quiet (w.scheduler.outbox_abandon job now)
    exact ⟨[], hboth.1, hboth.2, fun _ => rfl⟩
  | cancel h =>
    obtain ⟨t, -, -, rfl⟩ := Scheduler.cancel?_eq_some h
    exact ⟨_, (publishing rfl).1, (publishing rfl).2, by simp [Deed.delivers]⟩
  | switch h =>
    obtain ⟨t, -, -, rfl⟩ := Scheduler.setRecurrenceEnabled?_eq_some h
    exact ⟨[], (quiet rfl).1, (quiet rfl).2, fun _ => rfl⟩
  | evict h =>
    obtain ⟨t, -, -, -, rfl⟩ := Scheduler.evict_eq_ok h
    exact ⟨[], (quiet rfl).1, (quiet rfl).2, fun _ => rfl⟩
  | start h =>
    obtain ⟨_, _, _, rfl⟩ := Scheduler.start_eq_ok h
    exact ⟨[], (quiet rfl).1, (quiet rfl).2, fun _ => rfl⟩
  | stop now => exact ⟨[], (quiet rfl).1, (quiet rfl).2, fun _ => rfl⟩
  | deliver => exact absurd rfl (hd _ _)

end Timetable
