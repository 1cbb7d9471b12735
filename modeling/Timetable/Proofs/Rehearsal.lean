import Timetable.Proofs.World

/-!
# Runs that are played through

A list of deeds can be tried out in a world: each deed is taken if it is a step there. What comes of
it is a run, so a state that some deeds lead to is found by evaluation.
-/
namespace Timetable

variable {W : Type}

deriving instance DecidableEq for Job
deriving instance DecidableEq for Dispatch

instance (t : Task W) : Decidable t.IsNew :=
  decidable_of_iff (t.status = .pending ∧ t.scheduledAt = none ∧
      (t.lastExecution = none ∧ t.lastDuration = none ∧ t.lastError = none) ∧
      t.executionCount = 0 ∧ t.retryCount = 0 ∧ t.work.isSome)
    ⟨fun ⟨h₁, h₂, h₃, h₄, h₅, h₆⟩ => ⟨h₁, h₂, h₃, h₄, h₅, h₆⟩,
      fun ⟨h₁, h₂, h₃, h₄, h₅, h₆⟩ => ⟨h₁, h₂, h₃, h₄, h₅, h₆⟩⟩

/-- What stands before and after the first occurrence of an element. -/
def splitAt? {α : Type} [DecidableEq α] (a : α) : List α → Option (List α × List α)
  | [] => none
  | b :: l => if b = a then some ([], l) else (splitAt? a l).map fun (before, after) =>
    (b :: before, after)

theorem eq_of_splitAt? {α : Type} [DecidableEq α] {a : α} {l before after : List α}
    (h : splitAt? a l = some (before, after)) : l = before ++ a :: after := by
  induction l generalizing before with
  | nil => cases h
  | cons b l ih =>
    rw [splitAt?] at h
    split at h
    · rename_i hb
      cases h
      rw [hb, List.nil_append]
    · obtain ⟨⟨front, back⟩, hl, heq⟩ := Option.map_eq_some_iff.mp h
      cases heq
      rw [ih hl, List.cons_append]

namespace World

theorem Run.trans {w₁ w₂ w₃ : World W} {first second : List (Deed W)} (h : Run w₁ first w₂)
    (h' : Run w₂ second w₃) : Run w₁ (first ++ second) w₃ := by
  induction h' with
  | refl => rwa [List.append_nil]
  | step _ hstep ih =>
    rw [← List.append_assoc]
    exact ih.step hstep

variable [DecidableEq W]

/-- The world after a deed, if the deed is a step there. -/
def step? (w : World W) : Deed W → Option (World W)
  | .accept o t asked now =>
    match o.due? t asked with
    | .error _ => none
    | .ok due =>
      match w.scheduler.takeIn t due now with
      | .error _ => none
      | .ok s =>
        if t.IsNew ∧ (∀ a ∈ w.accepted, a.task.id ≠ t.id) ∧ t.fault? = none then
          some { w.turn s with accepted := w.accepted ++ [⟨o, t⟩] }
        else none
  | .claim now => some { w.turn (w.scheduler.claimDue now).2 with
      jobs := w.jobs ++ (w.scheduler.claimDue now).1.map fun job => { job } }
  | .attempt job startedAt => (splitAt? { job } w.jobs).map fun (before, after) => { w with
      jobs := before ++ { job, startedAt := some startedAt } :: after
      begun := w.begun ++ [job.id] }
  | .finish job work a now =>
    (splitAt? { job, startedAt := some a.startedAt } w.jobs).map fun (before, after) =>
      { w.turn (w.scheduler.finish { job with work } a now) with jobs := before ++ after }
  | .abandon job now => (splitAt? { job } w.jobs).map fun (before, after) =>
      { w.turn (w.scheduler.abandon job now) with jobs := before ++ after }
  | .cancel id => (w.scheduler.cancel? id).map w.turn
  | .switch id enabled => (w.scheduler.setRecurrenceEnabled? id enabled).map w.turn
  | .evict id =>
    match w.scheduler.evict id with
    | .error _ => none
    | .ok (last, s) => some { w.turn s with evicted := w.evicted ++ [last] }
  | .start now =>
    match w.scheduler.start now with
    | .error _ => none
    | .ok s => some (w.turn s)
  | .stop now => some (w.turn (w.scheduler.stop now))
  | .deliver me e => (w.scheduler.outbox.run? me e).map fun (o, _) =>
      { w with scheduler := { w.scheduler with outbox := o } }

variable {w w' : World W} {d : Deed W} {deeds : List (Deed W)}

/-- A deed that can be done is a step. -/
theorem Step.of_step? (h : w.step? d = some w') : Step w d w' := by
  cases d with
  | accept o t asked now =>
    simp only [step?] at h
    split at h
    · cases h
    · rename_i due hdue
      split at h
      · cases h
      · rename_i s hs
        split at h
        · rename_i hnew
          cases h
          exact .accept hnew.1 hnew.2.1 hdue hnew.2.2 hs
        · cases h
  | claim now =>
    cases h
    exact .claim w now
  | attempt job startedAt =>
    obtain ⟨⟨before, after⟩, hjobs, rfl⟩ := Option.map_eq_some_iff.mp h
    exact .attempt (eq_of_splitAt? hjobs) startedAt
  | finish job work a now =>
    obtain ⟨⟨before, after⟩, hjobs, rfl⟩ := Option.map_eq_some_iff.mp h
    exact .finish (eq_of_splitAt? hjobs) work now
  | abandon job now =>
    obtain ⟨⟨before, after⟩, hjobs, rfl⟩ := Option.map_eq_some_iff.mp h
    exact .abandon (eq_of_splitAt? hjobs) now
  | cancel id =>
    obtain ⟨s, hs, rfl⟩ := Option.map_eq_some_iff.mp h
    exact .cancel hs
  | switch id enabled =>
    obtain ⟨s, hs, rfl⟩ := Option.map_eq_some_iff.mp h
    exact .switch hs
  | evict id =>
    simp only [step?] at h
    split at h
    · cases h
    · rename_i last s hs
      cases h
      exact .evict hs
  | start now =>
    simp only [step?] at h
    split at h
    · cases h
    · rename_i s hs
      cases h
      exact .start hs
  | stop now =>
    cases h
    exact .stop w now
  | deliver me e =>
    obtain ⟨⟨o, errands⟩, ho, rfl⟩ := Option.map_eq_some_iff.mp h
    exact .deliver ho

/-- The world that the deeds lead to, one after the other. -/
def play? (w : World W) : List (Deed W) → Option (World W)
  | [] => some w
  | d :: deeds => (w.step? d).bind fun w' => w'.play? deeds

/-- Deeds that are played through make up a run. -/
theorem Run.of_play? (h : w.play? deeds = some w') : Run w deeds w' := by
  induction deeds generalizing w with
  | nil =>
    cases h
    exact .refl _
  | cons d deeds ih =>
    obtain ⟨w₁, hd, hrest⟩ := Option.bind_eq_some_iff.mp h
    exact ((Run.refl w).step (.of_step? hd)).trans (ih hrest)

end World

/-- The job of the task to begin with. -/
def Job.sample : Job Nat := { id := .ofNat 1, work := 0 }

/-- Attempts to begin with. -/
def Attempt.successSample : Attempt :=
  { startedAt := .epoch, duration := .zero, outcome := .success }

def Attempt.failureSample : Attempt :=
  { startedAt := .epoch, duration := .zero, outcome := .failure "disk full" }

/-- A world to begin with. -/
def World.sample : World Nat := .fresh { config := {} }

end Timetable
