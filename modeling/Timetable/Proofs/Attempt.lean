import Mathlib.Tactic.ByContra
import Timetable.Task

/-!
# What an attempt comes to

A task that has been attempted first ends, and then a follow-up may be planned. `Task.Settles` lists
every way this can go, with the condition under which it goes that way; what else is said of an
attempt follows from the list.
-/
namespace Timetable

variable {W : Type}

/-- The error of an attempt that failed. -/
def Outcome.error? : Outcome → Option String
  | success => none
  | failure error => some error

/-- The event right after an attempt. -/
def Attempt.verdict (a : Attempt) : Event :=
  match a.outcome with
  | .success => .completed
  | .failure error => .failed error

theorem Attempt.verdict_of_success {a : Attempt} (h : a.outcome = .success) :
    a.verdict = .completed := by
  rw [verdict, h]

theorem Attempt.verdict_of_failure {a : Attempt} {error : String} (h : a.outcome = .failure error) :
    a.verdict = .failed error := by
  rw [verdict, h]

namespace Task

/-- The task right after an attempt, before anything is planned. -/
def ended (t : Task W) (w : W) (a : Attempt) : Task W := (t.record w a).1

theorem record_eq (t : Task W) (w : W) (a : Attempt) : t.record w a = (t.ended w a, a.verdict) := by
  rw [ended, record, Attempt.verdict]
  cases a.outcome <;> rfl

section Ended

variable (t : Task W) (w : W) (a : Attempt)

/-- An attempt is recorded in the same way whatever its outcome: the outcome decides on the error,
on the count of retries and on the status of a task that is not cancelled. -/
theorem ended_eq : t.ended w a =
    { t with
      work := some w
      executionCount := countUp t.executionCount
      lastExecution := some a.startedAt
      lastDuration := some a.duration
      lastError := a.outcome.error?
      retryCount := if a.outcome = .success then 0 else t.retryCount
      status := if t.status = .cancelled then .cancelled
        else if a.outcome = .success then .completed else .failed
      nextExecution := if t.status = .cancelled then t.nextExecution else none } := by
  obtain ⟨startedAt, duration, outcome⟩ := a
  by_cases h : t.status = .cancelled <;> cases outcome <;>
    simp [ended, record, recordSuccess, recordFailure, endAs, recordAttempt, giveBack, h,
      Outcome.error?]

@[simp] theorem ended_id : (t.ended w a).id = t.id := by rw [ended_eq]

@[simp] theorem ended_priority : (t.ended w a).priority = t.priority := by rw [ended_eq]

@[simp] theorem ended_work : (t.ended w a).work = some w := by rw [ended_eq]

@[simp] theorem ended_recurrence : (t.ended w a).recurrence = t.recurrence := by rw [ended_eq]

@[simp] theorem ended_maxRetries : (t.ended w a).maxRetries = t.maxRetries := by rw [ended_eq]

@[simp] theorem ended_scheduledAt : (t.ended w a).scheduledAt = t.scheduledAt := by rw [ended_eq]

@[simp] theorem ended_executionCount : (t.ended w a).executionCount = countUp t.executionCount := by
  rw [ended_eq]

theorem ended_status_of_cancelled (h : t.status = .cancelled) :
    (t.ended w a).status = .cancelled := by
  rw [ended_eq]
  exact if_pos h

theorem ended_nextExecution_of_cancelled (h : t.status = .cancelled) :
    (t.ended w a).nextExecution = t.nextExecution := by
  rw [ended_eq]
  exact if_pos h

theorem ended_nextExecution (h : t.status ≠ .cancelled) : (t.ended w a).nextExecution = none := by
  rw [ended_eq]
  exact if_neg h

theorem ended_status (h : t.status ≠ .cancelled) :
    (t.ended w a).status = .completed ∨ (t.ended w a).status = .failed := by
  rw [ended_eq]
  cases a.outcome
  · exact .inl (if_neg h)
  · exact .inr (if_neg h)

theorem ended_status_of_success (h : t.status ≠ .cancelled) (ho : a.outcome = .success) :
    (t.ended w a).status = .completed := by
  simp [ended_eq, h, ho]

theorem ended_status_of_failure {error : String} (h : t.status ≠ .cancelled)
    (ho : a.outcome = .failure error) : (t.ended w a).status = .failed := by
  simp [ended_eq, h, ho]

theorem ended_status_eq_cancelled : (t.ended w a).status = .cancelled ↔ t.status = .cancelled := by
  refine ⟨fun h => ?_, ended_status_of_cancelled t w a⟩
  by_contra hne
  rcases ended_status t w a hne with hs | hs <;> rw [hs] at h <;> cases h

theorem ended_isTerminal : (t.ended w a).status.isTerminal := by
  by_cases h : t.status = .cancelled
  · rw [ended_status_of_cancelled t w a h]; rfl
  · rcases ended_status t w a h with hs | hs <;> rw [hs] <;> rfl

end Ended

/-- How a task may go on after an attempt: the task then, and the notices of the attempt. -/
inductive Settles (t : Task W) (w : W) (a : Attempt) (now : Instant) (delay : Span) :
    Task W → List Notice → Prop
  /-- A cancelled task only has the attempt recorded. -/
  | cancelled (h : t.status = .cancelled) :
    Settles t w a now delay (t.ended w a) [(t.ended w a).notice a.verdict]
  | completed (h : t.status ≠ .cancelled) (ho : a.outcome = .success) (hr : t.recurrence = none) :
    Settles t w a now delay (t.ended w a) [(t.ended w a).notice a.verdict]
  | recurs (h : t.status ≠ .cancelled) (ho : a.outcome = .success) {p : Policy}
    (hr : t.recurrence = some p) {due : Instant}
    (hn : p.next? now (countUp t.executionCount) = some due) :
    Settles t w a now delay ((t.ended w a).schedule due)
      [(t.ended w a).notice a.verdict, ((t.ended w a).schedule due).notice .scheduled]
  | expires (h : t.status ≠ .cancelled) (ho : a.outcome = .success) {p : Policy}
    (hr : t.recurrence = some p) (hn : p.next? now (countUp t.executionCount) = none) :
    Settles t w a now delay (t.ended w a).cancel
      [(t.ended w a).notice a.verdict, (t.ended w a).cancel.notice .cancelled]
  | exhausted (h : t.status ≠ .cancelled) {error : String} (ho : a.outcome = .failure error)
    (hx : (t.ended w a).isExhausted) :
    Settles t w a now delay (t.ended w a).cancel
      [(t.ended w a).notice a.verdict, (t.ended w a).cancel.notice .cancelled]
  | failed (h : t.status ≠ .cancelled) {error : String} (ho : a.outcome = .failure error)
    (hx : (t.ended w a).isExhausted = false) (hr : t.maxRetries ≤ t.retryCount) :
    Settles t w a now delay (t.ended w a) [(t.ended w a).notice a.verdict]
  | retries (h : t.status ≠ .cancelled) {error : String} (ho : a.outcome = .failure error)
    (hx : (t.ended w a).isExhausted = false) (hr : t.retryCount < t.maxRetries) :
    Settles t w a now delay ((t.ended w a).retry (now.add delay))
      [(t.ended w a).notice a.verdict, ((t.ended w a).retry (now.add delay)).notice .scheduled]

theorem ended_retryCount_of_failure (t : Task W) (w : W) {a : Attempt} {error : String}
    (h : a.outcome = .failure error) : (t.ended w a).retryCount = t.retryCount := by
  simp [ended_eq, h]

/-- An attempt settles a task in one of the listed ways. -/
theorem settles (t : Task W) (w : W) (a : Attempt) (now : Instant) (delay : Span) :
    t.Settles w a now delay (t.settle w a now delay).1 (t.settle w a now delay).2 := by
  rw [settle, record_eq]
  by_cases h : t.status = .cancelled
  · simp only [followUp?, ended_status_of_cancelled t w a h, if_true]
    exact .cancelled h
  · have hne : (t.ended w a).status ≠ .cancelled := fun hs =>
      h ((ended_status_eq_cancelled t w a).mp hs)
    simp only [followUp?, if_neg hne]
    cases ho : a.outcome with
    | success =>
      simp only [afterSuccess?, ended_recurrence, ended_executionCount]
      cases hr : t.recurrence with
      | none => exact .completed h ho hr
      | some p =>
        simp only [Option.map_some]
        cases hn : p.next? now (countUp t.executionCount) with
        | none => exact .expires h ho hr hn
        | some due => exact .recurs h ho hr hn
    | failure error =>
      simp only [afterFailure?, ended_maxRetries, ended_retryCount_of_failure t w ho]
      cases hx : (t.ended w a).isExhausted with
      | true => exact .exhausted h ho hx
      | false =>
        by_cases hr : t.maxRetries ≤ t.retryCount
        · simp only [hr, if_true]
          exact .failed h ho hx hr
        · simp only [hr, if_false]
          exact .retries h ho hx (UInt32.not_le.mp hr)

variable {t u : Task W} {w : W} {a : Attempt} {now : Instant} {delay : Span} {notices : List Notice}

/-- What an attempt does to a task in any case: the unit of work is back, one more attempt is
counted, and the task is still the same. -/
structure Attempted (t : Task W) (w : W) (u : Task W) : Prop where
  id : u.id = t.id
  priority : u.priority = t.priority
  work : u.work = some w
  recurrence : u.recurrence = t.recurrence
  maxRetries : u.maxRetries = t.maxRetries
  executionCount : u.executionCount = countUp t.executionCount

theorem Settles.attempted (h : t.Settles w a now delay u notices) : t.Attempted w u := by
  cases h <;> constructor <;> simp [schedule, retry, cancel]

/-- Every notice of an attempt is about the task. -/
theorem Settles.notices_id (h : t.Settles w a now delay u notices) :
    ∀ n ∈ notices, n.task.id = t.id := by
  cases h <;> simp [notice, schedule, retry, cancel]

end Task

end Timetable
