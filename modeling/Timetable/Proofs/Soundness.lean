import Timetable.Proofs.Life

/-!
# Reachable worlds are sound

Every step in the life of a task keeps the life sound, and every section keeps the scheduler
coherent; so every world that a new scheduler can get into is sound.
-/
namespace Timetable

variable {W : Type}

namespace Task

variable {t u : Task W} {w : W}

theorem standing_of_isNew (new : t.IsNew) (now : Instant) (sequence : Nat) (due : Instant) :
    ((t.accept now sequence).schedule due).Standing where
  accepted := by simp [schedule]
  planned := by simp [schedule]
  dated := fun _ => rfl
  running := by simp [schedule]
  resting := fun _ => new.armed

theorem Standing.claimed (h : t.Standing) (hs : t.status = .scheduled) : t.claimed.Standing where
  accepted := by simp [Task.claimed]
  planned := by simpa [Task.claimed, hs] using h.planned
  dated := h.dated
  running := fun _ => rfl
  resting := by simp [Task.claimed]

/-- A task without a due time ahead that holds its unit of work. -/
theorem standing_of_terminal (hs : t.status.isTerminal) (hn : t.nextExecution = none)
    (hw : t.work.isSome) : t.Standing where
  accepted := by
    intro e
    rw [e] at hs
    cases hs
  planned := by
    rw [hn]
    constructor
    · intro e; cases e
    · rintro (e | e) <;> rw [e] at hs <;> cases hs
  dated := by simp [hn]
  running := by
    intro e
    rw [e] at hs
    cases hs
  resting := fun _ => hw

theorem standing_schedule (t : Task W) (due : Instant) (hw : t.work.isSome) :
    (t.schedule due).Standing where
  accepted := by simp [schedule]
  planned := by simp [schedule]
  dated := fun _ => rfl
  running := by simp [schedule]
  resting := fun _ => hw

theorem Standing.nextExecution_of_terminal (h : t.Standing) (hs : t.status.isTerminal) :
    t.nextExecution = none := by
  have hp := h.planned
  cases hst : t.status <;> simp [hst, Status.isTerminal] at hs hp <;> exact hp

/-- A task after an attempt stands well, whatever it had been. -/
theorem Settles.standing {a : Attempt} {now : Instant} {delay : Span} {notices : List Notice}
    (h : t.Settles w a now delay u notices) (ht : t.Standing) : u.Standing := by
  have hw : (t.ended w a).work.isSome := by simp
  cases h with
  | cancelled hs =>
    refine standing_of_terminal (ended_isTerminal t w a) ?_ hw
    rw [ended_nextExecution_of_cancelled t w a hs]
    exact ht.nextExecution_of_terminal (by rw [hs]; rfl)
  | completed hs =>
    exact standing_of_terminal (ended_isTerminal t w a) (ended_nextExecution t w a hs) hw
  | failed hs =>
    exact standing_of_terminal (ended_isTerminal t w a) (ended_nextExecution t w a hs) hw
  | recurs => exact standing_schedule _ _ hw
  | expires => exact standing_of_terminal rfl rfl hw
  | exhausted => exact standing_of_terminal rfl rfl hw
  | retries => exact standing_schedule _ _ hw

theorem Standing.handBack (h : t.Standing) (hs : t.status = .running ∨ t.status = .cancelled)
    (w : W) (now : Instant) : (t.handBack w now).Standing := by
  unfold Task.handBack
  split
  · exact standing_schedule _ _ rfl
  · rename_i hrun
    have hc := hs.resolve_left hrun
    have hterm : t.status.isTerminal := by rw [hc]; rfl
    exact standing_of_terminal hterm (h.nextExecution_of_terminal hterm) rfl

@[simp] theorem work_handBack (t : Task W) (w : W) (now : Instant) :
    (t.handBack w now).work = some w := by
  unfold Task.handBack
  split <;> rfl

theorem recurrence_handBack (t : Task W) (w : W) (now : Instant) :
    (t.handBack w now).recurrence = t.recurrence := by
  unfold Task.handBack
  split <;> rfl

theorem executionCount_handBack (t : Task W) (w : W) (now : Instant) :
    (t.handBack w now).executionCount = t.executionCount := by
  unfold Task.handBack
  split <;> rfl

theorem handBack_of_ne (h : t.status ≠ .running) (w : W) (now : Instant) :
    t.handBack w now = t.giveBack w := if_neg h

theorem Standing.cancel (t : Task W) : t.cancel.Standing where
  accepted := by simp [Task.cancel]
  planned := by simp [Task.cancel]
  dated := by simp [Task.cancel]
  running := by simp [Task.cancel]
  resting := by simp [Task.cancel]

theorem Standing.switch (h : t.Standing) (enabled : Bool) : (t.switch enabled).Standing :=
  ⟨h.accepted, h.planned, h.dated, h.running, h.resting⟩

/-- A task whose unit of work is out runs, or was cancelled while it ran. -/
theorem Standing.status_of_work_eq_none (h : t.Standing) (hw : t.work = none) :
    t.status = .running ∨ t.status = .cancelled := by
  have hr := h.resting
  rw [hw] at hr
  have ha := h.accepted
  cases hs : t.status <;> simp [hs] at hr ha ⊢

end Task

/-- Around the only element of a list there is nothing. -/
theorem eq_nil_of_length_le_one {α : Type} {l before after : List α} {a : α}
    (h : l = before ++ a :: after) (hl : l.length ≤ 1) : before = [] ∧ after = [] := by
  rw [h, List.length_append, List.length_cons] at hl
  exact ⟨List.eq_nil_of_length_eq_zero (by omega), List.eq_nil_of_length_eq_zero (by omega)⟩

namespace Life

variable {l l' : Life W} {delay : Span} {id : TaskId} {d : Deed W}

theorem Sound.jobs_eq_nil {before after : List (Dispatch W)} {x : Dispatch W} (hl : l.Sound)
    (h : l.jobs = before ++ x :: after) : before = [] ∧ after = [] :=
  eq_nil_of_length_le_one h hl.single

/-- While a job is out, its task runs or was cancelled. -/
theorem Sound.status_of_job {before after : List (Dispatch W)} {x : Dispatch W} {t : Task W}
    (hl : l.Sound) (h : l.jobs = before ++ x :: after) (ht : l.task = some t) :
    t.work = none ∧ (t.status = .running ∨ t.status = .cancelled) := by
  have hw : t.work = none := by
    by_contra hne
    have := (hl.held t ht).mp (Option.isSome_iff_ne_none.mpr hne)
    rw [h] at this
    simp at this
  exact ⟨hw, (hl.standing t ht).status_of_work_eq_none hw⟩

theorem Sound.admitted {t : Task W} (hl : l.Sound) (ht : l.task = some t) : l.admission ≠ none :=
  fun e => by
    rw [hl.unseen e] at ht
    cases ht

theorem Sound.admitted_of_job {before after : List (Dispatch W)} {x : Dispatch W} (hl : l.Sound)
    (h : l.jobs = before ++ x :: after) : l.admission ≠ none :=
  fun e => by
    rw [hl.unseen e] at h
    simp at h

/-- Every step in the life of a task keeps the life sound. -/
theorem Step.sound (h : Step delay id l d l') (hl : l.Sound) : l'.Sound := by
  cases h with
  | aside => exact hl
  | accept sequence hid new unseen =>
    refine ⟨by simp, hl.single, ?_, ?_⟩
    · intro u hu
      obtain rfl := Option.some.inj hu
      exact iff_of_true new.armed (by rw [hl.unseen unseen])
    · intro u hu
      obtain rfl := Option.some.inj hu
      exact Task.standing_of_isNew new _ _ _
  | claim ht hst hw =>
    have hjobs : l.jobs = [] := (hl.held _ ht).mp (by simp [hw])
    refine ⟨fun e => absurd e (hl.admitted ht), by simp [hjobs], ?_, ?_⟩
    · intro u hu
      obtain rfl := Option.some.inj hu
      simp [Task.claimed]
    · intro u hu
      obtain rfl := Option.some.inj hu
      exact (hl.standing _ ht).claimed hst
  | attempt hid hjobs =>
    obtain ⟨rfl, rfl⟩ := hl.jobs_eq_nil hjobs
    refine ⟨fun e => absurd e (hl.admitted_of_job hjobs), by simp, ?_, hl.standing⟩
    intro t ht
    have hw := (hl.status_of_job hjobs ht).1
    simp [hw]
  | finish hid hjobs ht hs =>
    obtain ⟨rfl, rfl⟩ := hl.jobs_eq_nil hjobs
    refine ⟨fun e => absurd e (hl.admitted ht), by simp, ?_, ?_⟩
    · intro u hu
      obtain rfl := Option.some.inj hu
      simp [hs.attempted.work]
    · intro u hu
      obtain rfl := Option.some.inj hu
      exact hs.standing (hl.standing _ ht)
  | finishGone hid hjobs ht =>
    obtain ⟨rfl, rfl⟩ := hl.jobs_eq_nil hjobs
    exact ⟨fun e => absurd e (hl.admitted_of_job hjobs), by simp, by simp, by simp⟩
  | @abandon before after job t now hid hjobs ht =>
    obtain ⟨rfl, rfl⟩ := hl.jobs_eq_nil hjobs
    refine ⟨fun e => absurd e (hl.admitted ht), by simp, ?_, ?_⟩
    · intro u hu
      obtain rfl := Option.some.inj hu
      simp
    · intro u hu
      obtain rfl := Option.some.inj hu
      exact (hl.standing _ ht).handBack (hl.status_of_job hjobs ht).2 _ _
  | abandonGone hid hjobs ht =>
    obtain ⟨rfl, rfl⟩ := hl.jobs_eq_nil hjobs
    exact ⟨fun e => absurd e (hl.admitted_of_job hjobs), by simp, by simp, by simp⟩
  | @cancel t ht hterm =>
    refine ⟨fun e => absurd e (hl.admitted ht), hl.single, ?_, ?_⟩
    · intro u hu
      obtain rfl := Option.some.inj hu
      exact hl.held t ht
    · intro u hu
      obtain rfl := Option.some.inj hu
      exact Task.Standing.cancel t
  | @switch t ht hrec enabled =>
    refine ⟨fun e => absurd e (hl.admitted ht), hl.single, ?_, ?_⟩
    · intro u hu
      obtain rfl := Option.some.inj hu
      exact hl.held t ht
    · intro u hu
      obtain rfl := Option.some.inj hu
      exact (hl.standing t ht).switch enabled
  | evict ht =>
    exact ⟨fun e => absurd e (hl.admitted ht), hl.single, by simp, by simp⟩

end Life

theorem Scheduler.create_eq_ok {c : Config} {s : Scheduler W} (h : Scheduler.create c = .ok s) :
    s = { config := c } := by
  unfold Scheduler.create at h
  split at h
  · cases h
  · exact (Except.ok.inj h).symm

namespace World

variable {w w' : World W} {d : Deed W}

theorem Sound.fresh {c : Config} {s : Scheduler W} (h : Scheduler.create c = .ok s) :
    (World.fresh s).Sound := by
  obtain rfl := Scheduler.create_eq_ok h
  refine ⟨⟨List.nodup_nil, ReadyQueue.consistent_empty, fun _ => rfl⟩, fun id => ?_⟩
  have hlife : (World.fresh ({ config := c } : Scheduler W)).life id = {} := rfl
  rw [hlife]
  exact ⟨fun _ => rfl, Nat.zero_le _, by simp, by simp⟩

/-- The task of a job that is out does not wait in the queue. -/
theorem Sound.status_of_job {before after : List (Dispatch W)} {x : Dispatch W} (hw : w.Sound)
    (h : w.jobs = before ++ x :: after) {t : Task W} (ht : w.scheduler.task? x.job.id = some t) :
    t.status ≠ .scheduled := by
  have hs := ((hw.lives x.job.id).status_of_job (jobs_of_eq h rfl) ht).2
  rcases hs with hs | hs <;> rw [hs] <;> decide

theorem Step.coherent (h : Step w d w') (hw : w.Sound) : w'.scheduler.Coherent := by
  cases h with
  | accept _ _ _ _ h => exact hw.coherent.takeIn h
  | claim now => exact hw.coherent.claimDue hw.armed now
  | attempt => exact hw.coherent
  | @finish before after job a h work now =>
    exact hw.coherent.finish { job with work } (fun t ht => hw.status_of_job h ht) a now
  | abandon h now => exact hw.coherent.abandon _ now
  | cancel h => exact hw.coherent.cancel h
  | switch h => exact hw.coherent.switch h
  | evict h => exact hw.coherent.evict h
  | start h =>
    obtain ⟨_, _, _, rfl⟩ := Scheduler.start_eq_ok h
    exact ⟨hw.coherent.once, hw.coherent.views, hw.coherent.queued⟩
  | stop now => exact ⟨hw.coherent.once, hw.coherent.views, hw.coherent.queued⟩
  | deliver h => exact ⟨hw.coherent.once, hw.coherent.views, hw.coherent.queued⟩

theorem Step.sound (h : Step w d w') (hw : w.Sound) : w'.Sound :=
  ⟨h.coherent hw, fun id => (h.life hw id).sound (hw.lives id)⟩

/-- Every world that a new scheduler can get into is sound. -/
theorem Reachable.sound (h : w.Reachable) : w.Sound :=
  h.induction (fun _ _ hs => .fresh hs) fun _ _ _ _ step hw => step.sound hw

/-- The settings stay. -/
theorem Step.config (h : Step w d w') (hw : w.Sound) :
    w'.scheduler.config = w.scheduler.config := by
  cases h with
  | accept _ _ _ _ h =>
    obtain ⟨-, rfl⟩ := Scheduler.takeIn_eq_ok h
    rfl
  | claim now =>
    have hs := congrArg Scheduler.config (hw.coherent.claimDue_eq hw.armed now).2.1
    exact hs
  | attempt | stop | deliver => rfl
  | @finish before after job a h work now =>
    cases ht : w.scheduler.task? job.id with
    | none => rw [Scheduler.finish_of_none { job with work } ht]; rfl
    | some t => rw [Scheduler.finish_of_some { job with work } ht]; rfl
  | @abandon before after job h now =>
    cases ht : w.scheduler.task? job.id with
    | none => rw [Scheduler.abandon_of_none ht]; rfl
    | some t =>
      rw [Scheduler.abandon_of_some ht]
      split <;> rfl
  | cancel h =>
    obtain ⟨t, -, -, rfl⟩ := Scheduler.cancel?_eq_some h
    rfl
  | switch h =>
    obtain ⟨t, -, -, rfl⟩ := Scheduler.setRecurrenceEnabled?_eq_some h
    rfl
  | evict h =>
    obtain ⟨t, -, -, -, rfl⟩ := Scheduler.evict_eq_ok h
    rfl
  | start h =>
    obtain ⟨_, _, _, rfl⟩ := Scheduler.start_eq_ok h
    rfl

/-- No identifier is accepted twice. -/
theorem Reachable.accepted_once (hw : w.Reachable) :
    (w.accepted.map fun a => a.task.id).Nodup := by
  refine hw.induction (motive := fun w => (w.accepted.map fun a => a.task.id).Nodup)
    (fun _ _ _ => List.nodup_nil) fun w d w' _ h ih => ?_
  cases h with
  | accept new unseen =>
    rw [List.map_append]
    refine List.nodup_append.mpr ⟨ih, List.nodup_singleton _, ?_⟩
    intro a ha b hb
    obtain ⟨x, hx, rfl⟩ := List.mem_map.mp ha
    rw [List.map_singleton, List.mem_singleton] at hb
    exact hb ▸ unseen x hx
  | _ => exact ih

end World

end Timetable
