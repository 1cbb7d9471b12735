import Timetable.Scenario.Step

/-!
# Calls in place

The calls that change a scheduler in place, one part after the other, come to the same as the
operations that hand out a changed scheduler or the reason why there is none: what is refused has
changed nothing.
-/
namespace Timetable

variable {W α β : Type}

namespace Procedure

section

variable (p : Procedure W α) (s : Scheduler W)

/-- What follows goes on with the answer and with what has been left behind, if there
is an answer. -/
@[simp] theorem outcome_bind (next : α → Procedure W β) : (p >>= next).outcome s =
    match p.outcome s with
    | (.error e, s') => (.error e, s')
    | (.ok a, s') => (next a).outcome s' := by
  rw [outcome, ExceptT.run_bind, StateT.run_bind, Id.run_bind]
  unfold outcome
  cases (p.run.run s).run with
  | mk answer s' => cases answer <;> rfl

@[simp] theorem outcome_pure (a : α) : (pure a : Procedure W α).outcome s = (.ok a, s) := rfl

@[simp] theorem outcome_throw (e : SchedulerError) : (throw e : Procedure W α).outcome s =
    (.error e, s) := rfl

@[simp] theorem outcome_get : (get : Procedure W (Scheduler W)).outcome s = (.ok s, s) := rfl

@[simp] theorem outcome_modify (f : Scheduler W → Scheduler W) :
    (modify f : Procedure W PUnit).outcome s = (.ok ⟨⟩, f s) := rfl

@[simp] theorem outcome_modifyGet (f : Scheduler W → α × Scheduler W) :
    (modifyGet f : Procedure W α).outcome s = (.ok (f s).1, (f s).2) := rfl

@[simp] theorem outcome_map (f : α → β) :
    (f <$> p).outcome s = ((p.outcome s).1.map f, (p.outcome s).2) := by
  rw [map_eq_pure_bind, outcome_bind]
  cases p.outcome s with
  | mk answer s' => cases answer <;> rfl

end

/-! ## What they come to -/

variable (s : Scheduler W)

theorem outcome_enqueue (t : Task W) (due now : Instant) : (enqueue t due now).outcome s =
    match s.enqueue t due now with
    | .error e => (.error e, s)
    | .ok s' => (.ok t.id, s') := by
  cases haccepting : s.accepting with
  | false => simp [Scheduler.enqueue, enqueue, haccepting]
  | true =>
    cases hfault : t.fault? with
    | some fault => simp [Scheduler.enqueue, enqueue, haccepting, hfault]
    | none =>
      rw [Scheduler.enqueue, Scheduler.takeIn]
      cases hid : (s.task? t.id).isSome with
      | true => simp [enqueue, haccepting, hfault, hid]
      | false =>
        simp [enqueue, publish, haccepting, hfault, hid, Task.accept, Task.schedule, Except.map]

theorem outcome_schedule (o : Offer) (t : Task W) (asked now : Instant) :
    (schedule o t asked now).outcome s =
    match s.schedule o t asked now with
    | .error e => (.error e, s)
    | .ok s' => (.ok t.id, s') := by
  rw [Scheduler.schedule, schedule]
  cases o.due? t asked with
  | error cause => rfl
  | ok due => exact outcome_enqueue s t due now

theorem outcome_cancel (id : TaskId) : (cancel id).outcome s =
    match s.cancel? id with
    | none => (.ok false, s)
    | some s' => (.ok true, s') := by
  cases ht : s.task? id with
  | none => simp [Scheduler.cancel?, cancel, ht]
  | some t =>
    rw [Scheduler.cancel?, ht]
    cases hst : t.status <;> simp [cancel, publish, ht, hst, Status.isTerminal, Except.map]

theorem outcome_setRecurrenceEnabled (id : TaskId) (enabled : Bool) :
    (setRecurrenceEnabled id enabled).outcome s =
    match s.setRecurrenceEnabled? id enabled with
    | none => (.ok false, s)
    | some s' => (.ok true, s') := by
  cases ht : s.task? id with
  | none => simp [Scheduler.setRecurrenceEnabled?, setRecurrenceEnabled, ht]
  | some t =>
    rw [Scheduler.setRecurrenceEnabled?, ht]
    cases hp : t.recurrence <;> simp [setRecurrenceEnabled, ht, Snapshot.isRecurring,
      hp, Except.map]

theorem outcome_evict (id : TaskId) : (evict id).outcome s =
    match s.evict id with
    | .error e => (.error e, s)
    | .ok (last, s') => (.ok last, s') := by
  cases ht : s.task? id with
  | none => simp [Scheduler.evict, evict, ht]
  | some t =>
    rw [Scheduler.evict, ht]
    cases hst : t.status.isTerminal <;> simp [evict, ht, hst, Except.map]

/-- A scheduler is started once its pool is there; a scheduler that runs has one. -/
theorem outcome_start (now : Instant) : (start now).outcome s =
    match s.start now with
    | .error e => (.error e, s)
    | .ok s' =>
      if s.isRunning then (.ok none, s')
      else match Pool.create s.config.pool with
        | .error cause => (.error (.pool cause), s)
        | .ok pool => (.ok (some pool), s') := by
  rw [Scheduler.start]
  cases hl : s.lifecycle with
  | running => simp [start, hl, Scheduler.isRunning]
  | stopped => simp [start, hl]
  | created =>
    cases hpool : (Pool.create s.config.pool : Except PoolError (Pool (Job W))) with
    | error cause => simp [start, hl, hpool, Scheduler.isRunning]
    | ok pool => simp [start, hl, hpool, Scheduler.isRunning, Except.map]

theorem outcome_stop (now : Instant) (inTime : Bool) :
    (stop now inTime).outcome s = (.ok (!s.isRunning || inTime), s.stop now) := by
  by_cases hrun : s.lifecycle = .running <;>
    simp [stop, Scheduler.stop, Scheduler.isRunning, hrun, Except.map]

theorem outcome_tick (now : Instant) :
    (tick now).outcome s = (.ok (s.tick now).1, (s.tick now).2) := outcome_modifyGet ..

end Procedure

/-! ## Requests -/

/-- A call that may be refused. -/
inductive Request (W : Type) where
  | schedule (o : Offer) (t : Task W) (asked now : Instant)
  | cancel (id : TaskId)
  | switch (id : TaskId) (enabled : Bool)
  | evict (id : TaskId)
  | start (now : Instant)

namespace Request

/-- What the call does. The answer tells whether anything has come of it. -/
def procedure : Request W → Procedure W Bool
  | schedule o t asked now => (fun _ => true) <$> Procedure.schedule o t asked now
  | cancel id => Procedure.cancel id
  | switch id enabled => Procedure.setRecurrenceEnabled id enabled
  | evict id => (fun _ => true) <$> Procedure.evict id
  | start now => (fun _ => true) <$> Procedure.start now

/-- Whether the call is refused: with an error, or with the answer that nothing has come of it. -/
def Refused (r : Request W) (s : Scheduler W) : Prop := (r.procedure.outcome s).1 ≠ .ok true

/-- The scheduler after the call. -/
def after (r : Request W) (s : Scheduler W) : Scheduler W := (r.procedure.outcome s).2

/-- A call that is refused has changed nothing. -/
theorem after_of_refused {r : Request W} {s : Scheduler W} (h : r.Refused s) : r.after s = s := by
  unfold Refused at h
  unfold after
  cases r with
  | schedule o t asked now =>
    rw [procedure, Procedure.outcome_map, Procedure.outcome_schedule] at h ⊢
    cases hs : s.schedule o t asked now with
    | error e => rfl
    | ok s' => simp [hs, Except.map] at h
  | cancel id =>
    rw [procedure, Procedure.outcome_cancel] at h ⊢
    cases hs : s.cancel? id with
    | none => rfl
    | some s' => simp [hs] at h
  | switch id enabled =>
    rw [procedure, Procedure.outcome_setRecurrenceEnabled] at h ⊢
    cases hs : s.setRecurrenceEnabled? id enabled with
    | none => rfl
    | some s' => simp [hs] at h
  | evict id =>
    rw [procedure, Procedure.outcome_map, Procedure.outcome_evict] at h ⊢
    cases hs : s.evict id with
    | error e => rfl
    | ok found => simp [hs, Except.map] at h
  | start now =>
    rw [procedure, Procedure.outcome_map, Procedure.outcome_start] at h ⊢
    cases hs : s.start now with
    | error e => rfl
    | ok s' =>
      cases hrun : s.isRunning with
      | true => simp [hs, hrun, Except.map] at h
      | false =>
        cases hpool : (Pool.create s.config.pool : Except PoolError (Pool (Job W))) with
        | error cause => rfl
        | ok pool => simp [hs, hrun, hpool, Except.map] at h

end Request

/-! ## Calls of a session -/

namespace Scenario.Session

variable (s : Session) {origin : Origin} {c : Call}

theorem accept_eq (t : TaskScript Call) (o : Offer) : s.accept origin c t o =
    match (s.build t).2.scheduler.schedule o (s.build t).1 s.clock s.clock with
    | .error e => ((s.build t).2, [.reply origin c (.refused e)])
    | .ok scheduler =>
      ({ (s.build t).2 with scheduler }, delivered origin c (.task (s.build t).1.id)) := by
  simp only [accept, build, serve, Procedure.outcome_schedule]
  generalize Scheduler.schedule _ _ _ _ _ = after
  cases after <;> rfl

theorem perform_cancel (label : String) : s.perform origin (.cancel label) =
    match s.scheduler.cancel? (s.labels.resolve label).1 with
    | none =>
      ({ s with labels := (s.labels.resolve label).2 },
        [.reply origin (.cancel label) (.flag false)])
    | some scheduler => ({ s with labels := (s.labels.resolve label).2, scheduler },
        delivered origin (.cancel label) (.flag true)) := by
  simp only [perform, serve, Procedure.outcome_cancel]
  cases s.scheduler.cancel? (s.labels.resolve label).1 <;> rfl

theorem perform_evict (label : String) : s.perform origin (.evict label) =
    match s.scheduler.evict (s.labels.resolve label).1 with
    | .error e =>
      ({ s with labels := (s.labels.resolve label).2 }, [.reply origin (.evict label) (.refused e)])
    | .ok (last, scheduler) => ({ s with labels := (s.labels.resolve label).2, scheduler },
        [.reply origin (.evict label) (.snapshot last)]) := by
  simp only [perform, serve, Procedure.outcome_evict]
  cases s.scheduler.evict (s.labels.resolve label).1 <;> rfl

theorem perform_setRecurrence (label : String) (enabled : Bool) :
    s.perform origin (.setRecurrence label enabled) =
    match s.scheduler.setRecurrenceEnabled? (s.labels.resolve label).1 enabled with
    | none => ({ s with labels := (s.labels.resolve label).2 },
        [.reply origin (.setRecurrence label enabled) (.flag false)])
    | some scheduler => ({ s with labels := (s.labels.resolve label).2, scheduler },
        [.reply origin (.setRecurrence label enabled) (.flag true)]) := by
  simp only [perform, serve, Procedure.outcome_setRecurrenceEnabled]
  cases s.scheduler.setRecurrenceEnabled? (s.labels.resolve label).1 enabled <;> rfl

theorem perform_tick : s.perform origin .tick =
    if s.scheduler.isRunning && s.scheduler.dispatching then
      ({ s with scheduler := (s.scheduler.claimDue s.clock).2 },
        .errand .deliver :: (s.scheduler.claimDue s.clock).1.map .submit ++
          [.reply origin .tick (.count (s.scheduler.claimDue s.clock).1.length)])
    else (s, [.reply origin .tick (.count 0)]) := by
  simp only [perform, serve, Procedure.outcome_tick, Scheduler.tick]
  cases s.scheduler.isRunning && s.scheduler.dispatching <;> rfl

theorem perform_start : s.perform origin .start =
    match s.scheduler.start s.clock with
    | .error e => (s, [.reply origin .start (.refused e)])
    | .ok scheduler =>
      if s.scheduler.isRunning then (s, [.reply origin .start .nothing])
      else match (Pool.create s.scheduler.config.pool : Except PoolError (Pool (Job Work))) with
        | .error cause => (s, [.reply origin .start (.refused (.pool cause))])
        | .ok pool =>
          ({ s with scheduler, pool := some pool }, [.reply origin .start .nothing]) := by
  simp only [perform, serve, Procedure.outcome_start, Scheduler.start]
  cases hl : s.scheduler.lifecycle with
  | running => simp [hl, Scheduler.isRunning]
  | stopped => rfl
  | created =>
    cases (Pool.create s.scheduler.config.pool : Except PoolError (Pool (Job Work))) <;>
      simp [hl, Scheduler.isRunning]

theorem perform_stop : s.perform origin .stop =
    ({ s with scheduler := s.scheduler.stop s.clock },
      if s.scheduler.isRunning then s.shutDown origin .stop
        else [.reply origin .stop (.flag true)]) := by
  simp only [perform, serve, Procedure.outcome_stop]
  cases s.scheduler.isRunning <;> rfl

end Scenario.Session

end Timetable
