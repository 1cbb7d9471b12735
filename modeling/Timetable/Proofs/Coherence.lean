import Timetable.Proofs.Attempt
import Timetable.Proofs.ReadyQueue
import Timetable.Scheduler

/-!
# The index and the ready queue

A scheduler is coherent when its index holds a task once and its ready queue holds exactly the tasks
that wait, under their priorities and due times. This module says what each section under the lock
does to the task and to the queue entry of one identifier, and that each section keeps the scheduler
coherent.
-/
namespace Timetable

variable {W : Type}

/-- What the task waits under, while it waits. -/
def Task.waiting? (t : Task W) : Option Waiting :=
  t.due?.map fun due => { id := t.id, priority := t.priority, due := some due }

theorem Task.waiting?_of_ne {t : Task W} (h : t.status ≠ .scheduled) : t.waiting? = none := by
  simp [waiting?, due?, h]

theorem Outbox.publish_publish (o : Outbox) (a b : List Notice) :
    (o.publish a).publish b = o.publish (a ++ b) := by
  simp [publish, Nat.add_assoc]

@[simp] theorem Outbox.publish_nil (o : Outbox) : o.publish [] = o := by
  simp [publish]

namespace Scheduler

/-- The index holds a task once, and what waits in the queue are the tasks that wait. -/
structure Coherent (s : Scheduler W) : Prop where
  once : (s.tasks.map fun t => t.id).Nodup
  views : s.queue.Consistent
  queued : ∀ id, s.queue.waiting? id = (s.task? id).bind Task.waiting?

variable {s s' : Scheduler W} {id : TaskId} {t : Task W}

theorem id_of_task? (h : s.task? id = some t) : t.id = id := by
  simpa using List.find?_some h

/-! ## Changing one task of the index -/

theorem find?_replace (tasks : List (Task W)) (t : Task W) (id : TaskId) :
    (replace tasks t).find? (fun u => u.id = id) =
      if id = t.id then (tasks.find? fun u => u.id = id).map fun _ => t
      else tasks.find? fun u => u.id = id := by
  induction tasks with
  | nil => simp [replace]
  | cons u tasks ih =>
    rw [replace, List.map_cons, List.find?_cons, List.find?_cons]
    by_cases hu : u.id = t.id <;> by_cases hid : id = t.id
    · simp [hu, hid]
    · have hti : t.id ≠ id := fun e => hid e.symm
      simpa [hu, hid, hti, replace] using ih
    · subst hid
      simpa [hu, replace] using ih
    · by_cases hui : u.id = id
      · simp [hid, hui]
      · simpa [hu, hid, hui, replace] using ih

theorem ids_replace (tasks : List (Task W)) (t : Task W) :
    (replace tasks t).map (fun u => u.id) = tasks.map fun u => u.id := by
  rw [replace, List.map_map]
  refine List.map_congr_left fun u _ => ?_
  simp only [Function.comp_apply]
  split
  · rename_i h; exact h.symm
  · rfl

/-- The index with one task changed. -/
theorem task?_of_replace (h : s.task? id = some t) {f : Task W → Task W} (hid : (f t).id = t.id)
    (htasks : s'.tasks = Scheduler.replace s.tasks (f t)) (other : TaskId) :
    s'.task? other = if other = id then (s.task? other).map f else s.task? other := by
  rw [task?, htasks, find?_replace, hid, id_of_task? h, ← task?]
  split
  · subst other
    rw [h, Option.map_some, Option.map_some]
  · rfl

/-- An entry of the queue stands for a task that waits. -/
theorem Coherent.task_of_entry (h : s.Coherent) {e : QueueEntry}
    (he : s.queue.entryOf? id = some e) :
    ∃ t, s.task? id = some t ∧ t.status = .scheduled ∧ e.priority = t.priority ∧
      e.due = t.nextExecution ∧ e.due.isSome := by
  have hq := h.queued id
  rw [ReadyQueue.waiting?, he, Option.map_some] at hq
  obtain ⟨t, ht, hw⟩ := Option.bind_eq_some_iff.mp hq.symm
  obtain ⟨due, hd, hwait⟩ := Option.map_eq_some_iff.mp hw
  have hst : t.status = .scheduled := by
    by_contra hne
    simp [Task.due?, hne] at hd
  have hnext : t.nextExecution = some due := by simpa [Task.due?, hst] using hd
  have hdue : e.due = some due := (congrArg Waiting.due hwait).symm
  have hpriority : e.priority = t.priority := (congrArg Waiting.priority hwait).symm
  exact ⟨t, ht, hst, hpriority, hdue.trans hnext.symm, by simp [hdue]⟩

/-- A section that changes one task and leaves its place in the queue alone. -/
theorem Coherent.replace (h : s.Coherent) {u : Task W} (ht : s.task? u.id = some t)
    (hw : u.waiting? = t.waiting?) (htasks : s'.tasks = Scheduler.replace s.tasks u)
    (hqueue : s'.queue = s.queue) : s'.Coherent where
  once := by rw [htasks, ids_replace]; exact h.once
  views := hqueue ▸ h.views
  queued := by
    intro id
    rw [hqueue, task?, htasks, find?_replace, h.queued]
    split
    · subst id
      rw [ht, ← task?, ht, Option.map_some, Option.bind_some, Option.bind_some, hw]
    · rfl

/-! ## Putting a task back -/

theorem task?_put (s : Scheduler W) (u : Task W) (notices : List Notice) (id : TaskId) :
    (s.put u notices).task? id =
      if id = u.id then (s.task? id).map fun _ => u else s.task? id := find?_replace s.tasks u id

theorem outbox_put (s : Scheduler W) (u : Task W) (notices : List Notice) :
    (s.put u notices).outbox = s.outbox.publish notices := rfl

/-- A task that did not wait takes its place in the queue if it waits from now on. -/
theorem Coherent.put (h : s.Coherent) {u : Task W} (ht : s.task? u.id = some t)
    (hw : t.waiting? = none) (notices : List Notice) : (s.put u notices).Coherent := by
  have hfree : s.queue.waiting? u.id = none := by rw [h.queued, ht, Option.bind_some, hw]
  refine ⟨by rw [Scheduler.put, ids_replace]; exact h.once, ?_, ?_⟩
  · rw [Scheduler.put]
    cases u.due? with
    | none => exact h.views
    | some due => exact h.views.insert _ _ _
  · intro id
    rw [task?_put, Scheduler.put]
    by_cases hid : id = u.id
    · subst hid
      rw [if_pos rfl, ht, Option.map_some, Option.bind_some, Task.waiting?]
      cases u.due? with
      | none => exact hfree
      | some due =>
        simp only [h.views.waiting?_insert, if_true, Option.map_some]
    · rw [if_neg hid, ← h.queued]
      cases u.due? with
      | none => rfl
      | some due => simp only [h.views.waiting?_insert, if_neg hid]

/-! ## Taking a task in -/

/-- What taking a task in does, when it succeeds. -/
theorem takeIn_eq_ok {due now : Instant} (h : s.takeIn t due now = .ok s') :
    s.task? t.id = none ∧
      s' = { s with
        tasks := s.tasks ++ [(t.accept now s.nextSequence).schedule due]
        queue := (s.queue.insert t.id t.priority (some due)).2
        outbox := s.outbox.publish [((t.accept now s.nextSequence).schedule due).notice .scheduled]
        nextSequence := s.nextSequence + 1 } := by
  unfold takeIn at h
  split at h
  · cases h
  · rename_i hnone
    exact ⟨by simpa using hnone, (Except.ok.inj h).symm⟩

/-- An offer that is accepted is a valid task, taken in while the scheduler accepts tasks. -/
theorem schedule_eq_ok {o : Offer} {asked now : Instant} (h : s.schedule o t asked now = .ok s') :
    s.accepting ∧ t.fault? = none ∧
      ∃ due, o.due? t asked = .ok due ∧ s.takeIn t due now = .ok s' := by
  unfold schedule at h
  split at h
  · cases h
  · rename_i due hdue
    unfold enqueue at h
    split at h
    · cases h
    · rename_i haccepting
      split at h
      · cases h
      · rename_i hfault
        exact ⟨by simpa using haccepting, hfault, due, hdue, h⟩

theorem task?_takeIn {due now : Instant} (h : s.takeIn t due now = .ok s') (id : TaskId) :
    s'.task? id =
      if id = t.id then some ((t.accept now s.nextSequence).schedule due) else s.task? id := by
  obtain ⟨hnone, rfl⟩ := takeIn_eq_ok h
  have hid : ((t.accept now s.nextSequence).schedule due).id = t.id := rfl
  simp only [task?, List.find?_append, List.find?_singleton, hid] at hnone ⊢
  by_cases h : id = t.id
  · subst h
    simp [hnone]
  · have : t.id ≠ id := fun e => h e.symm
    simp [h, this]

theorem Coherent.takeIn (hs : s.Coherent) {due now : Instant} (h : s.takeIn t due now = .ok s') :
    s'.Coherent := by
  have htask := task?_takeIn h
  obtain ⟨hnone, rfl⟩ := takeIn_eq_ok h
  refine ⟨?_, hs.views.insert _ _ _, ?_⟩
  · rw [List.map_append]
    refine List.nodup_append.mpr ⟨hs.once, List.nodup_singleton _, ?_⟩
    intro a ha b hb hab
    obtain ⟨u, hu, rfl⟩ := List.mem_map.mp ha
    have hub : u.id = t.id := by
      rw [hab, List.map_singleton, List.mem_singleton] at *
      exact hb
    exact absurd (decide_eq_true hub) (List.find?_eq_none.mp hnone u hu)
  · intro id
    rw [htask, hs.views.waiting?_insert, hs.queued]
    split
    · subst id
      rfl
    · rfl

/-! ## After an attempt -/

/-- The scheduler with one attempt less in flight, and one more in its metrics. -/
def counted (s : Scheduler W) (a : Attempt) : Scheduler W :=
  { s with
    inFlight := s.inFlight - 1
    metrics := s.metrics.record a.duration (decide (a.outcome = Outcome.success)) }

theorem finish_of_none (job : Job W) (h : s.task? job.id = none) (a : Attempt) (now : Instant) :
    s.finish job a now = s.counted a := by
  have h' : (s.counted a).task? job.id = none := h
  simp only [counted] at h'
  simp only [finish, h', counted]

theorem finish_of_some (job : Job W) (h : s.task? job.id = some t) (a : Attempt) (now : Instant) :
    s.finish job a now = (s.counted a).put (t.settle job.work a now s.config.retryDelay).1
      (t.settle job.work a now s.config.retryDelay).2 := by
  have h' : (s.counted a).task? job.id = some t := h
  simp only [counted] at h'
  simp only [finish, h', counted]

/-- The index after an attempt: only the task of the job is another. -/
theorem task?_finish (s : Scheduler W) (job : Job W) (a : Attempt) (now : Instant) (id : TaskId) :
    (s.finish job a now).task? id =
      if id = job.id then
        (s.task? id).map fun t => (t.settle job.work a now s.config.retryDelay).1
      else s.task? id := by
  cases h : s.task? job.id with
  | none =>
    rw [finish_of_none job h]
    split
    · subst id
      rw [h]
      exact h
    · rfl
  | some t =>
    have hid := (t.settles job.work a now s.config.retryDelay).attempted.id
    refine task?_of_replace h
      (f := fun t => (t.settle job.work a now s.config.retryDelay).1) hid ?_ id
    rw [finish_of_some job h]
    rfl

theorem outbox_finish (s : Scheduler W) (job : Job W) (a : Attempt) (now : Instant) :
    ∃ notices, (s.finish job a now).outbox = s.outbox.publish notices := by
  cases h : s.task? job.id with
  | none => exact ⟨[], by rw [finish_of_none job h, Outbox.publish_nil]; rfl⟩
  | some t => exact ⟨_, by rw [finish_of_some job h, outbox_put]; rfl⟩

theorem Coherent.counted (h : s.Coherent) (a : Attempt) : (s.counted a).Coherent :=
  ⟨h.once, h.views, h.queued⟩

theorem Coherent.finish (h : s.Coherent) (job : Job W)
    (hw : ∀ t, s.task? job.id = some t → t.status ≠ .scheduled) (a : Attempt) (now : Instant) :
    (s.finish job a now).Coherent := by
  cases ht : s.task? job.id with
  | none => rw [finish_of_none job ht]; exact h.counted a
  | some t =>
    have hid := (t.settles job.work a now s.config.retryDelay).attempted.id
    rw [finish_of_some job ht]
    refine (h.counted a).put (t := t) ?_ (Task.waiting?_of_ne (hw t ht)) _
    rw [hid, id_of_task? ht]
    exact ht

/-! ## Handing a job back -/

/-- The scheduler with one attempt less in flight. -/
def released (s : Scheduler W) : Scheduler W := { s with inFlight := s.inFlight - 1 }

theorem abandon_of_none {job : Job W} (h : s.task? job.id = none) (now : Instant) :
    s.abandon job now = s.released := by
  have h' : s.released.task? job.id = none := h
  simp only [released] at h'
  simp only [abandon, h', released]

theorem abandon_of_some {job : Job W} (h : s.task? job.id = some t) (now : Instant) :
    s.abandon job now =
      if t.status = .running then s.released.put (t.handBack job.work now) []
      else { s.released with tasks := replace s.tasks (t.handBack job.work now) } := by
  have h' : s.released.task? job.id = some t := h
  simp only [released] at h'
  simp only [abandon, h', released]

theorem id_handBack (t : Task W) (w : W) (now : Instant) : (t.handBack w now).id = t.id := by
  unfold Task.handBack
  split <;> rfl

theorem waiting?_handBack {t : Task W} (h : t.status ≠ .running) (w : W) (now : Instant) :
    (t.handBack w now).waiting? = t.waiting? := by
  rw [Task.handBack, if_neg h]
  rfl

theorem task?_abandon (s : Scheduler W) (job : Job W) (now : Instant) (id : TaskId) :
    (s.abandon job now).task? id =
      if id = job.id then (s.task? id).map fun t => t.handBack job.work now else s.task? id := by
  cases h : s.task? job.id with
  | none =>
    rw [abandon_of_none h]
    split
    · subst id
      rw [h]
      exact h
    · rfl
  | some t =>
    refine task?_of_replace h (f := fun t => t.handBack job.work now) (id_handBack t _ _) ?_ id
    rw [abandon_of_some h]
    split <;> rfl

theorem outbox_abandon (s : Scheduler W) (job : Job W) (now : Instant) :
    (s.abandon job now).outbox = s.outbox := by
  cases ht : s.task? job.id with
  | none => rw [abandon_of_none ht]; rfl
  | some t =>
    rw [abandon_of_some ht]
    split
    · rw [outbox_put]
      exact Outbox.publish_nil _
    · rfl

theorem Coherent.abandon (h : s.Coherent) (job : Job W) (now : Instant) :
    (s.abandon job now).Coherent := by
  have hreleased : s.released.Coherent := ⟨h.once, h.views, h.queued⟩
  cases ht : s.task? job.id with
  | none => rw [abandon_of_none ht]; exact hreleased
  | some t =>
    have hid : (t.handBack job.work now).id = job.id := (id_handBack t _ _).trans (id_of_task? ht)
    have htask : s.released.task? (t.handBack job.work now).id = some t := by rw [hid]; exact ht
    rw [abandon_of_some ht]
    split
    · rename_i hrun
      exact hreleased.put htask (Task.waiting?_of_ne (by rw [hrun]; decide)) _
    · rename_i hrun
      exact hreleased.replace htask (waiting?_handBack hrun _ _) rfl rfl

/-! ## Cancelling, switching and evicting -/

theorem cancel?_eq_some (h : s.cancel? id = some s') :
    ∃ t, s.task? id = some t ∧ t.status.isTerminal = false ∧
      s' = { s with
        tasks := replace s.tasks t.cancel
        queue := if t.status = .running then s.queue else (s.queue.remove id).2
        outbox := s.outbox.publish [t.cancel.notice .cancelled] } := by
  unfold cancel? at h
  split at h
  · cases h
  · rename_i t ht
    split at h
    · cases h
    · rename_i hterm
      exact ⟨t, ht, by simpa using hterm, (Option.some.inj h).symm⟩

theorem task?_cancel (h : s.cancel? id = some s') (other : TaskId) :
    s'.task? other = if other = id then (s.task? other).map Task.cancel else s.task? other := by
  obtain ⟨t, ht, -, rfl⟩ := cancel?_eq_some h
  exact task?_of_replace ht (f := Task.cancel) rfl rfl other

theorem Coherent.cancel (hs : s.Coherent) (h : s.cancel? id = some s') : s'.Coherent := by
  have htask := task?_cancel h
  obtain ⟨t, ht, -, rfl⟩ := cancel?_eq_some h
  have hcancel : t.cancel.waiting? = none := Task.waiting?_of_ne (by simp [Task.cancel])
  refine ⟨by rw [ids_replace]; exact hs.once, ?_, ?_⟩
  · split
    · exact hs.views
    · exact hs.views.remove id
  · intro other
    rw [htask]
    by_cases ho : other = id
    · subst ho
      rw [if_pos rfl, ht, Option.map_some, Option.bind_some, hcancel]
      split
      · rename_i hrun
        rw [hs.queued, ht, Option.bind_some, Task.waiting?_of_ne (by rw [hrun]; decide)]
      · rw [hs.views.waiting?_remove, if_pos rfl]
    · rw [if_neg ho, ← hs.queued]
      split
      · rfl
      · rw [hs.views.waiting?_remove, if_neg ho]

theorem setRecurrenceEnabled?_eq_some {enabled : Bool}
    (h : s.setRecurrenceEnabled? id enabled = some s') :
    ∃ t, s.task? id = some t ∧ t.isRecurring ∧
      s' = { s with tasks := replace s.tasks (t.switch enabled) } := by
  unfold setRecurrenceEnabled? at h
  split at h
  · cases h
  · rename_i t ht
    split at h
    · rename_i hrec
      exact ⟨t, ht, hrec, (Option.some.inj h).symm⟩
    · cases h

theorem task?_switch {enabled : Bool} (h : s.setRecurrenceEnabled? id enabled = some s')
    (other : TaskId) : s'.task? other =
      if other = id then (s.task? other).map fun t => t.switch enabled else s.task? other := by
  obtain ⟨t, ht, -, rfl⟩ := setRecurrenceEnabled?_eq_some h
  exact task?_of_replace ht (f := fun t => t.switch enabled) rfl rfl other

theorem Coherent.switch (hs : s.Coherent) {enabled : Bool}
    (h : s.setRecurrenceEnabled? id enabled = some s') : s'.Coherent := by
  obtain ⟨t, ht, -, rfl⟩ := setRecurrenceEnabled?_eq_some h
  have hid : (t.switch enabled).id = id := (id_of_task? ht :)
  refine hs.replace (u := t.switch enabled) (t := t) ?_ rfl rfl rfl
  rw [hid]
  exact ht

theorem evict_eq_ok {last : Snapshot} (h : s.evict id = .ok (last, s')) :
    ∃ t, s.task? id = some t ∧ t.status.isTerminal ∧ last = t.toSnapshot ∧
      s' = { s with tasks := s.tasks.filter fun u => u.id ≠ id } := by
  unfold evict at h
  split at h
  · cases h
  · rename_i t ht
    split at h
    · rename_i hterm
      cases h
      exact ⟨t, ht, hterm, rfl, rfl⟩
    · cases h

theorem task?_filter (s : Scheduler W) (id other : TaskId) :
    ({ s with tasks := s.tasks.filter fun u => u.id ≠ id } : Scheduler W).task? other =
      if other = id then none else s.task? other :=
  find?_filter_ne s.tasks (fun t => t.id) id other

theorem Coherent.evict (hs : s.Coherent) {last : Snapshot} (h : s.evict id = .ok (last, s')) :
    s'.Coherent := by
  obtain ⟨t, ht, hterm, -, rfl⟩ := evict_eq_ok h
  refine ⟨hs.once.sublist (List.filter_sublist.map _), hs.views, ?_⟩
  intro other
  rw [task?_filter, hs.queued]
  split
  · subst other
    rw [ht, Option.bind_some, Option.bind_none]
    refine Task.waiting?_of_ne fun hsched => ?_
    rw [hsched] at hterm
    cases hterm
  · rfl

/-- Starting only opens the scheduler. -/
theorem start_eq_ok {now : Instant} (h : s.start now = .ok s') :
    ∃ lifecycle dispatching startedAt, s' = { s with lifecycle, dispatching, startedAt } := by
  unfold start at h
  split at h
  · cases h
    exact ⟨_, _, _, rfl⟩
  · cases h
  · cases h
    exact ⟨_, _, _, rfl⟩

end Scheduler

end Timetable
