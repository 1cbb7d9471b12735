import Timetable.Proofs.Claiming
import Timetable.Proofs.World

/-!
# The life of one task

What concerns one identifier: how its task was accepted, how it stands, and what has been published
of it. A step of the world is, for every identifier, one of a few steps in the life of its task, and
most of the time it is none at all. A property of single tasks is therefore proved on lives.

A world is sound when the scheduler is coherent and every life is: a unit of work is in one place
only, and status, due time and unit of work of a task fit together.
-/
namespace Timetable

variable {W : Type}

/-- What concerns one identifier. -/
structure Life (W : Type) where
  admission : Option (Admission W) := none
  /-- The task, while it is in the index. -/
  task : Option (Task W) := none
  jobs : List (Dispatch W) := []
  evicted : List Snapshot := []
  notices : List Notice := []
  begun : Nat := 0

/-- The life of the identifier's task. -/
def World.life (w : World W) (id : TaskId) : Life W where
  admission := w.accepted.find? fun a => a.task.id = id
  task := w.scheduler.task? id
  jobs := w.jobs.filter fun d => d.job.id = id
  evicted := w.evicted.filter fun s => s.id = id
  notices := w.history.filter fun n => n.task.id = id
  begun := w.begun.count id

namespace Life

/-- One step in the life of a task, where a retry waits for so long. -/
inductive Step (delay : Span) (id : TaskId) : Life W → Deed W → Life W → Prop
  | aside (l : Life W) {d : Deed W} (h : d.subject? ≠ some id) : Step delay id l d l
  | accept {l : Life W} {o : Offer} {t : Task W} {asked due now : Instant} (sequence : Nat)
    (hid : t.id = id) (new : t.IsNew) (unseen : l.admission = none)
    (hdue : o.due? t asked = .ok due) (valid : t.fault? = none) :
    Step delay id l (.accept o t asked now) { l with
      admission := some ⟨o, t⟩
      task := some ((t.accept now sequence).schedule due)
      notices := l.notices ++ [((t.accept now sequence).schedule due).notice .scheduled] }
  | claim {l : Life W} {t : Task W} {work : W} {due now : Instant} (ht : l.task = some t)
    (hst : t.status = .scheduled) (hw : t.work = some work) (hnext : t.nextExecution = some due)
    (hdue : due ≤ now) :
    Step delay id l (.claim now) { l with
      task := some t.claimed
      jobs := l.jobs ++ [{ job := { id, work } }]
      notices := l.notices ++ [t.claimed.notice .started] }
  | attempt {l : Life W} {before after : List (Dispatch W)} {job : Job W} (hid : job.id = id)
    (h : l.jobs = before ++ { job } :: after) (startedAt : Instant) :
    Step delay id l (.attempt job startedAt) { l with
      jobs := before ++ { job, startedAt := some startedAt } :: after
      begun := l.begun + 1 }
  | finish {l : Life W} {before after : List (Dispatch W)} {job : Job W} {a : Attempt}
    {t u : Task W} {work : W} {now : Instant} {notices : List Notice} (hid : job.id = id)
    (h : l.jobs = before ++ { job, startedAt := some a.startedAt } :: after) (ht : l.task = some t)
    (hs : t.Settles work a now delay u notices) :
    Step delay id l (.finish job work a now) { l with
      task := some u, jobs := before ++ after, notices := l.notices ++ notices }
  /-- The attempt of a task that has been evicted meanwhile. -/
  | finishGone {l : Life W} {before after : List (Dispatch W)} {job : Job W}
    {a : Attempt} {work : W} {now : Instant} (hid : job.id = id)
    (h : l.jobs = before ++ { job, startedAt := some a.startedAt } :: after) (ht : l.task = none) :
    Step delay id l (.finish job work a now) { l with task := none, jobs := before ++ after }
  | abandon {l : Life W} {before after : List (Dispatch W)} {job : Job W} {t : Task W}
    {now : Instant}
    (hid : job.id = id) (h : l.jobs = before ++ { job } :: after) (ht : l.task = some t) :
    Step delay id l (.abandon job now) { l with
      task := some (t.handBack job.work now), jobs := before ++ after }
  | abandonGone {l : Life W} {before after : List (Dispatch W)} {job : Job W} {now : Instant}
    (hid : job.id = id) (h : l.jobs = before ++ { job } :: after) (ht : l.task = none) :
    Step delay id l (.abandon job now) { l with task := none, jobs := before ++ after }
  | cancel {l : Life W} {t : Task W} (ht : l.task = some t) (hterm : t.status.isTerminal = false) :
    Step delay id l (.cancel id) { l with
      task := some t.cancel, notices := l.notices ++ [t.cancel.notice .cancelled] }
  | switch {l : Life W} {t : Task W} (ht : l.task = some t) (hrec : t.isRecurring)
    (enabled : Bool) :
    Step delay id l (.switch id enabled) { l with task := some (t.switch enabled) }
  | evict {l : Life W} {t : Task W} (ht : l.task = some t) (hterm : t.status.isTerminal) :
    Step delay id l (.evict id) { l with
      task := none, evicted := l.evicted ++ [t.toSnapshot] }

end Life

/-- How status, due time and unit of work of a task in the index fit together. -/
structure Task.Standing (t : Task W) : Prop where
  accepted : t.status ≠ .pending
  planned : t.nextExecution.isSome ↔ t.status = .scheduled ∨ t.status = .running
  dated : t.nextExecution.isSome → t.scheduledAt = t.nextExecution
  running : t.status = .running → t.work = none
  resting : t.status = .scheduled ∨ t.status = .completed ∨ t.status = .failed → t.work.isSome

/-- The unit of work is with the task or with the one job that is out, and a life begins with the
acceptance of its task. -/
structure Life.Sound (l : Life W) : Prop where
  unseen : l.admission = none → l = {}
  single : l.jobs.length ≤ 1
  held : ∀ t, l.task = some t → (t.work.isSome ↔ l.jobs = [])
  standing : ∀ t, l.task = some t → t.Standing

/-- The scheduler is coherent, and so is every life. -/
structure World.Sound (w : World W) : Prop where
  coherent : w.scheduler.Coherent
  lives : ∀ id, (w.life id).Sound

theorem World.Sound.armed {w : World W} (h : w.Sound) : w.scheduler.Armed :=
  fun id t ht hst => ((h.lives id).standing t ht).resting (.inl hst)

namespace World

/-! ## From the world to a life -/

section Projection

variable {w w' : World W} {id : TaskId}

theorem life_turn (w : World W) (s : Scheduler W) (id : TaskId) :
    (w.turn s).life id = { w.life id with
      task := s.task? id
      notices := (w.life id).notices ++
        (w.scheduler.outbox.news s.outbox).filter fun n => n.task.id = id } := by
  simp [life, turn]

/-- A section that publishes nothing of the identifier and leaves its task as it is. -/
theorem life_turn_of_aside {s : Scheduler W} (htask : s.task? id = w.scheduler.task? id)
    (hnews : ∀ n ∈ w.scheduler.outbox.news s.outbox, n.task.id ≠ id) :
    (w.turn s).life id = w.life id := by
  rw [life_turn, htask, List.filter_eq_nil_iff.mpr fun n hn => by simpa using hnews n hn,
    List.append_nil]
  rfl

theorem jobs_of_eq {before after : List (Dispatch W)} {d : Dispatch W}
    (h : w.jobs = before ++ d :: after) (hid : d.job.id = id) :
    (w.life id).jobs = (before.filter fun d => d.job.id = id) ++
      d :: (after.filter fun d => d.job.id = id) := by
  simp [life, h, hid]

/-- A life in which nothing changed. -/
theorem aside_of_eq {delay : Span} {d : Deed W} (hd : d.subject? ≠ some id)
    (h : w'.life id = w.life id) : Life.Step delay id (w.life id) d (w'.life id) :=
  h ▸ .aside _ hd

/-- A section about the task of another identifier. -/
theorem aside_of_ne {delay : Span} {s : Scheduler W} {d : Deed W} {subject : TaskId}
    {task : Option (Task W)} (hd : d.subject? = some subject) (ho : subject ≠ id)
    (htask : s.task? id = if id = subject then task else w.scheduler.task? id)
    (hnews : ∀ n ∈ w.scheduler.outbox.news s.outbox, n.task.id = subject)
    (h : w'.life id = (w.turn s).life id) : Life.Step delay id (w.life id) d (w'.life id) := by
  have hne : id ≠ subject := fun e => ho e.symm
  rw [if_neg hne] at htask
  refine aside_of_eq (by simpa [hd] using ho) (h.trans (life_turn_of_aside htask fun n hn => ?_))
  rw [hnews n hn]
  exact ho

variable {delay : Span}

theorem life_accept {o : Offer} {t : Task W} {asked due now : Instant} {s : Scheduler W}
    (new : t.IsNew) (unseen : ∀ a ∈ w.accepted, a.task.id ≠ t.id) (hdue : o.due? t asked = .ok due)
    (valid : t.fault? = none) (h : w.scheduler.takeIn t due now = .ok s) (id : TaskId) :
    Life.Step delay id (w.life id) (.accept o t asked now)
      (World.life { w.turn s with accepted := w.accepted ++ [⟨o, t⟩] } id) := by
  have htask := Scheduler.task?_takeIn h id
  have hnews : w.scheduler.outbox.news s.outbox =
      [((t.accept now w.scheduler.nextSequence).schedule due).notice .scheduled] := by
    rw [(Scheduler.takeIn_eq_ok h).2, Outbox.news_publish]
  by_cases hid : t.id = id
  · have hnone : (w.accepted.find? fun a => a.task.id = id) = none :=
      List.find?_eq_none.mpr fun a ha => by simpa [← hid] using unseen a ha
    have hlife : World.life { w.turn s with accepted := w.accepted ++ [⟨o, t⟩] } id =
        { w.life id with
          admission := some ⟨o, t⟩
          task := some ((t.accept now w.scheduler.nextSequence).schedule due)
          notices := (w.life id).notices ++
            [((t.accept now w.scheduler.nextSequence).schedule due).notice .scheduled] } := by
      have hn : (((t.accept now w.scheduler.nextSequence).schedule due).notice .scheduled).task.id =
          id := hid
      rw [if_pos hid.symm] at htask
      simp [life, turn, htask, hnews, hnone, hid, hn]
    rw [hlife]
    exact .accept _ hid new hnone hdue valid
  · refine aside_of_ne rfl hid htask (fun n hn => ?_) (by simp [life, turn, hid])
    rw [hnews, List.mem_singleton] at hn
    rw [hn]
    rfl

theorem life_claim (hw : w.Sound) (now : Instant) (id : TaskId) :
    Life.Step delay id (w.life id) (.claim now)
      (World.life { w.turn (w.scheduler.claimDue now).2 with
        jobs := w.jobs ++ (w.scheduler.claimDue now).1.map fun job => { job } } id) := by
  obtain ⟨hjobs, hs, -, htask⟩ := hw.coherent.claimDue_eq hw.armed now
  have hnodup := hw.coherent.views.nodup_extractDue now
  have hnews : w.scheduler.outbox.news (w.scheduler.claimDue now).2.outbox =
      (w.scheduler.queue.extractDue now).1.filterMap w.scheduler.startNotice? := by
    rw [hs, Outbox.news_publish]
  have hnotices := filter_filterMap_of_nodup hnodup
    (fun _ _ => Scheduler.id_of_startNotice? (s := w.scheduler)) id
  have hdispatches : (((w.scheduler.claimDue now).1.map fun job => ({ job } : Dispatch W)).filter
      fun d => d.job.id = id) =
      (if id ∈ (w.scheduler.queue.extractDue now).1 then (w.scheduler.jobOf? id).toList
        else []).map fun job => { job } := by
    rw [← filter_filterMap_of_nodup hnodup
      (fun _ _ => Scheduler.id_of_jobOf? (s := w.scheduler)) id, ← hjobs, List.filter_map]
    rfl
  by_cases hid : id ∈ (w.scheduler.queue.extractDue now).1
  · obtain ⟨t, due, ht, hst, harm, hnext, hdue⟩ := hw.coherent.claimable hw.armed hid
    obtain ⟨work, hwork⟩ := Option.isSome_iff_exists.mp harm
    have hlife : World.life { w.turn (w.scheduler.claimDue now).2 with
          jobs := w.jobs ++ (w.scheduler.claimDue now).1.map fun job => { job } } id =
        { w.life id with
          task := some t.claimed
          jobs := (w.life id).jobs ++ [{ job := { id, work } }]
          notices := (w.life id).notices ++ [t.claimed.notice .started] } := by
      rw [if_pos hid] at hdispatches hnotices
      simp only [life, turn, List.filter_append, hdispatches, hnews, hnotices, htask,
        if_pos hid, ht]
      simp [Scheduler.jobOf?, Scheduler.startNotice?, ht, hwork]
    rw [hlife]
    exact .claim ht hst hwork hnext hdue
  · rw [if_neg hid] at hdispatches hnotices
    refine aside_of_eq (by simp [Deed.subject?]) ?_
    simp only [life, turn, List.filter_append, hdispatches, hnews, hnotices, htask, if_neg hid]
    simp

theorem life_attempt {before after : List (Dispatch W)} {job : Job W}
    (h : w.jobs = before ++ { job } :: after) (startedAt : Instant) (id : TaskId) :
    Life.Step delay id (w.life id) (.attempt job startedAt) (World.life { w with
      jobs := before ++ { job, startedAt := some startedAt } :: after
      begun := w.begun ++ [job.id] } id) := by
  by_cases hid : job.id = id
  · have hlife : World.life { w with
          jobs := before ++ { job, startedAt := some startedAt } :: after
          begun := w.begun ++ [job.id] } id =
        { w.life id with
          jobs := (before.filter fun d => d.job.id = id) ++
            { job, startedAt := some startedAt } :: (after.filter fun d => d.job.id = id)
          begun := (w.life id).begun + 1 } := by
      simp [life, hid]
    rw [hlife]
    exact .attempt hid (jobs_of_eq h hid) startedAt
  · refine aside_of_eq (by simpa [Deed.subject?] using hid) ?_
    simp [life, h, hid]

theorem life_finish {before after : List (Dispatch W)} {job : Job W} {a : Attempt}
    (h : w.jobs = before ++ { job, startedAt := some a.startedAt } :: after) (work : W)
    (now : Instant) (id : TaskId) :
    Life.Step w.scheduler.config.retryDelay id (w.life id) (.finish job work a now)
      (World.life { w.turn (w.scheduler.finish { job with work } a now) with
        jobs := before ++ after } id) := by
  have htask := w.scheduler.task?_finish { job with work } a now id
  cases ht : w.scheduler.task? job.id with
  | none =>
    have hs := Scheduler.finish_of_none { job with work } ht a now
    have hnews :
        w.scheduler.outbox.news (w.scheduler.finish { job with work } a now).outbox = [] := by
      rw [hs]
      exact Outbox.news_self _
    by_cases hid : job.id = id
    · subst hid
      have hlife : World.life { w.turn (w.scheduler.finish { job with work } a now) with
            jobs := before ++ after } job.id =
          { w.life job.id with
            task := none
            jobs := (before.filter fun d => d.job.id = job.id) ++
              (after.filter fun d => d.job.id = job.id) } := by
        simp [life, turn, hnews, htask, ht]
      rw [hlife]
      exact .finishGone rfl (jobs_of_eq h rfl) ht
    · exact aside_of_ne rfl hid htask (by simp [hnews]) (by simp [life, turn, h, hid])
  | some t =>
    have hs := Scheduler.finish_of_some { job with work } ht a now
    have hsettles := t.settles work a now w.scheduler.config.retryDelay
    have hnews : w.scheduler.outbox.news (w.scheduler.finish { job with work } a now).outbox =
        (t.settle work a now w.scheduler.config.retryDelay).2 := by
      rw [hs, Scheduler.outbox_put]
      exact Outbox.news_publish _ _
    have hids : ∀ n ∈ (t.settle work a now w.scheduler.config.retryDelay).2, n.task.id = job.id :=
      fun n hn => (hsettles.notices_id n hn).trans (Scheduler.id_of_task? ht)
    by_cases hid : job.id = id
    · subst hid
      have hlife : World.life { w.turn (w.scheduler.finish { job with work } a now) with
            jobs := before ++ after } job.id =
          { w.life job.id with
            task := some (t.settle work a now w.scheduler.config.retryDelay).1
            jobs := (before.filter fun d => d.job.id = job.id) ++
              (after.filter fun d => d.job.id = job.id)
            notices := (w.life job.id).notices ++
              (t.settle work a now w.scheduler.config.retryDelay).2 } := by
        have hall : ((t.settle work a now w.scheduler.config.retryDelay).2.filter
            fun n => n.task.id = job.id) = (t.settle work a now w.scheduler.config.retryDelay).2 :=
          List.filter_eq_self.mpr fun n hn => decide_eq_true (hids n hn)
        simp [life, turn, hnews, htask, ht, hall]
      rw [hlife]
      exact .finish rfl (jobs_of_eq h rfl) ht hsettles
    · exact aside_of_ne rfl hid htask (fun n hn => hids n (hnews ▸ hn))
        (by simp [life, turn, h, hid])

theorem life_abandon {before after : List (Dispatch W)} {job : Job W}
    (h : w.jobs = before ++ { job } :: after) (now : Instant) (id : TaskId) :
    Life.Step delay id (w.life id) (.abandon job now)
      (World.life { w.turn (w.scheduler.abandon job now) with jobs := before ++ after } id) := by
  have htask := w.scheduler.task?_abandon job now id
  have hnews : w.scheduler.outbox.news (w.scheduler.abandon job now).outbox = [] := by
    rw [Scheduler.outbox_abandon, Outbox.news_self]
  by_cases hid : job.id = id
  · subst hid
    rw [if_pos rfl] at htask
    have hlife :
        World.life { w.turn (w.scheduler.abandon job now) with jobs := before ++ after } job.id =
        { w.life job.id with
          task := (w.life job.id).task.map fun t => t.handBack job.work now
          jobs := (before.filter fun d => d.job.id = job.id) ++
            (after.filter fun d => d.job.id = job.id) } := by
      simp [life, turn, hnews, htask]
    rw [hlife]
    cases ht : (w.life job.id).task with
    | none => exact .abandonGone rfl (jobs_of_eq h rfl) ht
    | some t => exact .abandon rfl (jobs_of_eq h rfl) ht
  · exact aside_of_ne rfl hid htask (by simp [hnews]) (by simp [life, turn, h, hid])

theorem life_cancel {id : TaskId} {s : Scheduler W} (h : w.scheduler.cancel? id = some s)
    (other : TaskId) :
    Life.Step delay other (w.life other) (.cancel id) ((w.turn s).life other) := by
  obtain ⟨t, ht, hterm, hs⟩ := Scheduler.cancel?_eq_some h
  have hid : t.cancel.id = id := (Scheduler.id_of_task? ht :)
  have hnews : w.scheduler.outbox.news s.outbox = [t.cancel.notice .cancelled] := by
    rw [hs, Outbox.news_publish]
  have htask := Scheduler.task?_cancel h other
  by_cases ho : id = other
  · subst ho
    have hlife : (w.turn s).life id = { w.life id with
        task := some t.cancel
        notices := (w.life id).notices ++ [t.cancel.notice .cancelled] } := by
      have hn : (t.cancel.notice .cancelled).task.id = id := hid
      rw [life_turn, htask, if_pos rfl, ht, Option.map_some, hnews, List.filter_singleton]
      simp [hn]
    rw [hlife]
    exact .cancel ht hterm
  · refine aside_of_ne rfl ho htask (fun n hn => ?_) rfl
    rw [hnews, List.mem_singleton] at hn
    rw [hn]
    exact hid

theorem life_switch {id : TaskId} {enabled : Bool} {s : Scheduler W}
    (h : w.scheduler.setRecurrenceEnabled? id enabled = some s) (other : TaskId) :
    Life.Step delay other (w.life other) (.switch id enabled) ((w.turn s).life other) := by
  obtain ⟨t, ht, hrec, hs⟩ := Scheduler.setRecurrenceEnabled?_eq_some h
  have hnews : w.scheduler.outbox.news s.outbox = [] := by rw [hs, Outbox.news_self]
  have htask := Scheduler.task?_switch h other
  by_cases ho : id = other
  · subst ho
    rw [life_turn, htask, if_pos rfl, ht, Option.map_some, hnews, List.filter_nil, List.append_nil]
    exact .switch ht hrec enabled
  · exact aside_of_ne rfl ho htask (by simp [hnews]) rfl

theorem life_evict {id : TaskId} {last : Snapshot} {s : Scheduler W}
    (h : w.scheduler.evict id = .ok (last, s)) (other : TaskId) :
    Life.Step delay other (w.life other) (.evict id)
      (World.life { w.turn s with evicted := w.evicted ++ [last] } other) := by
  obtain ⟨t, ht, hterm, hlast, hs⟩ := Scheduler.evict_eq_ok h
  have hid : last.id = id := hlast ▸ Scheduler.id_of_task? ht
  have hnews : w.scheduler.outbox.news s.outbox = [] := by rw [hs, Outbox.news_self]
  have htask : s.task? other = if other = id then none else w.scheduler.task? other := by
    rw [hs]
    exact w.scheduler.task?_filter id other
  by_cases ho : id = other
  · subst ho
    have hlife : World.life { w.turn s with evicted := w.evicted ++ [last] } id =
        { w.life id with task := none, evicted := (w.life id).evicted ++ [t.toSnapshot] } := by
      simp [life, turn, hnews, htask, hid, ← hlast]
    rw [hlife]
    exact .evict ht hterm
  · exact aside_of_ne rfl ho htask (by simp [hnews]) (by simp [life, turn, hid, ho])

/-- A step of a sound world is a step in every life. -/
theorem Step.life {d : Deed W} (hw : w.Sound) (h : Step w d w') (id : TaskId) :
    Life.Step w.scheduler.config.retryDelay id (w.life id) d (w'.life id) := by
  cases h with
  | accept new unseen hdue valid h => exact life_accept new unseen hdue valid h id
  | claim now => exact life_claim hw now id
  | attempt h startedAt => exact life_attempt h startedAt id
  | finish h work now => exact life_finish h work now id
  | abandon h now => exact life_abandon h now id
  | cancel h => exact life_cancel h id
  | switch h => exact life_switch h id
  | evict h => exact life_evict h id
  | start h =>
    obtain ⟨_, _, _, rfl⟩ := Scheduler.start_eq_ok h
    exact aside_of_eq (by simp [Deed.subject?]) (life_turn_of_aside rfl (by simp))
  | stop now =>
    exact aside_of_eq (by simp [Deed.subject?])
      (life_turn_of_aside rfl (by simp [Scheduler.stop]))
  | deliver h => exact aside_of_eq (by simp [Deed.subject?]) rfl

end Projection

end World

end Timetable
