import Timetable.Proofs.QueueOrder

/-!
# The starts that are announced

Only a claim publishes that tasks have started. It does so for the entries of the queue that are
due, in dispatch order, and gives out their jobs in the same order.
-/
namespace Timetable

variable {W : Type}

theorem Attempt.verdict_ne_started (a : Attempt) : a.verdict ≠ .started := by
  rw [verdict]
  cases a.outcome <;> simp

/-- No attempt announces a start. -/
theorem Task.Settles.ne_started {t u : Task W} {work : W} {a : Attempt} {now : Instant}
    {delay : Span} {notices : List Notice} (h : t.Settles work a now delay u notices) :
    ∀ n ∈ notices, n.event ≠ .started := by
  cases h <;> simp [notice, a.verdict_ne_started]

/-- The entries that are due at a time, in dispatch order. -/
def ReadyQueue.dueEntries (q : ReadyQueue) (now : Instant) : List QueueEntry :=
  q.byRank.filter fun e => e.isDue now

theorem ReadyQueue.Ordered.dueEntries {q : ReadyQueue} (h : q.Ordered) (now : Instant) :
    (q.dueEntries now).Pairwise fun a b => a.place < b.place := h.byPlace.filter _

/-- The notice says that the task of the entry has started. -/
structure QueueEntry.Starts (e : QueueEntry) (n : Notice) : Prop where
  event : n.event = .started
  id : n.task.id = e.id
  priority : n.task.priority = e.priority
  due : n.task.nextExecution = e.due

namespace QueueEntry

/-- Entries each of which finds the notice of its start. -/
theorem forall₂_starts {start? : TaskId → Option Notice} {entries : List QueueEntry}
    (h : ∀ e ∈ entries, ∃ n, start? e.id = some n ∧ e.Starts n) :
    List.Forall₂ Starts entries ((entries.map QueueEntry.id).filterMap start?) := by
  induction entries with
  | nil => exact .nil
  | cons e entries ih =>
    obtain ⟨n, hn, hstart⟩ := h e (List.mem_cons_self ..)
    rw [List.map_cons, List.filterMap_cons_some hn]
    exact .cons hstart (ih fun e he => h e (List.mem_cons_of_mem _ he))

theorem ids_of_starts {entries : List QueueEntry} {notices : List Notice}
    (h : List.Forall₂ Starts entries notices) :
    (notices.map fun n => n.task.id) = entries.map QueueEntry.id := by
  induction h with
  | nil => rfl
  | cons hstart _ ih => rw [List.map_cons, List.map_cons, hstart.id, ih]

end QueueEntry

namespace World

variable {w w' : World W} {d : Deed W}

/-- The starts published so far. -/
def started (w : World W) : List Notice := w.history.filter fun n => n.event = .started

/-- The tasks that they are about. -/
def startedIds (w : World W) : List TaskId := w.started.map fun n => n.task.id

theorem started_turn {s : Scheduler W} {notices : List Notice}
    (h : s.outbox = w.scheduler.outbox.publish notices) :
    (w.turn s).started = w.started ++ notices.filter fun n => n.event = .started := by
  simp [started, turn, h]

/-- No section but a claim publishes a start. -/
theorem Step.started_eq (h : Step w d w') (hd : ∀ now, d ≠ .claim now) :
    w'.started = w.started := by
  have quiet {s : Scheduler W} {notices : List Notice}
    (hs : s.outbox = w.scheduler.outbox.publish notices)
      (hn : ∀ n ∈ notices, n.event ≠ .started) : (w.turn s).started = w.started := by
    have hnone : (notices.filter fun n => n.event = .started) = [] :=
      List.filter_eq_nil_iff.mpr fun n hmem => by simpa using hn n hmem
    rw [started_turn hs, hnone, List.append_nil]
  have silent {s : Scheduler W} (hs : s.outbox = w.scheduler.outbox) :
      (w.turn s).started = w.started :=
    quiet (hs.trans (Outbox.publish_nil _).symm) (by simp)
  cases h with
  | accept _ _ _ _ h =>
    obtain ⟨-, rfl⟩ := Scheduler.takeIn_eq_ok h
    exact quiet rfl (by simp [Task.notice])
  | claim now => exact absurd rfl (hd now)
  | attempt | deliver => rfl
  | @finish before after job a h work now =>
    cases ht : w.scheduler.task? job.id with
    | none =>
      rw [Scheduler.finish_of_none { job with work } ht]
      exact silent rfl
    | some t =>
      rw [Scheduler.finish_of_some { job with work } ht]
      exact quiet (Scheduler.outbox_put ..) (t.settles _ a now _).ne_started
  | abandon h now => exact silent (w.scheduler.outbox_abandon _ now)
  | cancel h =>
    obtain ⟨t, -, -, rfl⟩ := Scheduler.cancel?_eq_some h
    exact quiet rfl (by simp [Task.notice])
  | switch h =>
    obtain ⟨t, -, -, rfl⟩ := Scheduler.setRecurrenceEnabled?_eq_some h
    exact silent rfl
  | evict h =>
    obtain ⟨t, -, -, -, rfl⟩ := Scheduler.evict_eq_ok h
    exact silent rfl
  | start h =>
    obtain ⟨_, _, _, rfl⟩ := Scheduler.start_eq_ok h
    exact silent rfl
  | stop now => exact silent rfl

/-- What a claim publishes: the due entries, each with its start, in dispatch order. -/
theorem Step.started_of_claim {now : Instant} (h : Step w (.claim now) w') (hw : w.Reachable) :
    ∃ notices, w'.started = w.started ++ notices ∧
      List.Forall₂ QueueEntry.Starts (w.scheduler.queue.dueEntries now) notices := by
  have hsound := hw.sound
  obtain ⟨-, hs, -⟩ := hsound.coherent.claimDue_eq hsound.armed now
  -- every due entry stands for its task, so nothing is left out
  have hstarts : ∀ e ∈ w.scheduler.queue.dueEntries now,
      ∃ n, w.scheduler.startNotice? e.id = some n ∧ e.Starts n := fun e he => by
    obtain ⟨t, ht, -, hpriority, hdue, -⟩ := hsound.key (List.mem_filter.mp he).1
    have hid : t.id = e.id := Scheduler.id_of_task? ht
    exact ⟨t.claimed.notice .started, by rw [Scheduler.startNotice?, ht]; rfl, rfl, hid,
      hpriority.symm, hdue.symm⟩
  have hall := QueueEntry.forall₂_starts hstarts
  rw [ReadyQueue.dueEntries, ← hw.ordered.extracted_eq now] at hall
  refine ⟨_, ?_, hall⟩
  have hkept : (((w.scheduler.queue.extractDue now).1.filterMap w.scheduler.startNotice?).filter
      fun n => n.event = .started) = (w.scheduler.queue.extractDue now).1.filterMap
        w.scheduler.startNotice? := by
    refine List.filter_eq_self.mpr fun n hn => ?_
    obtain ⟨id, -, hid⟩ := List.mem_filterMap.mp hn
    obtain ⟨t, -, rfl⟩ := Option.map_eq_some_iff.mp hid
    exact decide_eq_true rfl
  cases h with
  | claim =>
    have hturn := started_turn (congrArg Scheduler.outbox hs)
    rw [hkept] at hturn
    exact hturn

/-- The starts that a claim publishes are those of the jobs that it gives out. -/
theorem Step.startedIds_of_claim {now : Instant} (h : Step w (.claim now) w') (hw : w.Reachable) :
    w'.startedIds = w.startedIds ++ (w.scheduler.claimDue now).1.map Job.id := by
  obtain ⟨notices, hstarted, hall⟩ := h.started_of_claim hw
  rw [startedIds, hstarted, List.map_append, QueueEntry.ids_of_starts hall,
    hw.sound.coherent.claimed_ids hw.sound.armed, hw.ordered.extracted_eq]
  rfl

end World

end Timetable
