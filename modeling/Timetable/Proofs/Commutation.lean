import Timetable.Proofs.QueueEdits
import Timetable.Proofs.Rehearsal

/-!
# Changes of different tasks commute

Recording an attempt, handing a job back, cancelling a task and switching a recurrence each look at
one task and change what the scheduler knows of it: its record, its entry in the queue, the counts
and the notices. All of them share the queue, the outbox and the metrics. Even so two changes of
different tasks may be made in either order: what differs is which of two new entries that wait
alike comes first, how the notices of the two tasks interleave, and how the mean duration is
rounded.
-/
namespace Timetable

variable {W : Type}

/-- A change of one task. -/
inductive Change (W : Type) where
  | finish (job : Job W) (a : Attempt)
  | abandon (job : Job W)
  | cancel (id : TaskId)
  | switch (id : TaskId) (enabled : Bool)

/-- The task that a change is about. -/
def Change.subject : Change W → TaskId
  | finish job _ => job.id
  | abandon job => job.id
  | cancel id => id
  | switch id _ => id

/-- What is said when the change has been made, and the scheduler afterwards. A change that is
refused leaves the scheduler alone. -/
def Scheduler.make (s : Scheduler W) (now : Instant) : Change W → Option Bool × Scheduler W
  | .finish job a => (none, s.finish job a now)
  | .abandon job => (none, s.abandon job now)
  | .cancel id => (some (s.cancel? id).isSome, (s.cancel? id).getD s)
  | .switch id enabled =>
    (some (s.setRecurrenceEnabled? id enabled).isSome, (s.setRecurrenceEnabled? id enabled).getD s)

/-! ## Every change is a revision -/

/-- What a change does to a scheduler. -/
structure Revision (W : Type) where
  /-- The task in the place of the one it is about. -/
  task : Option (Task W) := none
  queue : QueueEdit := .keep
  notices : List Notice := []
  /-- The attempt that is counted. -/
  attempt : Option Attempt := none
  /-- Whether a job is no longer in flight. -/
  landed : Bool := false

/-- The entry that a task takes in the queue. -/
def Task.queueEdit (t : Task W) : QueueEdit :=
  match t.due? with
  | some due => .place t.priority (some due)
  | none => .keep

namespace Change

/-- What is said, given the task as it stands. -/
def reply (t : Option (Task W)) : Change W → Option Bool
  | finish _ _ | abandon _ => none
  | cancel _ => some (t.any fun t => !t.status.isTerminal)
  | switch _ _ => some (t.any fun t => t.isRecurring)

/-- What is done, given the task as it stands. -/
def revision (t : Option (Task W)) (now : Instant) (delay : Span) : Change W → Revision W
  | finish job a =>
    match t.map fun t => t.settle job.work a now delay with
    | none => { attempt := some a, landed := true }
    | some (u, notices) =>
      { task := some u, queue := u.queueEdit, notices, attempt := some a, landed := true }
  | abandon job =>
    match t with
    | none => { landed := true }
    | some t =>
      let u := t.handBack job.work now
      { task := some u, queue := if t.status = .running then u.queueEdit
        else .keep, landed := true }
  | cancel _ =>
    match t with
    | none => {}
    | some t =>
      if t.status.isTerminal then {}
      else
        { task := some t.cancel
          queue := if t.status = .running then .keep else .drop
          notices := [t.cancel.notice .cancelled] }
  | switch _ enabled =>
    match t with
    | none => {}
    | some t => if t.isRecurring then { task := some (t.switch enabled) } else {}

end Change

/-- Everything in a revision concerns one task. -/
structure Revision.Concerns (r : Revision W) (id : TaskId) : Prop where
  task : ∀ t, r.task = some t → t.id = id
  notices : ∀ n ∈ r.notices, n.task.id = id

namespace Scheduler

variable {s : Scheduler W} {i j id : TaskId} {r q : Revision W} {x y : Change W} {now : Instant}

/-- The scheduler with one task revised. -/
def revise (s : Scheduler W) (id : TaskId) (r : Revision W) : Scheduler W :=
  { s with
    tasks := r.task.elim s.tasks (replace s.tasks)
    queue := s.queue.edit id r.queue
    outbox := s.outbox.publish r.notices
    metrics := r.attempt.elim s.metrics fun a =>
      s.metrics.record a.duration (decide (a.outcome = Outcome.success))
    inFlight := s.inFlight - if r.landed then 1 else 0 }

theorem put_eq (s : Scheduler W) (u : Task W) (notices : List Notice) :
    s.put u notices = { s with
      tasks := replace s.tasks u
      queue := s.queue.edit u.id u.queueEdit
      outbox := s.outbox.publish notices } := by
  rw [put, Task.queueEdit]
  cases u.due? <;> rfl

/-- Every change is a revision that depends on the task alone. -/
theorem make_eq (s : Scheduler W) (now : Instant) (x : Change W) :
    s.make now x = (x.reply (s.task? x.subject),
      s.revise x.subject (x.revision (s.task? x.subject) now s.config.retryDelay)) := by
  cases x with
  | finish job a =>
    simp only [make, Change.subject, Change.reply, Change.revision]
    cases h : s.task? job.id with
    | none =>
      rw [finish_of_none job h]
      simp [revise, counted, ReadyQueue.edit]
    | some t =>
      have hid := (t.settles job.work a now s.config.retryDelay).attempted.id.trans (id_of_task? h)
      rw [finish_of_some job h, put_eq, hid]
      rfl
  | abandon job =>
    simp only [make, Change.subject, Change.reply, Change.revision]
    cases h : s.task? job.id with
    | none =>
      rw [abandon_of_none h]
      simp [revise, released, ReadyQueue.edit]
    | some t =>
      have hid := (id_handBack t job.work now).trans (id_of_task? h)
      rw [abandon_of_some h]
      split
      · rename_i hrun
        rw [put_eq, hid, Outbox.publish_nil]
        simp [revise, released, hrun]
      · rename_i hrun
        simp [revise, released, hrun, ReadyQueue.edit]
  | cancel id =>
    simp only [make, Change.subject, Change.reply, Change.revision, cancel?]
    cases h : s.task? id with
    | none => simp [revise, ReadyQueue.edit]
    | some t =>
      by_cases hend : t.status.isTerminal
      · simp [hend, revise, ReadyQueue.edit]
      · by_cases hrun : t.status = .running
        · simp [hrun, Status.isTerminal, revise, ReadyQueue.edit]
        · simp [hend, hrun, revise, ReadyQueue.edit]
  | switch id enabled =>
    simp only [make, Change.subject, Change.reply, Change.revision, setRecurrenceEnabled?]
    cases h : s.task? id with
    | none => simp [revise, ReadyQueue.edit]
    | some t =>
      by_cases hrecurring : t.isRecurring
      · simp [hrecurring, revise, ReadyQueue.edit]
      · simp [hrecurring, revise, ReadyQueue.edit]

theorem concerns_revision (s : Scheduler W) (now : Instant) (x : Change W) :
    (x.revision (s.task? x.subject) now s.config.retryDelay).Concerns x.subject := by
  have nothing {r : Revision W} (htask : r.task = none) (hnotices : r.notices = []) :
      r.Concerns x.subject :=
    ⟨by simp [htask], by simp [hnotices]⟩
  cases h : s.task? x.subject with
  | none => cases x <;> exact nothing rfl rfl
  | some t =>
    have hid := id_of_task? h
    cases x with
    | finish job a =>
      have hsettles := t.settles job.work a now s.config.retryDelay
      refine ⟨fun u hu => ?_, fun n hn => (hsettles.notices_id n hn).trans hid⟩
      obtain rfl := Option.some.inj hu
      exact hsettles.attempted.id.trans hid
    | abandon job =>
      refine ⟨fun u hu => ?_, fun n hn => absurd hn (List.not_mem_nil)⟩
      obtain rfl := Option.some.inj hu
      exact (id_handBack t job.work now).trans hid
    | cancel id =>
      simp only [Change.revision]
      split
      · exact nothing rfl rfl
      · refine ⟨fun u hu => ?_, fun n hn => ?_⟩
        · obtain rfl := Option.some.inj hu
          exact hid
        · obtain rfl := List.mem_singleton.mp hn
          exact hid
    | switch id enabled =>
      simp only [Change.revision]
      split
      · refine ⟨fun u hu => ?_, fun n hn => absurd hn (List.not_mem_nil)⟩
        obtain rfl := Option.some.inj hu
        exact hid
      · exact nothing rfl rfl

/-! ## Revisions of different tasks -/

/-- A revision leaves every other task alone. -/
theorem task?_revise (h : r.Concerns i) (hne : id ≠ i) : (s.revise i r).task? id = s.task? id := by
  rw [revise, task?]
  cases ht : r.task with
  | none => rfl
  | some t => exact (find?_replace s.tasks t id).trans (if_neg (h.task t ht ▸ hne))

theorem replace_comm (tasks : List (Task W)) {t u : Task W} (h : t.id ≠ u.id) :
    replace (replace tasks t) u = replace (replace tasks u) t := by
  simp only [replace, List.map_map]
  refine List.map_congr_left fun v _ => ?_
  by_cases ht : v.id = t.id
  · simp [ht, h]
  · by_cases hu : v.id = u.id
    · simp [hu, h.symm]
    · simp [ht, hu]

/-- Of notices of two tasks those of one stand in the same order, whichever task's come first. -/
theorem filter_append_comm {first second : List Notice} (hij : i ≠ j)
    (hi : ∀ n ∈ first, n.task.id = i) (hj : ∀ n ∈ second, n.task.id = j) (id : TaskId) :
    ((first ++ second).filter fun n => n.task.id = id) =
      (second ++ first).filter fun n => n.task.id = id := by
  have hnone : (first.filter fun n => n.task.id = id) = [] ∨
      (second.filter fun n => n.task.id = id) = [] := by
    by_cases hid : id = i
    · right
      exact List.filter_eq_nil_iff.mpr fun n hn => by simp [hj n hn, hid, hij.symm]
    · left
      exact List.filter_eq_nil_iff.mpr fun n hn => by simpa [hi n hn] using Ne.symm hid
  rw [List.filter_append, List.filter_append]
  rcases hnone with hnone | hnone <;> rw [hnone, List.append_nil, List.nil_append]

/-- What two changes of two tasks lead to from a state, in one order and in the other. -/
structure Commuted (s first second : Scheduler W) (i j : TaskId) : Prop where
  /-- The record of every task, what is in flight, the counts and whatever else is not
  listed below. -/
  same : second = { first with
    queue := second.queue
    metrics := { first.metrics with average := second.metrics.average }
    outbox := { first.outbox with waiting := second.outbox.waiting } }
  queue : first.queue.SameUpToTies second.queue i j
  waiting : first.outbox.waiting = s.outbox.waiting ++ s.outbox.news first.outbox ∧
    second.outbox.waiting = s.outbox.waiting ++ s.outbox.news second.outbox
  /-- The notices of a task stand in the same order. -/
  news : ∀ id, ((s.outbox.news first.outbox).filter fun n => n.task.id = id) =
    (s.outbox.news second.outbox).filter fun n => n.task.id = id
  /-- Any other task is as it was, in the index and in the queue. -/
  others : ∀ id, id ≠ i → id ≠ j →
    first.task? id = s.task? id ∧ first.queue.waiting? id = s.queue.waiting? id
  order : ∀ a b, a ≠ i → a ≠ j → b ≠ i → b ≠ j →
    ([a, b].Sublist first.queue.toList ↔ [a, b].Sublist s.queue.toList)

theorem tasks_revise_comm (hij : i ≠ j) (hr : r.Concerns i) (hq : q.Concerns j) :
    ((s.revise i r).revise j q).tasks = ((s.revise j q).revise i r).tasks := by
  simp only [revise]
  cases ht : r.task with
  | none => rfl
  | some t =>
    cases hu : q.task with
    | none => rfl
    | some u =>
      exact replace_comm s.tasks fun e =>
        hij ((hr.task t ht).symm.trans (e.trans (hq.task u hu)))

/-- Two attempts are counted in either order, but the mean duration is rounded after each. -/
theorem metrics_revise_comm (s : Scheduler W) (i j : TaskId) (r q : Revision W) :
    ((s.revise j q).revise i r).metrics = { ((s.revise i r).revise j q).metrics with
      average := ((s.revise j q).revise i r).metrics.average } := by
  simp only [revise]
  cases r.attempt with
  | none => rfl
  | some a =>
    cases q.attempt with
    | none => rfl
    | some b =>
      simp only [Option.elim, Metrics.record, Metrics.mk.injEq, and_true, true_and]
      constructor <;> split <;> split <;> rfl

theorem outbox_revise_revise (s : Scheduler W) (i j : TaskId) (r q : Revision W) :
    ((s.revise i r).revise j q).outbox = s.outbox.publish (r.notices ++ q.notices) :=
  Outbox.publish_publish s.outbox r.notices q.notices

/-- Revisions of different tasks may be made in either order. -/
theorem revise_comm (hs : s.queue.Ordered) (hij : i ≠ j) (hr : r.Concerns i) (hq : q.Concerns j) :
    s.Commuted ((s.revise i r).revise j q) ((s.revise j q).revise i r) i j where
  same := by
    have htasks := tasks_revise_comm (s := s) hij hr hq
    have hmetrics := metrics_revise_comm s i j r q
    have hflight : ((s.revise j q).revise i r).inFlight = ((s.revise i r).revise j q).inFlight :=
      Nat.sub_right_comm s.inFlight _ _
    have houtbox : ((s.revise j q).revise i r).outbox = { ((s.revise i r).revise j q).outbox with
        waiting := ((s.revise j q).revise i r).outbox.waiting } := by
      rw [outbox_revise_revise, outbox_revise_revise]
      simp [Outbox.publish, Nat.add_comm]
    rw [← hmetrics, ← houtbox, htasks, ← hflight]
    rfl
  queue := hs.edit_comm hij r.queue q.queue
  waiting := by
    rw [outbox_revise_revise, outbox_revise_revise, Outbox.news_publish, Outbox.news_publish]
    exact ⟨rfl, rfl⟩
  news id := by
    rw [outbox_revise_revise, outbox_revise_revise, Outbox.news_publish, Outbox.news_publish]
    exact filter_append_comm hij hr.notices hq.notices id
  others id hi hj := by
    refine ⟨(task?_revise hq hj).trans (task?_revise hr hi), ?_⟩
    show ((s.queue.edit i r.queue).edit j q.queue).waiting? id = _
    rw [ReadyQueue.waiting?, (hs.edit i r.queue).entryOf?_edit, if_neg hj,
      hs.entryOf?_edit, if_neg hi]
    rfl
  order a b hai haj hbi hbj :=
    ((hs.edit i r.queue).pair_sublist_edit q.queue haj hbj).trans
      (hs.pair_sublist_edit r.queue hai hbi)

end Scheduler

/-- In every reachable state two changes of different tasks may be made in either order: the same is
said, and the states differ at most in the order of two new entries that wait alike, in how the
notices of the two tasks interleave and in the mean duration. -/
theorem World.Reachable.changes_commute {w : World W} (hw : w.Reachable) (now : Instant)
    {x y : Change W} (h : x.subject ≠ y.subject) :
    let s := w.scheduler
    ((s.make now y).2.make now x).1 = (s.make now x).1 ∧
      ((s.make now x).2.make now y).1 = (s.make now y).1 ∧
      s.Commuted ((s.make now x).2.make now y).2 ((s.make now y).2.make now x).2
        x.subject y.subject := by
  intro s
  have hx := s.concerns_revision now x
  have hy := s.concerns_revision now y
  rw [s.make_eq now x, s.make_eq now y, Scheduler.make_eq _ now x, Scheduler.make_eq _ now y,
    Scheduler.task?_revise hx h.symm, Scheduler.task?_revise hy h]
  exact ⟨rfl, rfl, Scheduler.revise_comm hw.ordered h hx hy⟩

/-- A task of that number that is retried once, and its first attempt failing. -/
def Task.twiceSample (n : Nat) : Task Nat := { Task.sample with id := .ofNat n, maxRetries := 1 }

def Job.twiceSample (n : Nat) : Job Nat := { id := .ofNat n, work := 0 }

def Change.failureSample (n : Nat) : Change Nat := .finish (.twiceSample n) .failureSample

/-- The scheduler after the two attempts failed one after the other. -/
def Scheduler.failBoth (s : Scheduler Nat) (first second : Nat) : Scheduler Nat :=
  ((s.make .epoch (.failureSample first)).2.make .epoch (.failureSample second)).2

/-- Two failed tasks that are retried at the same time stand in the queue in the order of
their failures. -/
theorem World.retries_tie : ∃ w : World Nat, w.Reachable ∧
    (w.scheduler.failBoth 1 2).queue.toList = [.ofNat 1, .ofNat 2] ∧
    (w.scheduler.failBoth 2 1).queue.toList = [.ofNat 2, .ofNat 1] ∧
    w.scheduler.Commuted (w.scheduler.failBoth 1 2) (w.scheduler.failBoth 2 1)
      (.ofNat 1) (.ofNat 2) := by
  have created : Scheduler.create {} = .ok ({ config := {} } : Scheduler Nat) := rfl
  obtain ⟨w, hplay, hfirst, hsecond⟩ : ∃ w ∈ World.sample.play?
      [.accept .dueNow (.twiceSample 1) .epoch .epoch,
        .accept .dueNow (.twiceSample 2) .epoch .epoch, .claim .epoch,
        .attempt (.twiceSample 1) .epoch, .attempt (.twiceSample 2) .epoch],
      (w.scheduler.failBoth 1 2).queue.toList = [.ofNat 1, .ofNat 2] ∧
      (w.scheduler.failBoth 2 1).queue.toList = [.ofNat 2, .ofNat 1] := by decide +kernel
  have hw : w.Reachable := ⟨{}, _, _, created, .of_play? hplay⟩
  have hne : (Change.failureSample 1).subject ≠ (Change.failureSample 2).subject := by decide
  exact ⟨w, hw, hfirst, hsecond, (hw.changes_commute .epoch hne).2.2⟩

end Timetable
