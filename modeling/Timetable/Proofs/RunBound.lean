import Timetable.Proofs.Rehearsal
import Timetable.Proofs.Terminal

/-!
# The bound on runs

A recurrence may bound the runs of its task. Every attempt that begins counts towards the bound,
whatever comes of it; a job that is handed back does not. While a task may go on, fewer runs are
recorded than the bound allows, and what has begun or can still begin never exceeds it.
-/
namespace Timetable

variable {W : Type}

namespace Policy

variable {p : Policy} {now due : Instant} {executions : UInt32}

theorem lt_of_not_isExhausted (h : p.isExhausted executions = false) (hp : 0 < p.maxExecutions) :
    executions < p.maxExecutions := by
  simp only [isExhausted, hp, decide_true, Bool.true_and, decide_eq_false_iff_not] at h
  exact UInt32.not_le.mp h

theorem not_isExhausted_of_next? (h : p.next? now executions = some due) :
    p.isExhausted executions = false := by
  unfold next? at h
  split at h
  · rename_i hopen
    simpa using (Bool.and_eq_true_iff.mp hopen).2
  · cases h

end Policy

namespace Task

/-- The recurrence of the task allows so many runs. -/
def RunsBoundedBy (t : Task W) (n : UInt32) : Prop :=
  ∃ p, t.recurrence = some p ∧ p.maxExecutions = n

variable {t u : Task W} {w : W} {a : Attempt} {now : Instant} {delay : Span} {notices : List Notice}
  {n : UInt32}

theorem RunsBoundedBy.switch (h : t.RunsBoundedBy n) (enabled : Bool) :
    (t.switch enabled).RunsBoundedBy n := by
  obtain ⟨p, hp, hn⟩ := h
  exact ⟨{ p with enabled }, by simp [Task.switch, hp], hn⟩

/-- A recurring task that goes on after an attempt, or fails for good, has runs left. -/
theorem Settles.runs_left (h : t.Settles w a now delay u notices)
    (ht : t.RunsBoundedBy n) (hn : 0 < n) (hu : u.status ≠ .cancelled) : u.executionCount < n := by
  obtain ⟨p, hp, rfl⟩ := ht
  rw [h.attempted.executionCount]
  have left :
      ∀ hx : (t.ended w a).isExhausted = false, countUp t.executionCount < p.maxExecutions := by
    intro hx
    rw [isExhausted, ended_recurrence, ended_executionCount, hp, Option.any_some] at hx
    exact Policy.lt_of_not_isExhausted hx hn
  cases h with
  | cancelled hc => exact absurd (ended_status_of_cancelled t w a hc) hu
  | completed _ _ hr => rw [hr] at hp; cases hp
  | recurs _ _ hq hnext =>
    obtain rfl := Option.some.inj (hp.symm.trans hq)
    exact Policy.lt_of_not_isExhausted (Policy.not_isExhausted_of_next? hnext) hn
  | expires | exhausted => exact absurd rfl hu
  | failed _ _ hx => exact left hx
  | retries _ _ hx => exact left hx

end Task

namespace Life

variable {l l' : Life W} {delay : Span} {id : TaskId} {d : Deed W} {n : UInt32}

/-- The recurrence that the task was accepted with allows so many runs. -/
def RunsBoundedBy (l : Life W) (n : UInt32) : Prop :=
  ∃ a, l.admission = some a ∧ a.task.RunsBoundedBy n

/-- What has begun and what can still begin keep within the bound. -/
structure Rationed (l : Life W) (n : UInt32) : Prop where
  bounded : ∀ t, l.task = some t → t.RunsBoundedBy n
  /-- Every attempt that has begun is recorded or has its job out. -/
  counted : ∀ t, l.task = some t → l.begun + l.unbegun = t.executionCount.toNat + l.jobs.length
  left : ∀ t, l.task = some t → t.status ≠ .cancelled → t.executionCount < n
  within : l.begun + l.unbegun ≤ n.toNat

theorem Rationed.of_task {u : Task W} (htask : l.task = some u) (hbounded : u.RunsBoundedBy n)
    (hcounted : l.begun + l.unbegun = u.executionCount.toNat + l.jobs.length)
    (hleft : u.status ≠ .cancelled → u.executionCount < n)
    (hwithin : l.begun + l.unbegun ≤ n.toNat) :
    l.Rationed n where
  bounded := by
    intro v hv
    obtain rfl := Option.some.inj (htask.symm.trans hv)
    exact hbounded
  counted := by
    intro v hv
    obtain rfl := Option.some.inj (htask.symm.trans hv)
    exact hcounted
  left := by
    intro v hv
    obtain rfl := Option.some.inj (htask.symm.trans hv)
    exact hleft
  within := hwithin

theorem Rationed.of_gone (htask : l.task = none) (hwithin : l.begun + l.unbegun ≤ n.toNat) :
    l.Rationed n :=
  ⟨by simp [htask], by simp [htask], by simp [htask], hwithin⟩

/-- The same of the one job that is out. -/
theorem Rationed.with_job {x : Dispatch W} (hr : l.Rationed n) (h : l.jobs = [x]) :
    (∀ t, l.task = some t →
      l.begun + (if x.startedAt.isNone then 1 else 0) = t.executionCount.toNat + 1) ∧
    l.begun + (if x.startedAt.isNone then 1 else 0) ≤ n.toNat := by
  have hunbegun : l.unbegun = if x.startedAt.isNone then 1 else 0 := by
    rw [unbegun, h, List.countP_singleton]
  have hlength : l.jobs.length = 1 := by rw [h, List.length_singleton]
  rw [← hunbegun, ← hlength]
  exact ⟨hr.counted, hr.within⟩

/-- A job that is out leaves room for its attempt to be recorded. -/
theorem Rationed.count_lt {t : Task W} (hr : l.Rationed n) (ht : l.task = some t)
    (hjobs : l.jobs ≠ []) :
    t.executionCount ≠ 4294967295 := by
  intro hmax
  have hcounted := hr.counted t ht
  have hwithin := hr.within
  have hlength := List.length_pos_of_ne_nil hjobs
  have hword := n.toNat_lt
  have hcount : t.executionCount.toNat = 4294967295 := by rw [hmax]; rfl
  omega

/-- No step exceeds the bound. -/
theorem Step.rationed (h : Step delay id l d l') (hl : l.Sound) (hn : 0 < n)
    (hr : l.RunsBoundedBy n → l.Rationed n) (hbound : l'.RunsBoundedBy n) : l'.Rationed n := by
  cases h with
  | aside => exact hr hbound
  | @accept o t asked due now sequence hid new unseen =>
    obtain rfl := hl.unseen unseen
    obtain ⟨a, ha, hbounded⟩ := hbound
    cases ha
    refine .of_task rfl hbounded ?_ (fun _ => ?_) (Nat.zero_le _)
    · change _ = t.executionCount.toNat + _
      rw [new.executionCount]
      rfl
    · change t.executionCount < n
      rw [new.executionCount]
      exact hn
  | @claim t work due now ht hst hw =>
    have hr := hr hbound
    have hjobs : l.jobs = [] := (hl.held _ ht).mp (by simp [hw])
    have hcount : l.begun = t.executionCount.toNat := by
      simpa [unbegun, hjobs] using hr.counted t ht
    have hleft := hr.left t ht (by rw [hst]; decide)
    refine .of_task rfl (hr.bounded t ht) ?_ (fun _ => hleft) ?_
    · simp [unbegun, hjobs, Task.claimed, hcount]
    · simp only [unbegun, hjobs, List.nil_append, List.countP_singleton,
        Option.isNone_none, if_true, hcount]
      exact UInt32.lt_iff_toNat_lt.mp hleft
  | @attempt before after job hid hjobs startedAt =>
    have hr := hr hbound
    obtain ⟨rfl, rfl⟩ := hl.jobs_eq_nil hjobs
    obtain ⟨hcounted, hwithin⟩ := hr.with_job hjobs
    exact ⟨hr.bounded, hcounted, hr.left, hwithin⟩
  | @finish before after job a t u work now notices hid hjobs ht hs =>
    have hr := hr hbound
    obtain ⟨rfl, rfl⟩ := hl.jobs_eq_nil hjobs
    have hmax := hr.count_lt ht (by simp [hjobs])
    obtain ⟨hcounted, hwithin⟩ := hr.with_job hjobs
    have hbounded : u.RunsBoundedBy n := by
      rw [Task.RunsBoundedBy, hs.attempted.recurrence]
      exact hr.bounded t ht
    refine .of_task rfl hbounded ?_ (hs.runs_left (hr.bounded t ht) hn) hwithin
    rw [hs.attempted.executionCount, toNat_countUp hmax]
    exact hcounted t ht
  | @finishGone before after job a work now hid hjobs ht =>
    have hwithin := (hr hbound).within
    obtain ⟨rfl, rfl⟩ := hl.jobs_eq_nil hjobs
    exact .of_gone rfl (Nat.le_trans (Nat.le_add_right _ _) hwithin)
  | @abandon before after job t now hid hjobs ht =>
    have hr := hr hbound
    obtain ⟨rfl, rfl⟩ := hl.jobs_eq_nil hjobs
    obtain ⟨hcounted, hwithin⟩ := hr.with_job hjobs
    refine .of_task rfl ?_ ?_ (fun hu => ?_) (Nat.le_of_succ_le hwithin)
    · rw [Task.RunsBoundedBy, Task.recurrence_handBack]
      exact hr.bounded t ht
    · rw [Task.executionCount_handBack]
      exact Nat.succ.inj (hcounted t ht)
    · rw [Task.executionCount_handBack]
      refine hr.left t ht fun hc => hu ?_
      rw [Task.handBack_of_ne (by rw [hc]; decide)]
      exact hc
  | @abandonGone before after job now hid hjobs ht =>
    have hwithin := (hr hbound).within
    obtain ⟨rfl, rfl⟩ := hl.jobs_eq_nil hjobs
    exact .of_gone rfl (Nat.le_trans (Nat.le_add_right _ _) hwithin)
  | @cancel t ht =>
    have hr := hr hbound
    exact .of_task rfl (hr.bounded t ht) (hr.counted t ht) (fun hu => absurd rfl hu) hr.within
  | @switch t ht hrec enabled =>
    have hr := hr hbound
    exact .of_task rfl ((hr.bounded t ht).switch enabled) (hr.counted t ht) (hr.left t ht) hr.within
  | evict => exact .of_gone rfl (hr hbound).within

end Life

namespace World

variable {w : World W} {n : UInt32}

/-- No reachable world exceeds the bound. -/
theorem Reachable.rationed (hw : w.Reachable) (hn : 0 < n) (id : TaskId) :
    (w.life id).RunsBoundedBy n → (w.life id).Rationed n := by
  refine hw.induction (motive := fun w => (w.life id).RunsBoundedBy n →
    (w.life id).Rationed n) ?_ ?_
  · rintro c s - ⟨a, ha, -⟩
    cases ha
  · intro w d w' hw h ih
    exact (h.life hw.sound id).rationed (hw.sound.lives id) hn ih

/-- A recurring task never runs more often than its bound allows. With its last run it is cancelled,
and nothing is planned for it. -/
theorem Reachable.runs_bounded (hw : w.Reachable) {a : Admission W} {p : Policy}
    (ha : a ∈ w.accepted) (hp : a.task.recurrence = some p) (hn : 0 < p.maxExecutions) :
    w.begun.count a.task.id ≤ p.maxExecutions.toNat ∧
      ∀ t, w.scheduler.task? a.task.id = some t → t.executionCount ≤ p.maxExecutions ∧
        (t.executionCount = p.maxExecutions →
          t.status = .cancelled ∧ t.nextExecution = none ∧
            a.task.id ∉ w.scheduler.queue.toList) := by
  have hadmission : (w.life a.task.id).admission = some a :=
    (find?_of_nodup hw.accepted_once).mpr ⟨ha, rfl⟩
  have hr := hw.rationed hn a.task.id ⟨a, hadmission, p, hp, rfl⟩
  refine ⟨Nat.le_trans (Nat.le_add_right _ _) hr.within, fun t ht => ⟨?_, fun hcount => ?_⟩⟩
  · have hcounted := hr.counted t ht
    have hwithin := hr.within
    refine UInt32.le_iff_toNat_le.mpr ?_
    omega
  · have hstatus : t.status = .cancelled := by
      by_contra hne
      have hleft := hr.left t ht hne
      rw [hcount] at hleft
      exact absurd hleft (UInt32.lt_irrefl _)
    have hstanding := (hw.sound.lives a.task.id).standing t ht
    refine ⟨hstatus, hstanding.nextExecution_of_terminal (by rw [hstatus]; rfl), fun hmem => ?_⟩
    obtain ⟨u, hu, hst⟩ := (hw.sound.queued_iff a.task.id).mp hmem
    obtain rfl := Option.some.inj (ht.symm.trans hu)
    rw [hstatus] at hst
    cases hst

end World

/-- A task to begin with that recurs every hour, and runs once at most. -/
def Task.onceSample : Task Nat :=
  { Task.sample with recurrence := some { pattern := .hourly, maxExecutions := 1 } }

/-- The last run that a task is allowed fails. It has retries left, and is cancelled
all the same. -/
theorem World.last_run_fails : ∃ (w : World Nat) (a : Admission Nat) (p : Policy) (t : Task Nat),
    w.Reachable ∧ a ∈ w.accepted ∧ a.task.recurrence = some p ∧ 0 < p.maxExecutions ∧
    w.scheduler.task? a.task.id = some t ∧ t.executionCount = p.maxExecutions ∧
    t.retryCount < t.maxRetries ∧ w.begun.count a.task.id ≤ p.maxExecutions.toNat ∧
    t.status = .cancelled ∧ t.nextExecution = none ∧ a.task.id ∉ w.scheduler.queue.toList := by
  obtain ⟨w, hplay, a, ha, p, hp, hn, t, ht, hcount, hretries⟩ : ∃ w ∈ sample.play?
      [.accept .recurring .onceSample .epoch .epoch, .claim .epoch, .attempt .sample .epoch,
        .finish .sample 0 .failureSample .epoch],
      ∃ a ∈ w.accepted, ∃ p ∈ a.task.recurrence, 0 < p.maxExecutions ∧
        ∃ t ∈ w.scheduler.task? a.task.id, t.executionCount = p.maxExecutions ∧
          t.retryCount < t.maxRetries := by decide +kernel
  have reachable : w.Reachable := ⟨{}, _, _, rfl, .of_play? hplay⟩
  obtain ⟨hbegun, hbound⟩ := reachable.runs_bounded ha hp hn
  exact ⟨w, a, p, t, reachable, ha, hp, hn, ht, hcount, hretries, hbegun, (hbound t ht).2 hcount⟩

end Timetable
