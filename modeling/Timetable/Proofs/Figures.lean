import Timetable.Proofs.Listings
import Timetable.Proofs.Outstanding

/-!
# The figures of a scheduler

The statistics are taken from the index and from the metrics; the ready queue and the count of jobs
in flight are kept apart from both. In every reachable world all of them tell the same story, and so
do the listings.
-/
namespace Timetable

variable {W : Type}

namespace Statistics

/-- How many tasks are in a status. -/
def count (st : Statistics) : Status → Nat
  | .pending => st.pending
  | .scheduled => st.scheduled
  | .running => st.running
  | .completed => st.completed
  | .failed => st.failed
  | .cancelled => st.cancelled

/-- The counts of all statuses together. -/
def allCounts (st : Statistics) : Nat := (Status.all.map st.count).sum

theorem count_collect (tasks : List (Task W)) (m : Metrics) (status : Status) :
    (collect tasks m).count status = tasks.countP fun t => t.status = status := by
  cases status <;> rfl

/-- Every task is in one status. -/
theorem allCounts_collect (tasks : List (Task W)) (m : Metrics) :
    (collect tasks m).allCounts = tasks.length := by
  have hsum : ∀ st : Statistics, st.allCounts =
      st.pending + (st.scheduled + (st.running + (st.completed + (st.failed + st.cancelled)))) :=
        fun _ => rfl
  rw [hsum]
  simp only [collect]
  induction tasks with
  | nil => rfl
  | cons t tasks ih =>
    rw [List.length_cons, ← ih]
    cases hst : t.status <;> simp [hst] <;> omega

end Statistics

namespace Scheduler

/-- The statistics count the tasks of the index, whatever the pool and the time. -/
theorem count_statistics (s : Scheduler W) (pool : Option (Pool (Job W))) (now : Instant)
    (status : Status) :
    (s.statistics pool now).count status = (s.listByStatus status).length := by
  rw [listByStatus, length_listWhere, ← Statistics.count_collect s.tasks s.metrics]
  cases pool <;> cases status <;> rfl

end Scheduler

namespace World

variable {w : World W}

/-- What the statistics of a world have to do with its listings and with its history. -/
structure Figures (w : World W) (st : Statistics) : Prop where
  total : st.allCounts = st.totalTasks
  /-- Every accepted task is in the index until it is evicted. -/
  accepted : st.totalTasks + w.evicted.length = w.accepted.length
  listed : ∀ status, st.count status = (w.scheduler.listByStatus status).length
  pending : st.pending = 0
  scheduled : st.scheduled = w.scheduler.listPending.length
  /-- The queue and the index know the same tasks to wait. -/
  waiting : w.scheduler.listPending.Perm (w.scheduler.listByStatus .scheduled)
  /-- What is in flight is running or was cancelled after its claim. -/
  inFlight : w.scheduler.inFlight = st.running + w.strays.length
  recurring : st.recurring = (w.scheduler.listAll.filter Snapshot.isRecurring).length
  executions : st.successfulExecutions + st.failedExecutions = st.totalExecutions

theorem mem_accepted {id : TaskId} :
    id ∈ (w.accepted.map fun a => a.task.id) ↔ (w.life id).admission ≠ none := by
  simp [life]

theorem mem_index {id : TaskId} :
    id ∈ (w.scheduler.tasks.map fun t => t.id) ↔ (w.life id).task ≠ none := by
  simp [life, Scheduler.task?]

theorem mem_evicted {id : TaskId} :
    id ∈ (w.evicted.map fun s => s.id) ↔ (w.life id).evicted ≠ [] := by
  simp [life]

/-- An accepted task is in the index, or it has been evicted once. -/
theorem Reachable.accepted_perm (hw : w.Reachable) : (w.accepted.map fun a => a.task.id).Perm
    ((w.scheduler.tasks.map fun t => t.id) ++ w.evicted.map fun s => s.id) := by
  have hunseen : ∀ id, (w.life id).admission = none → (w.life id).task = none ∧
      (w.life id).evicted = [] :=
    fun id h => by simp [(hw.sound.lives id).unseen h]
  have hevicted : (w.evicted.map fun s => s.id).Nodup := by
    refine nodup_of_length_filter_le fun id => ?_
    change (w.life id).evicted.length ≤ 1
    by_cases ht : (w.life id).task = none
    · by_cases ha : (w.life id).admission = none
      · simp [(hunseen id ha).2]
      · obtain ⟨s, hs, -⟩ := (hw.booked id).gone ha ht
        simp [hs]
    · simp [(hw.booked id).unevicted ht]
  have hindex : (w.scheduler.tasks.map fun t => t.id).Nodup := hw.sound.coherent.once
  refine (List.perm_ext_iff_of_nodup hw.accepted_once
    (List.nodup_append.mpr ⟨hindex, hevicted, ?_⟩)).mpr ?_
  · rintro id ht _ hs rfl
    exact mem_evicted.mp hs ((hw.booked id).unevicted (mem_index.mp ht))
  · intro id
    rw [List.mem_append, mem_accepted, mem_index, mem_evicted]
    constructor
    · intro ha
      by_cases ht : (w.life id).task = none
      · obtain ⟨s, hs, -⟩ := (hw.booked id).gone ha ht
        exact .inr (by simp [hs])
      · exact .inl ht
    · rintro (ht | hs) ha
      · exact ht (hunseen id ha).1
      · exact hs (hunseen id ha).2

theorem Reachable.figures (hw : w.Reachable) (pool : Option (Pool (Job W))) (now : Instant) :
    w.Figures (w.scheduler.statistics pool now) where
  total := by
    have hcollect := Statistics.allCounts_collect w.scheduler.tasks w.scheduler.metrics
    cases pool <;> exact hcollect
  accepted := by
    have hlength := hw.accepted_perm.length_eq
    rw [List.length_append, List.length_map, List.length_map, List.length_map] at hlength
    cases pool <;> exact hlength.symm
  listed := w.scheduler.count_statistics pool now
  pending := by
    have hnone : w.scheduler.tasks.countP (fun t => t.status = .pending) = 0 := by
      refine List.countP_eq_zero.mpr fun t ht => ?_
      have htask : w.scheduler.task? t.id = some t := hw.sound.coherent.task?_eq_some.mpr ⟨ht, rfl⟩
      simpa using ((hw.sound.lives t.id).standing t htask).accepted
    cases pool <;> exact hnone
  scheduled := by
    rw [hw.sound.listPending_perm.length_eq]
    exact w.scheduler.count_statistics pool now .scheduled
  waiting := hw.sound.listPending_perm
  inFlight := by
    rw [hw.inFlight_eq_running]
    cases pool <;> rfl
  recurring := by
    rw [Scheduler.listAll, ((w.scheduler.listWhere_perm _).filter _).length_eq, List.filter_true,
      List.filter_map, List.length_map, ← List.countP_eq_length_filter]
    cases pool <;> rfl
  executions := by
    obtain ⟨c, s, deeds, hs, run⟩ := hw
    cases pool <;> exact (run.accounts hs).total.symm

/-- Of four tasks one runs, one waits, and two were cancelled while they ran, one of which has
been evicted. -/
theorem figures_of_cancelled : ∃ w : World Nat, w.Reachable ∧
    w.accepted.length = 4 ∧ w.evicted.map Snapshot.id = [.ofNat 1] ∧
    w.strays.map (fun d => d.job.id) = [.ofNat 1, .ofNat 2] ∧ w.scheduler.inFlight = 3 ∧
    w.Figures (w.scheduler.statistics none .epoch) := by
  obtain ⟨w, hplay, haccepted, hevicted, hstrays, hflight⟩ :
    ∃ w ∈ World.sample.play? [.start .epoch,
      .accept .dueNow Task.sample .epoch .epoch,
      .accept .dueNow { Task.sample with id := .ofNat 2 } .epoch .epoch,
      .accept .dueNow { Task.sample with id := .ofNat 3 } .epoch .epoch,
      .claim .epoch, .cancel (.ofNat 1), .evict (.ofNat 1), .cancel (.ofNat 2),
      .accept .recurring
        { Task.sample with id := .ofNat 4, recurrence := some { pattern := .daily } }
        .epoch .epoch],
      w.accepted.length = 4 ∧ w.evicted.map Snapshot.id = [.ofNat 1] ∧
        w.strays.map (fun d => d.job.id) = [.ofNat 1, .ofNat 2] ∧ w.scheduler.inFlight = 3 := by
          decide +kernel
  have hw : w.Reachable := ⟨{}, _, _, rfl, .of_play? hplay⟩
  exact ⟨w, hw, haccepted, hevicted, hstrays, hflight, hw.figures none .epoch⟩

end World

end Timetable
