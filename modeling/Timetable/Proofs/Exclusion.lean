import Timetable.Proofs.Soundness

/-!
# At most one attempt at a time

In every reachable world the ready queue holds the waiting tasks and nothing else, a unit of work is
in one place only, and a due time lies ahead of a task exactly while it waits or runs. It follows
that a tick leaves out nothing it extracts from the queue, and that no task is executing twice.
-/
namespace Timetable

variable {W : Type}

namespace World

/-- The jobs of the identifier that are out: claimed, and neither recorded nor handed back. -/
def jobsOf (w : World W) (id : TaskId) : List (Dispatch W) := w.jobs.filter fun d => d.job.id = id

/-- The identifiers of the tasks that are executing. -/
def executing (w : World W) : List TaskId :=
  (w.jobs.filter fun d => d.startedAt.isSome).map fun d => d.job.id

/-- Index, ready queue and jobs tell one story. -/
structure Orderly (w : World W) : Prop where
  /-- The views of the queue agree, and each holds an identifier once at most. -/
  views : w.scheduler.queue.Consistent
  queuedOnce : w.scheduler.queue.toList.Nodup
  queued_iff : ∀ id, id ∈ w.scheduler.queue.toList ↔
    ∃ t, w.scheduler.task? id = some t ∧ t.status = .scheduled
  /-- What a place in the queue depends on is what the task says. -/
  key : ∀ e ∈ w.scheduler.queue.byRank, ∃ t, w.scheduler.task? e.id = some t ∧
    e.priority = t.priority ∧ e.due = t.nextExecution ∧ e.due = t.scheduledAt ∧ e.due.isSome
  /-- The unit of work is with the task or with the one job that is out. -/
  held : ∀ id t, w.scheduler.task? id = some t →
    (t.work.isSome ∧ w.jobsOf id = []) ∨ (t.work = none ∧ ∃ d, w.jobsOf id = [d])
  running : ∀ id t, w.scheduler.task? id = some t → t.status = .running → ∃ d, w.jobsOf id = [d]
  waiting : ∀ id t, w.scheduler.task? id = some t → t.status = .scheduled → w.jobsOf id = []
  planned : ∀ id t, w.scheduler.task? id = some t →
    (t.nextExecution.isSome ↔ t.status = .scheduled ∨ t.status = .running)
  accepted : ∀ id t, w.scheduler.task? id = some t → t.status ≠ .pending
  /-- Whatever a tick extracts is in the index, waits and has its unit of work. -/
  claimable : ∀ now, ∀ id ∈ (w.scheduler.queue.extractDue now).1,
    ∃ t, w.scheduler.task? id = some t ∧ t.status = .scheduled ∧ t.work.isSome
  /-- Whatever a tick extracts it claims, in the order of extraction. -/
  claimed : ∀ now, (w.scheduler.claimDue now).1.map Job.id = (w.scheduler.queue.extractDue now).1
  /-- No task has two jobs out, also of those no longer in the index. -/
  once : (w.jobs.map fun d => d.job.id).Nodup
  executingOnce : w.executing.Nodup

/-- A list in which every identifier is found once at most. -/
theorem nodup_of_length_filter_le {β : Type} {l : List β} {key : β → TaskId}
    (h : ∀ id, (l.filter fun b => key b = id).length ≤ 1) : (l.map key).Nodup := by
  refine List.nodup_iff_count_le_one.mpr fun id => ?_
  rw [List.count, List.countP_map, List.countP_eq_length_filter]
  exact h id

variable {w : World W}

theorem Sound.once (h : w.Sound) : (w.jobs.map fun d => d.job.id).Nodup :=
  nodup_of_length_filter_le fun id => (h.lives id).single

/-- The entry of an identifier stands for its task. -/
theorem Sound.key (h : w.Sound) {e : QueueEntry} (he : e ∈ w.scheduler.queue.byRank) :
    ∃ t, w.scheduler.task? e.id = some t ∧ t.status = .scheduled ∧ e.priority = t.priority ∧
      e.due = t.nextExecution ∧ e.due.isSome := by
  have hviews := h.coherent.views
  exact h.coherent.task_of_entry (hviews.entryOf?_eq_some.mpr ⟨hviews.ranked.mem_iff.mp he, rfl⟩)

theorem Sound.queued_iff (h : w.Sound) (id : TaskId) :
    id ∈ w.scheduler.queue.toList ↔ ∃ t, w.scheduler.task? id = some t ∧ t.status = .scheduled := by
  rw [h.coherent.views.mem_toList]
  constructor
  · rintro ⟨e, he⟩
    obtain ⟨t, ht, hst, -⟩ := h.coherent.task_of_entry he
    exact ⟨t, ht, hst⟩
  · rintro ⟨t, ht, hst⟩
    have hq := h.coherent.queued id
    have hnext := ((h.lives id).standing t ht).planned.mpr (.inl hst)
    obtain ⟨due, hdue⟩ := Option.isSome_iff_exists.mp hnext
    rw [ht, Option.bind_some, Task.waiting?, Task.due?, if_pos hst, hdue, Option.map_some] at hq
    obtain ⟨e, he, -⟩ := Option.map_eq_some_iff.mp hq
    exact ⟨e, he⟩

/-- A task that waits is in the queue. -/
theorem Sound.entry (h : w.Sound) {id : TaskId} {t : Task W} (ht : w.scheduler.task? id = some t)
    (hs : t.status = .scheduled) :
    ∃ e ∈ w.scheduler.queue.byRank, e.id = id ∧ e.priority = t.priority ∧
    e.due = t.nextExecution := by
  obtain ⟨e, he, rfl⟩ := List.mem_map.mp ((h.queued_iff id).mpr ⟨t, ht, hs⟩)
  obtain ⟨u, hu, -, hpriority, hdue, -⟩ := h.key he
  obtain rfl := Option.some.inj (ht.symm.trans hu)
  exact ⟨e, he, rfl, hpriority, hdue⟩

/-- A unit of work that is not with its task is with one job. -/
theorem Sound.held (h : w.Sound) {id : TaskId} {t : Task W} (ht : w.scheduler.task? id = some t) :
    (t.work.isSome ∧ w.jobsOf id = []) ∨ (t.work = none ∧ ∃ d, w.jobsOf id = [d]) := by
  have hheld := (h.lives id).held t ht
  have hsingle := (h.lives id).single
  change t.work.isSome ↔ w.jobsOf id = [] at hheld
  change (w.jobsOf id).length ≤ 1 at hsingle
  cases hw : t.work with
  | some work => exact .inl ⟨rfl, hheld.mp (by simp [hw])⟩
  | none =>
    refine .inr ⟨rfl, ?_⟩
    cases hj : w.jobsOf id with
    | nil =>
      have := hheld.mpr hj
      simp [hw] at this
    | cons d ds =>
      rw [hj, List.length_cons] at hsingle
      have : ds = [] := List.eq_nil_of_length_eq_zero (by omega)
      exact ⟨d, by rw [this]⟩

/-- Every reachable world is orderly. -/
theorem Reachable.orderly (hw : w.Reachable) : w.Orderly where
  views := hw.sound.coherent.views
  queuedOnce := hw.sound.coherent.views.nodup_toList
  queued_iff := hw.sound.queued_iff
  key := by
    intro e he
    obtain ⟨t, ht, hst, hp, hd, hsome⟩ := hw.sound.key he
    have hstanding := (hw.sound.lives e.id).standing t ht
    have hdated := hstanding.dated (hstanding.planned.mpr (.inl hst))
    exact ⟨t, ht, hp, hd, hd.trans hdated.symm, hsome⟩
  held := fun _ _ ht => hw.sound.held ht
  running := by
    intro id t ht hst
    have hwork := ((hw.sound.lives id).standing t ht).running hst
    rcases hw.sound.held ht with ⟨hsome, -⟩ | ⟨-, hjob⟩
    · simp [hwork] at hsome
    · exact hjob
  waiting := by
    intro id t ht hst
    have hwork := ((hw.sound.lives id).standing t ht).resting (.inl hst)
    exact ((hw.sound.lives id).held t ht).mp hwork
  planned := fun id t ht => ((hw.sound.lives id).standing t ht).planned
  accepted := fun id t ht => ((hw.sound.lives id).standing t ht).accepted
  claimable := by
    intro now id hid
    obtain ⟨t, due, ht, hst, hwork, -⟩ := hw.sound.coherent.claimable hw.sound.armed hid
    exact ⟨t, ht, hst, hwork⟩
  claimed := hw.sound.coherent.claimed_ids hw.sound.armed
  once := hw.sound.once
  executingOnce := hw.sound.once.sublist (List.filter_sublist.map _)

/-- A task is executing, in an orderly world. -/
theorem orderly_executing :
    ∃ w : World Nat, w.Reachable ∧ w.executing = [.ofNat 1] ∧ w.Orderly := by
  obtain ⟨w, hw, -, hjobs, -⟩ := exists_executing
  exact ⟨w, hw, by simp [executing, hjobs], hw.orderly⟩

end World

end Timetable
