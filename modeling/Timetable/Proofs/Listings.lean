import Timetable.Proofs.QueueOrder

/-!
# What the listings list

The tasks that wait are listed entry by entry of the ready queue; all other listings go through the
index. In a sound world the two ways lead to the same tasks.
-/
namespace Timetable

variable {W : Type}

namespace Scheduler

variable {s : Scheduler W} {test : Task W → Bool}

theorem listPending_eq (s : Scheduler W) :
    s.listPending = s.queue.byRank.filterMap fun e => s.snapshot? e.id := List.filterMap_map

/-- A listing has the tasks that satisfy the test, in some order. -/
theorem listWhere_perm (s : Scheduler W) (test : Task W → Bool) :
    (s.listWhere test).Perm ((s.tasks.filter test).map Task.toSnapshot) :=
      (List.mergeSort_perm ..).map _

theorem length_listWhere (s : Scheduler W) (test : Task W → Bool) :
    (s.listWhere test).length = s.tasks.countP test := by
  rw [(s.listWhere_perm test).length_eq, List.length_map, List.countP_eq_length_filter]

theorem mem_listWhere {t : Snapshot} :
    t ∈ s.listWhere test ↔ ∃ u ∈ s.tasks, test u = true ∧ u.toSnapshot = t := by
  simp only [(s.listWhere_perm test).mem_iff, List.mem_map, List.mem_filter, and_assoc]

theorem Coherent.task?_eq_some (h : s.Coherent) {id : TaskId} {t : Task W} :
    s.task? id = some t ↔ t ∈ s.tasks ∧ t.id = id := find?_of_nodup h.once

/-- No task is listed twice. -/
theorem Coherent.nodup_listWhere (h : s.Coherent) (test : Task W → Bool) :
    (s.listWhere test).Nodup := by
  refine (s.listWhere_perm test).nodup_iff.mpr (List.Nodup.of_map Snapshot.id ?_)
  rw [List.map_map]
  exact h.once.sublist (List.filter_sublist.map _)

end Scheduler

namespace World

variable {w : World W}

/-- An entry of the queue stands for a snapshot of a task that waits. -/
theorem Sound.snapshot_of_entry (h : w.Sound) {e : QueueEntry} (he : e ∈ w.scheduler.queue.byRank) :
    ∃ t, w.scheduler.snapshot? e.id = some t ∧ t.id = e.id ∧ t.status = .scheduled ∧
    t.nextExecution = e.due := by
  obtain ⟨t, ht, hst, -, hdue, -⟩ := h.key he
  exact ⟨t.toSnapshot, by rw [Scheduler.snapshot?, ht]; rfl, Scheduler.id_of_task? ht,
    hst, hdue.symm⟩

/-- The waiting tasks that satisfy a test are those of the entries that satisfy it. -/
theorem Sound.filter_listPending (h : w.Sound) {keep : Snapshot → Bool}
    {keepEntry : QueueEntry → Bool}
    (hkeep : ∀ e t, t.nextExecution = e.due → keep t = keepEntry e) :
    w.scheduler.listPending.filter keep =
      (w.scheduler.queue.byRank.filter keepEntry).filterMap fun e =>
        w.scheduler.snapshot? e.id := by
  rw [Scheduler.listPending_eq, List.filter_filterMap, List.filterMap_filter]
  refine List.filterMap_congr fun e he => ?_
  obtain ⟨t, ht, -, -, hdue⟩ := h.snapshot_of_entry he
  rw [ht, Option.filter_some, hkeep e t hdue]

/-- Nothing in the queue is left out when the waiting tasks are listed. -/
theorem Sound.ids_of_entries (h : w.Sound) {entries : List QueueEntry}
    (hmem : ∀ e ∈ entries, e ∈ w.scheduler.queue.byRank) :
    (entries.filterMap fun e => w.scheduler.snapshot? e.id).map Snapshot.id =
      entries.map QueueEntry.id := by
  rw [List.map_filterMap, ← List.filterMap_eq_map]
  refine List.filterMap_congr fun e he => ?_
  obtain ⟨t, ht, hid, -⟩ := h.snapshot_of_entry (hmem e he)
  rw [ht, Option.map_some, hid]
  rfl

theorem Sound.mem_listPending (h : w.Sound) {t : Snapshot} :
    t ∈ w.scheduler.listPending ↔ t ∈ w.scheduler.listByStatus .scheduled := by
  rw [Scheduler.listPending, Scheduler.listByStatus, Scheduler.mem_listWhere, List.mem_filterMap]
  simp only [decide_eq_true_eq]
  constructor
  · rintro ⟨id, hid, ht⟩
    obtain ⟨u, hu, rfl⟩ := Option.map_eq_some_iff.mp ht
    obtain ⟨v, hv, hst⟩ := (h.queued_iff id).mp hid
    obtain rfl := Option.some.inj (hu.symm.trans hv)
    exact ⟨u, (h.coherent.task?_eq_some.mp hu).1, hst, rfl⟩
  · rintro ⟨u, hu, hst, rfl⟩
    have htask : w.scheduler.task? u.id = some u := h.coherent.task?_eq_some.mpr ⟨hu, rfl⟩
    exact ⟨u.id, (h.queued_iff u.id).mpr ⟨u, htask, hst⟩, by rw [htask]; rfl⟩

/-- The waiting tasks are those whose status says so. -/
theorem Sound.listPending_perm (h : w.Sound) :
    w.scheduler.listPending.Perm (w.scheduler.listByStatus .scheduled) := by
  have hnodup : w.scheduler.listPending.Nodup := by
    refine List.Nodup.of_map Snapshot.id ?_
    rw [Scheduler.listPending_eq, h.ids_of_entries fun e he => he]
    exact h.coherent.views.nodup_toList
  exact (List.perm_ext_iff_of_nodup hnodup (h.coherent.nodup_listWhere _)).mpr fun t =>
    h.mem_listPending

end World

end Timetable
