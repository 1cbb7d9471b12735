import Timetable.Proofs.Coherence

/-!
# Claiming due tasks

When every task that waits has its unit of work, claiming what is due leaves nothing out: the jobs
are those of the extracted identifiers, in that order, and exactly their tasks are running
afterwards.
-/
namespace Timetable

variable {W : Type}

/-- In a list drawn from identifiers that are all different, what belongs to one of them. -/
theorem filter_filterMap_of_nodup {β : Type} {ids : List TaskId} (hn : ids.Nodup)
    {f : TaskId → Option β} {key : β → TaskId} (hf : ∀ id b, f id = some b → key b = id)
    (id : TaskId) :
    (ids.filterMap f).filter (fun b => key b = id) = if id ∈ ids then (f id).toList else [] := by
  induction ids with
  | nil => rfl
  | cons a ids ih =>
    obtain ⟨ha, hn⟩ := List.nodup_cons.mp hn
    have hhead :
        ((f a).toList).filter (fun b => key b = id) = if id = a then (f a).toList else [] := by
      cases hfa : f a with
      | none => simp
      | some b =>
        have hb := hf a b hfa
        by_cases hid : id = a
        · simp [hb, hid]
        · have : a ≠ id := fun e => hid e.symm
          simp [hb, hid, this]
    have hsplit : (a :: ids).filterMap f = (f a).toList ++ ids.filterMap f := by
      cases hfa : f a <;> simp [hfa]
    rw [hsplit, List.filter_append, hhead, ih hn]
    by_cases hid : id = a
    · subst id
      simp [ha]
    · simp [hid]

namespace Scheduler

variable {s : Scheduler W} {id : TaskId} {t : Task W}

/-- A task that waits has its unit of work. -/
def Armed (s : Scheduler W) : Prop :=
  ∀ id t, s.task? id = some t → t.status = .scheduled → t.work.isSome

/-- The identifier's task waits and has its unit of work. -/
def Claimable (s : Scheduler W) (id : TaskId) : Prop :=
  ∃ t, s.task? id = some t ∧ t.status = .scheduled ∧ t.work.isSome

/-- The job that a claim of the identifier's task makes. -/
def jobOf? (s : Scheduler W) (id : TaskId) : Option (Job W) :=
  (s.task? id).bind fun t => t.work.map fun work => { id, work }

/-- The notice that a claim of the identifier's task publishes. -/
def startNotice? (s : Scheduler W) (id : TaskId) : Option Notice :=
  (s.task? id).map fun t => t.claimed.notice .started

theorem id_of_jobOf? {job : Job W} (h : s.jobOf? id = some job) : job.id = id := by
  obtain ⟨t, -, hw⟩ := Option.bind_eq_some_iff.mp h
  obtain ⟨w, -, rfl⟩ := Option.map_eq_some_iff.mp hw
  rfl

theorem id_of_startNotice? {n : Notice} (h : s.startNotice? id = some n) : n.task.id = id := by
  obtain ⟨t, ht, rfl⟩ := Option.map_eq_some_iff.mp h
  exact (id_of_task? ht :)

/-- The scheduler with that task claimed. -/
def claiming (s : Scheduler W) (t : Task W) : Scheduler W :=
  { s with
    tasks := replace s.tasks t.claimed
    inFlight := s.inFlight + 1
    outbox := s.outbox.publish [t.claimed.notice .started] }

/-- A claimable task is claimed: it makes a job and a notice. -/
theorem Claimable.claim? (h : s.Claimable id) :
    ∃ t job, s.task? id = some t ∧ s.claim? id = some (job, s.claiming t) ∧
      s.jobOf? id = some job ∧ s.startNotice? id = some (t.claimed.notice .started) := by
  obtain ⟨t, ht, hs, hw⟩ := h
  obtain ⟨w, hw⟩ := Option.isSome_iff_exists.mp hw
  refine ⟨t, { id, work := w }, ht, ?_, ?_, ?_⟩
  · simp [Scheduler.claim?, ht, hs, Task.claim?, hw, claiming]
  · simp [jobOf?, ht, hw]
  · simp [startNotice?, ht]

theorem outbox_claim? {job : Job W} {s' : Scheduler W} (h : s.claim? id = some (job, s')) :
    ∃ notices, s'.outbox = s.outbox.publish notices := by
  unfold Scheduler.claim? at h
  split at h
  · cases h
  · split at h
    · cases h
    · obtain ⟨_, -, heq⟩ := Option.map_eq_some_iff.mp h
      obtain ⟨-, rfl⟩ := Prod.mk.inj heq
      exact ⟨_, rfl⟩

/-- Claiming a task changes no other. -/
theorem task?_claiming (h : s.task? id = some t) (other : TaskId) :
    (s.claiming t).task? other =
      if other = id then (s.task? other).map Task.claimed else s.task? other :=
  task?_of_replace h rfl rfl other

/-- Claimable tasks are claimed one after the other, with nothing left out. -/
theorem claimAll_eq {ids : List TaskId} (hn : ids.Nodup) (hc : ∀ id ∈ ids, s.Claimable id) :
    (s.claimAll ids).1 = ids.filterMap s.jobOf? ∧
      (s.claimAll ids).2 = { s with
        tasks := (s.claimAll ids).2.tasks
        inFlight := s.inFlight + ids.length
        outbox := s.outbox.publish (ids.filterMap s.startNotice?) } ∧
      ((s.claimAll ids).2.tasks.map fun t => t.id) = (s.tasks.map fun t => t.id) ∧
      ∀ other, (s.claimAll ids).2.task? other =
        if other ∈ ids then (s.task? other).map Task.claimed else s.task? other := by
  induction ids generalizing s with
  | nil => exact ⟨rfl, by simp [claimAll], rfl, fun other => by simp [claimAll]⟩
  | cons id ids ih =>
    obtain ⟨hid, hn⟩ := List.nodup_cons.mp hn
    obtain ⟨t, job, ht, hclaim, hjob, hnotice⟩ := (hc id (by simp)).claim?
    have htask := task?_claiming ht
    have hother : ∀ other ∈ ids, (s.claiming t).task? other = s.task? other := by
      intro other ho
      have hne : other ≠ id := fun e => hid (e ▸ ho)
      rw [htask, if_neg hne]
    obtain ⟨hjobs, hrest, hids₁, htask₁⟩ := ih hn fun other ho => by
      rw [Claimable, hother other ho]
      exact hc other (by simp [ho])
    have hall : s.claimAll (id :: ids) =
        (job :: ((s.claiming t).claimAll ids).1, ((s.claiming t).claimAll ids).2) := by
      rw [claimAll, hclaim]
    rw [hall]
    refine ⟨?_, ?_, hids₁.trans (ids_replace _ _), ?_⟩
    · rw [List.filterMap_cons_some hjob, hjobs]
      refine congrArg _ (List.filterMap_congr fun other ho => ?_)
      rw [jobOf?, jobOf?, hother other ho]
    · have hnotices : ids.filterMap (s.claiming t).startNotice? = ids.filterMap s.startNotice? :=
        List.filterMap_congr fun other ho => by rw [startNotice?, startNotice?, hother other ho]
      refine hrest.trans ?_
      rw [hnotices, List.filterMap_cons_some hnotice, List.length_cons]
      simp only [claiming, Outbox.publish_publish, List.singleton_append]
      rw [Nat.add_assoc, Nat.add_comm 1]
    · intro other
      rw [htask₁, htask]
      by_cases ho : other = id
      · subst ho
        simp [hid]
      · simp [ho]

/-- Claiming publishes some notices and leaves the outbox alone otherwise. -/
theorem outbox_claimAll (s : Scheduler W) (ids : List TaskId) :
    ∃ notices, (s.claimAll ids).2.outbox = s.outbox.publish notices := by
  induction ids generalizing s with
  | nil => exact ⟨[], (Outbox.publish_nil _).symm⟩
  | cons id ids ih =>
    rw [claimAll]
    split
    · exact ih s
    · rename_i job after hclaim
      obtain ⟨notices, hrest⟩ := ih after
      obtain ⟨started, hfirst⟩ := outbox_claim? hclaim
      exact ⟨started ++ notices, by rw [hrest, hfirst, Outbox.publish_publish]⟩

/-- What an extraction finds in a coherent scheduler can be claimed. -/
theorem Coherent.claimable (h : s.Coherent) (ha : s.Armed) {now : Instant}
    (hid : id ∈ (s.queue.extractDue now).1) :
    ∃ t due, s.task? id = some t ∧ t.status = .scheduled ∧ t.work.isSome ∧
      t.nextExecution = some due ∧ due ≤ now := by
  obtain ⟨e, he, hdue⟩ := h.views.due_of_mem_extractDue hid
  obtain ⟨t, ht, hst, -, hnext, hsome⟩ := h.task_of_entry he
  obtain ⟨due, hedue⟩ := Option.isSome_iff_exists.mp hsome
  refine ⟨t, due, ht, hst, ha id t ht hst, hnext.symm.trans hedue, ?_⟩
  simpa [QueueEntry.isDue, hedue] using hdue

/-- What claiming does to a coherent scheduler. -/
theorem Coherent.claimDue_eq (h : s.Coherent) (ha : s.Armed) (now : Instant) :
    (s.claimDue now).1 = (s.queue.extractDue now).1.filterMap s.jobOf? ∧
      (s.claimDue now).2 = { s with
        tasks := (s.claimDue now).2.tasks
        queue := (s.queue.extractDue now).2
        inFlight := s.inFlight + (s.queue.extractDue now).1.length
        outbox := s.outbox.publish ((s.queue.extractDue now).1.filterMap s.startNotice?) } ∧
      ((s.claimDue now).2.tasks.map fun t => t.id) = (s.tasks.map fun t => t.id) ∧
      ∀ other, (s.claimDue now).2.task? other =
        if other ∈ (s.queue.extractDue now).1 then (s.task? other).map Task.claimed
        else s.task? other :=
  claimAll_eq (s := { s with queue := (s.queue.extractDue now).2 }) (h.views.nodup_extractDue now)
    fun _ hid => by
      obtain ⟨t, due, ht, hst, hw, -⟩ := h.claimable ha hid
      exact ⟨t, ht, hst, hw⟩

/-- Nothing that is extracted is skipped. -/
theorem Coherent.claimed_ids (h : s.Coherent) (ha : s.Armed) (now : Instant) :
    (s.claimDue now).1.map Job.id = (s.queue.extractDue now).1 := by
  rw [(h.claimDue_eq ha now).1]
  have hall : ∀ id ∈ (s.queue.extractDue now).1, ((s.jobOf? id).map Job.id) = some id := by
    intro id hid
    obtain ⟨t, due, ht, -, hw, -⟩ := h.claimable ha hid
    obtain ⟨w, hw⟩ := Option.isSome_iff_exists.mp hw
    simp [jobOf?, ht, hw]
  rw [List.map_filterMap]
  calc _ = (s.queue.extractDue now).1.filterMap some := List.filterMap_congr hall
    _ = _ := List.filterMap_some

theorem Coherent.claimDue (h : s.Coherent) (ha : s.Armed) (now : Instant) :
    (s.claimDue now).2.Coherent := by
  obtain ⟨-, hs, hids, htask⟩ := h.claimDue_eq ha now
  have hqueue : (s.claimDue now).2.queue = (s.queue.extractDue now).2 := by rw [hs]
  refine ⟨hids ▸ h.once, hqueue ▸ h.views.extractDue now, ?_⟩
  intro id
  rw [hqueue, h.views.waiting?_extractDue, htask, h.queued]
  split
  · cases s.task? id with
    | none => rfl
    | some t => exact (Task.waiting?_of_ne (by simp [Task.claimed])).symm
  · rfl

end Scheduler

end Timetable
