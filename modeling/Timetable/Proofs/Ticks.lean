import Timetable.Proofs.Course
import Timetable.Proofs.Listings
import Timetable.Proofs.Rehearsal
import Timetable.Proofs.Starts

/-!
# What a tick dispatches

Before a tick the waiting tasks can be listed, each with its due time. The tick dispatches those of
them that are due and announces them in the order of the list; the others it leaves as they stand.
Whether there is anything to dispatch can be told from the earliest due time alone.
-/
namespace Timetable

variable {W : Type}

/-- Whether the task is due at that time. -/
def Snapshot.isDue (t : Snapshot) (now : Instant) : Bool := t.nextExecution.any fun due => due ≤ now

theorem Snapshot.isDue_eq {t : Snapshot} {e : QueueEntry} (h : t.nextExecution = e.due)
    (now : Instant) :
    t.isDue now = e.isDue now := by
  rw [isDue, QueueEntry.isDue, h]

/-- The task once it is claimed. -/
def Snapshot.claimed (t : Snapshot) : Snapshot := { t with status := .running }

namespace ReadyQueue

variable {q : ReadyQueue} {now : Instant}

/-- Something is extracted just when the earliest due time has come. -/
theorem extracts_iff (q : ReadyQueue) (now : Instant) :
    0 < (q.extractDue now).1.length ↔ ∃ due, q.nextDue? = some due ∧ due ≤ now := by
  have hlength : (q.extractDue now).1.length = (q.taken now).length := by
    rw [← (sortBy_perm QueueEntry.dispatchedBefore (q.taken now)).length_eq,
      ← List.length_map QueueEntry.id]
    rfl
  rw [hlength, taken, nextDue?]
  cases q.byDue with
  | nil => simp
  | cons e later =>
    rw [List.takeWhile_cons, List.head?_cons, Option.bind_some]
    cases hd : e.due with
    | none => simp [QueueEntry.isDue, hd]
    | some due => by_cases hdue : due ≤ now <;> simp [QueueEntry.isDue, hd, hdue]

/-- What is left after an extraction is due later. -/
theorem Ordered.lt_nextDue? (h : q.Ordered) {due : Instant}
    (hnext : (q.extractDue now).2.nextDue? = some due) :
    now < due := by
  rw [h.extractDue_eq, nextDue?] at hnext
  obtain ⟨e, he, hdue⟩ := Option.bind_eq_some_iff.mp hnext
  have hlate := (List.mem_filter.mp (List.mem_of_mem_head? he)).2
  rw [QueueEntry.isDue, hdue, Option.any_some, Bool.not_eq_true', decide_eq_false_iff_not] at hlate
  exact Int.lt_of_not_ge hlate

end ReadyQueue

namespace Scheduler

/-- What the listing of the waiting tasks promises for a time: those that are due by then,
in its order. -/
def promised (s : Scheduler W) (now : Instant) : List Snapshot :=
  s.listPending.filter fun t => t.isDue now

/-- A tick dispatches what the listing of the waiting tasks has promised. -/
structure KeepsPromise (s : Scheduler W) (now : Instant) (jobs : List (Job W)) (s' : Scheduler W) :
    Prop where
  /-- The tasks promised were waiting and are running now. Of no other task has anything changed. -/
  tasks : ∀ id, s'.snapshot? id = (s.snapshot? id).map fun t => if t ∈ s.promised now then t.claimed
    else t
  waited : ∀ t ∈ s.promised now, t.status = .scheduled
  /-- They are given out and announced in the order in which they were listed. -/
  handedOut : jobs.map Job.id = (s.promised now).map Snapshot.id
  announced : s'.outbox = s.outbox.publish ((s.promised now).map fun t => ⟨.started, t.claimed⟩)
  count : jobs.length = (s.promised now).length
  /-- The others wait on, in the same order. -/
  left : s'.listPending = s.listPending.filter fun t => !t.isDue now
  next : ∀ due, s'.nextDue? = some due → now < due
  pos_iff : 0 < jobs.length ↔ ∃ due, s.nextDue? = some due ∧ due ≤ now

end Scheduler

namespace World

variable {w : World W} {now : Instant}

/-- The promised tasks are those of the entries that are due. -/
theorem Sound.promised_eq (hw : w.Sound) (now : Instant) : w.scheduler.promised now =
    (w.scheduler.queue.dueEntries now).filterMap fun e => w.scheduler.snapshot? e.id :=
  hw.filter_listPending fun _ _ hdue => Snapshot.isDue_eq hdue now

/-- A promised task is one of the index, and it waits. -/
theorem Sound.of_promised (hw : w.Sound) {t : Snapshot} (ht : t ∈ w.scheduler.promised now) :
    w.scheduler.snapshot? t.id = some t ∧ t.status = .scheduled := by
  rw [hw.promised_eq] at ht
  obtain ⟨e, he, hsnapshot⟩ := List.mem_filterMap.mp ht
  obtain ⟨u, hu, hid, hst, -⟩ := hw.snapshot_of_entry (List.mem_of_mem_filter he)
  obtain rfl := Option.some.inj (hsnapshot.symm.trans hu)
  exact ⟨hid ▸ hsnapshot, hst⟩

theorem Reachable.promised_ids (hw : w.Reachable) (now : Instant) :
    (w.scheduler.promised now).map Snapshot.id = (w.scheduler.queue.extractDue now).1 := by
  have hmem : ∀ e ∈ w.scheduler.queue.dueEntries now, e ∈ w.scheduler.queue.byRank :=
    fun e he => (List.mem_filter.mp he).1
  rw [hw.sound.promised_eq, hw.sound.ids_of_entries hmem, hw.ordered.extracted_eq]
  rfl

/-- A task in the index is promised if its identifier will be extracted. -/
theorem Reachable.mem_promised (hw : w.Reachable) {id : TaskId} {t : Snapshot}
    (ht : w.scheduler.snapshot? id = some t) :
    t ∈ w.scheduler.promised now ↔ id ∈ (w.scheduler.queue.extractDue now).1 := by
  have hid : t.id = id := by
    obtain ⟨u, hu, rfl⟩ := Option.map_eq_some_iff.mp ht
    exact Scheduler.id_of_task? hu
  rw [← hw.promised_ids, List.mem_map]
  constructor
  · exact fun hmem => ⟨t, hmem, hid⟩
  · rintro ⟨u, hu, rfl⟩
    rwa [Option.some.inj (ht.symm.trans (hw.sound.of_promised hu).1)]

/-- What a claim publishes is what was promised. -/
theorem Reachable.startNotices_eq (hw : w.Reachable) (now : Instant) :
    (w.scheduler.queue.extractDue now).1.filterMap w.scheduler.startNotice? =
      (w.scheduler.promised now).map fun t => ⟨.started, t.claimed⟩ := by
  rw [hw.sound.promised_eq, hw.ordered.extracted_eq, List.filterMap_map, List.map_filterMap]
  refine List.filterMap_congr fun e _ => ?_
  simp only [Function.comp_apply, Scheduler.startNotice?, Scheduler.snapshot?]
  cases w.scheduler.task? e.id <;> rfl

/-- The tasks that are not due are listed after a claim as they were before. -/
theorem Reachable.listPending_claimDue (hw : w.Reachable) (now : Instant) :
    (w.scheduler.claimDue now).2.listPending =
      w.scheduler.listPending.filter fun t => !t.isDue now := by
  obtain ⟨-, hs, -, htask⟩ := hw.sound.coherent.claimDue_eq hw.sound.armed now
  have hqueue :
      (w.scheduler.claimDue now).2.queue.byRank =
        w.scheduler.queue.byRank.filter fun e => !e.isDue now := by
    rw [congrArg Scheduler.queue hs, hw.ordered.extractDue_eq]
  have hkeep : ∀ (e : QueueEntry) (t : Snapshot), t.nextExecution = e.due →
      (!t.isDue now) = !e.isDue now :=
    fun _ _ hdue => by rw [Snapshot.isDue_eq hdue]
  rw [Scheduler.listPending_eq, hqueue, hw.sound.filter_listPending hkeep]
  refine List.filterMap_congr fun e he => ?_
  -- an entry that is not due is not extracted, as no other entry has its identifier
  have hviews := hw.sound.coherent.views
  obtain ⟨hmem, hlate⟩ := List.mem_filter.mp he
  have hout : e.id ∉ (w.scheduler.queue.extractDue now).1 := fun hin => by
    obtain ⟨f, hf, hdue⟩ := hviews.due_of_mem_extractDue hin
    have hentry := hviews.entryOf?_eq_some.mpr ⟨hviews.ranked.mem_iff.mp hmem, rfl⟩
    obtain rfl := Option.some.inj (hentry.symm.trans hf)
    simp [hdue] at hlate
  rw [Scheduler.snapshot?, htask, if_neg hout]
  rfl

theorem Reachable.snapshot?_claimDue (hw : w.Reachable) (now : Instant) (id : TaskId) :
    (w.scheduler.claimDue now).2.snapshot? id =
      (w.scheduler.snapshot? id).map fun t => if t ∈ w.scheduler.promised now then t.claimed
        else t := by
  obtain ⟨-, -, -, htask⟩ := hw.sound.coherent.claimDue_eq hw.sound.armed now
  cases ht : w.scheduler.task? id with
  | none => simp [Scheduler.snapshot?, htask, ht]
  | some t =>
    have hsnapshot : w.scheduler.snapshot? id = some t.toSnapshot := by
      rw [Scheduler.snapshot?, ht]
      rfl
    have hpromised :
        t.toSnapshot ∈ w.scheduler.promised now ↔ id ∈ (w.scheduler.queue.extractDue now).1 :=
      hw.mem_promised hsnapshot
    rw [hsnapshot, Scheduler.snapshot?, htask, ht, Option.map_some, Option.map_some]
    by_cases hid : id ∈ (w.scheduler.queue.extractDue now).1
    · rw [if_pos hid, if_pos (hpromised.mpr hid)]
      rfl
    · rw [if_neg hid, if_neg fun hmem => hid (hpromised.mp hmem)]
      rfl

/-- A tick of a running scheduler keeps what the listing has promised. -/
theorem Reachable.keeps_promise (hw : w.Reachable) (hrun : w.scheduler.isRunning) (now : Instant) :
    w.scheduler.KeepsPromise now (w.scheduler.tick now).1 (w.scheduler.tick now).2 := by
  have hrunning : w.scheduler.lifecycle = .running := by simpa [Scheduler.isRunning] using hrun
  have hticks : w.scheduler.tick now = w.scheduler.claimDue now := by
    rw [Scheduler.tick, hrun, hw.gated.dispatching.mpr hrunning]
    rfl
  obtain ⟨-, hs, -⟩ := hw.sound.coherent.claimDue_eq hw.sound.armed now
  have hids := hw.sound.coherent.claimed_ids hw.sound.armed now
  have hlength :
      (w.scheduler.claimDue now).1.length = (w.scheduler.queue.extractDue now).1.length := by
    rw [← hids, List.length_map]
  rw [hticks]
  exact {
    tasks := hw.snapshot?_claimDue now
    waited := fun t ht => (hw.sound.of_promised ht).2
    handedOut := by rw [hids, hw.promised_ids]
    announced := by rw [congrArg Scheduler.outbox hs, hw.startNotices_eq]
    count := by rw [hlength, ← hw.promised_ids, List.length_map]
    left := hw.listPending_claimDue now
    next := fun due hdue => by
      rw [Scheduler.nextDue?, congrArg Scheduler.queue hs] at hdue
      exact hw.ordered.lt_nextDue? hdue
    pos_iff := by
      rw [hlength]
      exact w.scheduler.queue.extracts_iff now }

/-- Of three tasks two are promised, the critical one first, though it was accepted last. -/
theorem keeps_promise_of_two : ∃ w : World Nat, w.Reachable ∧ w.scheduler.isRunning ∧
    (w.scheduler.promised .epoch).map Snapshot.id = [.ofNat 3, .ofNat 1] ∧
    w.scheduler.listPending.map Snapshot.id = [.ofNat 3, .ofNat 1, .ofNat 2] ∧
    w.scheduler.KeepsPromise .epoch (w.scheduler.tick .epoch).1 (w.scheduler.tick .epoch).2 := by
  obtain ⟨w, hplay, hrun, hpromised, hlisted⟩ : ∃ w ∈ World.sample.play? [.start .epoch,
      .accept .dueNow Task.sample .epoch .epoch,
      .accept (.dueAt (Instant.epoch.add (.ofMillis 5))) { Task.sample with id := .ofNat 2 }
        .epoch .epoch,
      .accept .dueNow { Task.sample with id := .ofNat 3, priority := .critical } .epoch .epoch],
      w.scheduler.isRunning ∧ (w.scheduler.promised .epoch).map Snapshot.id = [.ofNat 3, .ofNat 1] ∧
        w.scheduler.listPending.map Snapshot.id = [.ofNat 3, .ofNat 1, .ofNat 2] := by
          decide +kernel
  have hw : w.Reachable := ⟨{}, _, _, rfl, .of_play? hplay⟩
  exact ⟨w, hw, hrun, hpromised, hlisted, hw.keeps_promise hrun .epoch⟩

end World

end Timetable
