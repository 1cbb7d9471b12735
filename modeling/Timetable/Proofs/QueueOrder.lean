import Timetable.Proofs.DispatchOrder
import Timetable.Proofs.Exclusion
import Timetable.Scheduler.Query

/-!
# The order of waiting tasks

A section under the lock touches the queue in one entry, or extracts what is due. So the views of
the queue are in order in every reachable world, and of two tasks that wait alike the one inserted
earlier is listed earlier for as long as both stay in the queue.
-/
namespace Timetable

variable {W : Type}

namespace ReadyQueue

variable {q q' : ReadyQueue} {id : TaskId} {e f : QueueEntry}

/-- What a section about one task can do to the queue. -/
inductive Turn (q : ReadyQueue) (id : TaskId) : ReadyQueue → Prop
  | same : Turn q id q
  | remove : Turn q id (q.remove id).2
  | insert (priority : Priority) (due : Option Instant) : Turn q id (q.insert id priority due).2

/-- Whatever stands in the queue under the one identifier was inserted before what stands
under the other. -/
def Before (q : ReadyQueue) (i j : TaskId) : Prop :=
  ∀ e ∈ q.byId, ∀ f ∈ q.byId, e.id = i → f.id = j → e.number < f.number

namespace Ordered

theorem turn (h : q.Ordered) (ht : q.Turn id q') : q'.Ordered := by
  cases ht with
  | same => exact h
  | remove => exact h.remove id
  | insert priority due => exact h.insert id priority due

theorem mem_remove (h : q.Ordered) : e ∈ (q.remove id).2.byId ↔ e ∈ q.byId ∧ e.id ≠ id := by
  rw [h.toConsistent.remove_eq, List.mem_filter, decide_eq_true_eq]

theorem mem_insert (h : q.Ordered) {priority : Priority} {due : Option Instant}
    (he : e ∈ (q.insert id priority due).2.byId) :
    (e.id = id ∧ e.number = q.nextNumber) ∨ (e.id ≠ id ∧ e ∈ q.byId) := by
  rw [insert_eq] at he
  rcases List.mem_cons.mp he with rfl | he
  · exact .inl ⟨rfl, nextNumber_remove q id⟩
  · obtain ⟨hmem, hne⟩ := h.mem_remove.mp he
    exact .inr ⟨hne, hmem⟩

/-- Entries of other identifiers stay as they are. -/
theorem mem_of_turn (h : q.Ordered) (ht : q.Turn id q') (hne : e.id ≠ id) (he : e ∈ q'.byId) :
    e ∈ q.byId := by
  cases ht with
  | same => exact he
  | remove => exact (h.mem_remove.mp he).1
  | insert =>
    rcases h.mem_insert he with ⟨heq, -⟩ | ⟨-, hmem⟩
    · exact absurd heq hne
    · exact hmem

theorem before_turn (h : q.Ordered) (ht : q.Turn id q') {i j : TaskId} (hi : i ≠ id) (hj : j ≠ id)
    (hb : q.Before i j) : q'.Before i j := by
  rintro e he f hf rfl rfl
  exact hb e (h.mem_of_turn ht hi he) f (h.mem_of_turn ht hj hf) rfl rfl

theorem before_extractDue (h : q.Ordered) (now : Instant) {i j : TaskId} (hb : q.Before i j) :
    (q.extractDue now).2.Before i j := by
  rw [h.extractDue_eq]
  exact fun e he f hf => hb e (List.mem_of_mem_filter he) f (List.mem_of_mem_filter hf)

/-- What is inserted now comes after everything else. -/
theorem before_insert (h : q.Ordered) (priority : Priority) (due : Option Instant) {i : TaskId}
    (hi : i ≠ id) :
    (q.insert id priority due).2.Before i id := by
  rintro e he f hf rfl hfid
  rcases h.mem_insert he with ⟨heq, -⟩ | ⟨-, hmem⟩
  · exact absurd heq hi
  · rcases h.mem_insert hf with ⟨-, hnumber⟩ | ⟨hne, -⟩
    · rw [hnumber]
      exact h.fresh e hmem
    · exact absurd hfid hne

/-- Of two entries that wait alike the one inserted earlier is listed earlier. -/
theorem sublist_toList (h : q.Ordered) (he : e ∈ q.byId) (hf : f ∈ q.byId)
    (hp : e.priority = f.priority)
    (hd : e.due = f.due) (hn : e.number < f.number) : [e.id, f.id].Sublist q.toList := by
  have hlt : e.place < f.place := QueueEntry.place_lt_of_number_lt hp hd hn
  obtain ⟨front, back, hsplit⟩ := List.append_of_mem (h.ranked.mem_iff.mpr he)
  have hplaces := h.byPlace
  rw [hsplit] at hplaces
  have hmem := h.ranked.mem_iff.mpr hf
  rw [hsplit] at hmem
  rcases List.mem_append.mp hmem with hfront | hback
  · have hgt := (List.pairwise_append.mp hplaces).2.2 f hfront e (List.mem_cons_self ..)
    exact absurd hlt hgt.asymm
  · rcases List.mem_cons.mp hback with rfl | hback
    · exact absurd hlt (lt_irrefl _)
    · have hpair : [e, f].Sublist q.byRank := by
        rw [hsplit]
        exact ((List.singleton_sublist.mpr hback).cons_cons e).trans
          (List.sublist_append_right front _)
      exact hpair.map QueueEntry.id

end Ordered

end ReadyQueue

namespace Scheduler

variable {s s' : Scheduler W}

theorem queue_put (s : Scheduler W) (u : Task W) (notices : List Notice) :
    s.queue.Turn u.id (s.put u notices).queue := by
  rw [put]
  cases u.due? with
  | none => exact .same
  | some due => exact .insert _ _

theorem queue_finish (s : Scheduler W) (job : Job W) (a : Attempt) (now : Instant) :
    s.queue.Turn job.id (s.finish job a now).queue := by
  cases h : s.task? job.id with
  | none =>
    rw [finish_of_none job h]
    exact .same
  | some t =>
    have hid := (t.settles job.work a now s.config.retryDelay).attempted.id.trans (id_of_task? h)
    rw [finish_of_some job h, ← hid]
    exact (s.counted a).queue_put _ _

/-- A job handed back puts its task at the end of the queue or leaves the queue alone. -/
theorem queue_abandon (s : Scheduler W) (job : Job W) (now : Instant) :
    (s.abandon job now).queue = s.queue ∨
      ∃ priority due, (s.abandon job now).queue = (s.queue.insert job.id priority due).2 := by
  cases h : s.task? job.id with
  | none =>
    rw [abandon_of_none h]
    exact .inl rfl
  | some t =>
    rw [abandon_of_some h]
    split
    · have hid := (id_handBack t job.work now).trans (id_of_task? h)
      rw [put]
      cases (t.handBack job.work now).due? with
      | none => exact .inl rfl
      | some due => exact .inr ⟨_, _, by rw [hid]; rfl⟩
    · exact .inl rfl

end Scheduler

namespace World

variable {w w' : World W} {d : Deed W}

theorem Step.queue_of_claim {now : Instant} (h : Step w (.claim now) w') (hw : w.Sound) :
    w'.scheduler.queue = (w.scheduler.queue.extractDue now).2 := by
  cases h with
  | claim => rw [turn, (hw.coherent.claimDue_eq hw.armed now).2.1]

/-- A section extracts what is due, or turns to one task. -/
theorem Step.queue (h : Step w d w') (hw : w.Sound) :
    (∃ now, d = .claim now ∧ w'.scheduler.queue = (w.scheduler.queue.extractDue now).2) ∨
      ∃ id, (d.subject? = none ∨ d.subject? = some id) ∧
      w.scheduler.queue.Turn id w'.scheduler.queue := by
  cases h with
  | accept new unseen hdue valid h =>
    obtain ⟨-, rfl⟩ := Scheduler.takeIn_eq_ok h
    exact .inr ⟨_, .inr rfl, .insert _ _⟩
  | claim now => exact .inl ⟨now, rfl, (Step.claim w now).queue_of_claim hw⟩
  | attempt h startedAt => exact .inr ⟨_, .inr rfl, .same⟩
  | @finish before after job a h work now =>
    exact .inr ⟨job.id, .inr rfl, w.scheduler.queue_finish { job with work } a now⟩
  | @abandon before after job h now =>
    refine .inr ⟨job.id, .inr rfl, ?_⟩
    rcases w.scheduler.queue_abandon job now with hq | ⟨priority, due, hq⟩
    · rw [turn, hq]
      exact .same
    · rw [turn, hq]
      exact .insert priority due
  | @cancel id s h =>
    obtain ⟨t, -, -, rfl⟩ := Scheduler.cancel?_eq_some h
    refine .inr ⟨id, .inr rfl, ?_⟩
    rw [turn]
    split
    · exact .same
    · exact .remove
  | switch h =>
    obtain ⟨t, -, -, rfl⟩ := Scheduler.setRecurrenceEnabled?_eq_some h
    exact .inr ⟨_, .inr rfl, .same⟩
  | evict h =>
    obtain ⟨t, -, -, -, rfl⟩ := Scheduler.evict_eq_ok h
    exact .inr ⟨_, .inr rfl, .same⟩
  | start h =>
    obtain ⟨_, _, _, rfl⟩ := Scheduler.start_eq_ok h
    exact .inr ⟨default, .inl rfl, .same⟩
  | stop now => exact .inr ⟨default, .inl rfl, .same⟩
  | deliver h => exact .inr ⟨default, .inl rfl, .same⟩

theorem Step.ordered (h : Step w d w') (hw : w.Sound) (hq : w.scheduler.queue.Ordered) :
    w'.scheduler.queue.Ordered := by
  rcases h.queue hw with ⟨now, -, heq⟩ | ⟨id, -, hturn⟩
  · rw [heq]
    exact hq.extractDue now
  · exact hq.turn hturn

/-- In every reachable world the queue is in order. -/
theorem Reachable.ordered (hw : w.Reachable) : w.scheduler.queue.Ordered := by
  refine hw.induction (motive := fun w => w.scheduler.queue.Ordered) (fun c s hs => ?_)
    fun w d w' hw h ih => h.ordered hw.sound ih
  obtain rfl := Scheduler.create_eq_ok hs
  exact ReadyQueue.ordered_empty

/-- Of two tasks that wait alike the one inserted earlier is listed earlier. -/
theorem Reachable.sublist_listPending (hw : w.Reachable) {i j : TaskId}
    (hb : w.scheduler.queue.Before i j) {t u : Task W} (ht : w.scheduler.task? i = some t)
    (hu : w.scheduler.task? j = some u) (hts : t.status = .scheduled) (hus : u.status = .scheduled)
    (hp : t.priority = u.priority) (hn : t.nextExecution = u.nextExecution) :
    [t.toSnapshot, u.toSnapshot].Sublist w.scheduler.listPending := by
  have hranked := hw.sound.coherent.views.ranked
  obtain ⟨e, he, rfl, hep, hed⟩ := hw.sound.entry ht hts
  obtain ⟨f, hf, rfl, hfp, hfd⟩ := hw.sound.entry hu hus
  have he := hranked.mem_iff.mp he
  have hf := hranked.mem_iff.mp hf
  have hlisted := hw.ordered.sublist_toList he hf (by rw [hep, hfp, hp]) (by rw [hed, hfd, hn])
    (hb e he f hf rfl rfl)
  have hpending := hlisted.filterMap fun id => (w.scheduler.task? id).map Task.toSnapshot
  simpa [ht, hu, Scheduler.listPending] using hpending

end World

end Timetable
