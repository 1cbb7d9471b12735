import Timetable.Proofs.HandBack
import Timetable.Proofs.Tally

/-!
# The order in which the drain hands back

Jobs leave the channel in the order in which they were sent, and the drain hands one back before it
takes the next. So of two tasks that it has put back into the queue, and that wait alike, the one
whose job was sent earlier stands earlier.
-/
namespace Timetable

variable {W : Type}

/-- A task without a job out, and not claimed now, has no job out afterwards. -/
theorem Life.Step.idle {l l' : Life W} {delay : Span} {id : TaskId} {d : Deed W}
    (h : Life.Step delay id l d l') (hd : ∀ now, d ≠ .claim now) (ha : l.admission ≠ none)
    (hj : l.jobs = []) :
    l'.admission ≠ none ∧ l'.jobs = [] := by
  cases h with
  | aside => exact ⟨ha, hj⟩
  | accept _ _ _ unseen => exact absurd unseen ha
  | claim => exact absurd rfl (hd _)
  | cancel | switch | evict => exact ⟨ha, hj⟩
  | attempt _ hjobs | finish _ hjobs | finishGone _ hjobs | abandon _ hjobs | abandonGone _ hjobs =>
    simp [hj] at hjobs

namespace World

variable {w w' : World W} {d : Deed W}

/-- A call inserts a task only when it accepts it. -/
theorem Step.queue_of_call (h : Step w d w') (hd : d.isCall) (hw : w.Sound) :
    (∀ e ∈ w'.scheduler.queue.byId, e ∈ w.scheduler.queue.byId) ∨
      ∃ id, (w.life id).admission = none ∧ w.scheduler.queue.Turn id w'.scheduler.queue := by
  cases h with
  | claim | attempt | finish | abandon => cases hd
  | @accept o t asked due now s new unseen hdue valid h =>
    obtain ⟨-, rfl⟩ := Scheduler.takeIn_eq_ok h
    refine .inr ⟨t.id, ?_, .insert _ _⟩
    exact List.find?_eq_none.mpr fun a ha => by simpa using unseen a ha
  | @cancel id s h =>
    obtain ⟨t, -, -, rfl⟩ := Scheduler.cancel?_eq_some h
    left
    intro e he
    simp only [turn] at he
    split at he
    · exact he
    · rw [hw.coherent.views.remove_eq] at he
      exact List.mem_of_mem_filter he
  | switch h =>
    obtain ⟨t, -, -, rfl⟩ := Scheduler.setRecurrenceEnabled?_eq_some h
    exact .inl fun e he => he
  | evict h =>
    obtain ⟨t, -, -, -, rfl⟩ := Scheduler.evict_eq_ok h
    exact .inl fun e he => he
  | start h =>
    obtain ⟨_, _, _, rfl⟩ := Scheduler.start_eq_ok h
    exact .inl fun e he => he
  | stop now => exact .inl fun e he => he
  | deliver h => exact .inl fun e he => he

/-- Tasks that are at rest: they were accepted, and no job of theirs is out. -/
def Resting (w : World W) (id : TaskId) : Prop :=
  (w.life id).admission ≠ none ∧ (w.life id).jobs = []

theorem Step.resting (h : Step w d w') (hw : w.Sound) (hd : ∀ now, d ≠ .claim now) {id : TaskId}
    (hr : w.Resting id) : w'.Resting id := (h.life hw id).idle hd hr.1 hr.2

theorem Step.resting_of_claim {now : Instant} (h : Step w (.claim now) w') {id : TaskId}
    (hid : id ∉ (w.scheduler.claimDue now).1.map Job.id) (hr : w.Resting id) : w'.Resting id := by
  cases h with
  | claim =>
    refine ⟨hr.1, ?_⟩
    have hnone : (((w.scheduler.claimDue now).1.map fun job => ({ job } : Dispatch W)).filter
        fun d => d.job.id = id) = [] := by
      simp only [List.filter_eq_nil_iff, List.mem_map, decide_eq_true_eq]
      rintro _ ⟨job, hjob, rfl⟩ rfl
      exact hid (List.mem_map_of_mem hjob)
    simpa [World.life, turn, hnone] using hr.2

/-- A task at rest is none of those that have a job out. -/
theorem Resting.ne {id : TaskId} (hr : w.Resting id) {before after : List (Dispatch W)}
    {x : Dispatch W} (hx : w.jobs = before ++ x :: after) : id ≠ x.job.id := by
  rintro rfl
  have hjobs := jobs_of_eq hx rfl
  rw [hr.2] at hjobs
  simp at hjobs

/-- What is handed back is at rest. -/
theorem Step.resting_of_abandon {job : Job W} {now : Instant} (h : Step w (.abandon job now) w')
    (hw : w.Sound) : w'.Resting job.id := by
  cases h with
  | abandon hjobs =>
    have hl := hw.lives job.id
    have hmine := jobs_of_eq hjobs rfl
    obtain ⟨hbefore, hafter⟩ := hl.jobs_eq_nil hmine
    exact ⟨hl.admitted_of_job hmine, by simp [World.life, hbefore, hafter]⟩

theorem Step.turn_of_abandon {job : Job W} {now : Instant} (h : Step w (.abandon job now) w') :
    w.scheduler.queue.Turn job.id w'.scheduler.queue := by
  cases h with
  | abandon =>
    rcases w.scheduler.queue_abandon job now with heq | ⟨priority, due, heq⟩
    · rw [turn, heq]
      exact .same
    · rw [turn, heq]
      exact .insert priority due

/-- A job handed back puts its task last among all that wait, or leaves it out of the queue. -/
theorem Step.before_of_abandon {job : Job W} {now : Instant} (h : Step w (.abandon job now) w')
    (hw : w.Reachable) {id : TaskId} (hid : id ≠ job.id) : w'.scheduler.queue.Before id job.id := by
  cases h with
  | abandon hjobs =>
    rw [turn]
    rcases w.scheduler.queue_abandon job now with heq | ⟨priority, due, heq⟩
    · -- the task is gone or cancelled, and so not in the queue
      rw [heq]
      rintro e he f hf - hf'
      have hentry := hw.ordered.toConsistent.entryOf?_eq_some.mpr ⟨hf, hf'⟩
      obtain ⟨t, ht, hst, -⟩ := hw.sound.coherent.task_of_entry hentry
      exact absurd hst (hw.sound.status_of_job hjobs ht)
    · rw [heq]
      exact hw.ordered.before_insert priority due hid

/-- A task at rest is not the one that is handed back. -/
theorem Resting.ne_of_abandon {id : TaskId} (hr : w.Resting id) {job : Job W} {now : Instant}
    (h : Step w (.abandon job now) w') : id ≠ job.id := by
  cases h with
  | abandon hjobs => exact hr.ne hjobs

end World

namespace Plant

variable {p p' : Plant W} {x : Act W}

/-- What holds of the jobs that the drain has handed back. -/
structure DrainedInOrder (p : Plant W) : Prop where
  /-- The drain holds one job at most. -/
  single : p.draining.length ≤ 1
  /-- They were sent in this order. -/
  sent : (p.drained ++ p.draining ++ p.shop.pool.waiting).Sublist p.shop.accepted
  resting : ∀ job ∈ p.drained, p.world.Resting job.id
  /-- Those of them that are in the queue were inserted in this order. -/
  queued : p.drained.Pairwise fun i j => p.world.scheduler.queue.Before i.id j.id

theorem DrainedInOrder.opens (h : Opens p) : p.DrainedInOrder := by
  cases h with
  | start _ _ _ _ hpool =>
    refine ⟨Nat.zero_le _, ?_, by simp, List.Pairwise.nil⟩
    simp [draining, Workshop.opened, (Pool.create_new hpool).waiting]

/-- A motion after which the drain holds what the motion has taken, or nothing new. -/
theorem DrainedInOrder.moved (h : p.DrainedInOrder) (hp : p.Reachable) {m : Motion (Job W)}
    (hs : Workshop.Step p.shop m p'.shop) (hdrained : p'.drained = p.drained)
    (hdraining : p'.draining = p.draining ∨ (p.draining = [] ∧ p'.draining = m.taken))
    (hsingle : p'.draining.length ≤ 1) (hresting : ∀ job ∈ p.drained, p'.world.Resting job.id)
    (hqueue : p'.world.scheduler.queue = p.world.scheduler.queue) : p'.DrainedInOrder := by
  obtain ⟨posted, haccepted, hwait⟩ := hs.channel hp.shop.sound.1.pool
  refine ⟨hsingle, ?_, hdrained ▸ hresting, by rw [hdrained, hqueue]; exact h.queued⟩
  have hsent := h.sent.append_right posted
  rw [List.append_assoc, hwait, ← haccepted] at hsent
  refine List.Sublist.trans ?_ hsent
  rw [hdrained]
  rcases hdraining with heq | ⟨hnone, heq⟩
  · rw [heq]
    exact (List.sublist_append_right m.taken _).append_left _
  · rw [hnone, heq]
    simp

/-- A deed about other tasks, or one that inserts nothing. -/
theorem DrainedInOrder.deed (h : p.DrainedInOrder) (hp : p.Reachable) {w : World W} {id : TaskId}
    (hresting : ∀ i, p.world.Resting i → w.Resting i) (hid : ∀ job ∈ p.drained, job.id ≠ id)
    (hturn : p.world.scheduler.queue.Turn id w.scheduler.queue) :
    (∀ job ∈ p.drained, w.Resting job.id) ∧
      p.drained.Pairwise fun i j => w.scheduler.queue.Before i.id j.id :=
  ⟨fun job hjob => hresting job.id (h.resting job hjob),
    h.queued.imp_of_mem fun hi hj hb => hp.world.ordered.before_turn hturn (hid _ hi) (hid _ hj) hb⟩

/-- The one job that the drain holds is the one that is handed back for it. -/
theorem draining_of_split {before after : List (Parting W)} {y : Parting W}
    (hy : p.parting = before ++ y :: after)
    (hsingle : p.draining.length ≤ 1) (hdr : y.byDrain = true) :
    p.draining = [y.job] ∧ ((before ++ after).filter Parting.byDrain).map Parting.job = [] := by
  have hsplit : p.draining = (before.filter Parting.byDrain).map Parting.job ++
      y.job :: (after.filter Parting.byDrain).map Parting.job := by
    simp [draining, hy, List.filter_append, hdr]
  rw [hsplit, List.length_append, List.length_cons] at hsingle
  have hbefore :=
    List.eq_nil_of_length_eq_zero (l := (before.filter Parting.byDrain).map Parting.job) (by omega)
  have hafter :=
    List.eq_nil_of_length_eq_zero (l := (after.filter Parting.byDrain).map Parting.job) (by omega)
  rw [hsplit, hbefore, hafter, List.filter_append, List.map_append, hbefore, hafter]
  exact ⟨rfl, rfl⟩

/-- A job handed back comes last among those that the drain has handed back, if the
drain holds it. -/
theorem DrainedInOrder.handBack (hd : p.DrainedInOrder) (hp : p.Reachable)
    {before after : List (Parting W)}
    {y : Parting W} {now : Instant} {w : World W} (hy : p.parting = before ++ y :: after)
    (h : World.Step p.world (.abandon y.job now) w) : DrainedInOrder { p with
      world := w, parting := before ++ after
      drained := if y.byDrain then p.drained ++ [y.job] else p.drained } := by
  have hw := hp.world.sound
  have hne : ∀ job ∈ p.drained, job.id ≠ y.job.id :=
    fun job hjob => (hd.resting job hjob).ne_of_abandon h
  have hlast : ∀ job ∈ p.drained, w.scheduler.queue.Before job.id y.job.id := fun job hjob =>
    h.before_of_abandon hp.world (hne job hjob)
  obtain ⟨hresting, hqueued⟩ := hd.deed hp (fun i => h.resting hw (by simp)) hne h.turn_of_abandon
  cases hdr : y.byDrain with
  | false =>
    have hsame : p.draining = draining { p with world := w, parting := before ++ after } := by
      simp [draining, hy, List.filter_append, hdr]
    have hsingle := hd.single
    have hsent := hd.sent
    rw [hsame] at hsingle hsent
    exact ⟨hsingle, hsent, hresting, hqueued⟩
  | true =>
    obtain ⟨hone, hnone⟩ := draining_of_split hy hd.single hdr
    have hsent := hd.sent
    rw [hone] at hsent
    refine ⟨?_, ?_, ?_, ?_⟩
    · rw [draining, hnone]
      exact Nat.zero_le _
    · rw [draining, hnone, if_pos rfl, List.append_nil]
      exact hsent
    · intro job hjob
      rw [if_pos rfl] at hjob
      rcases List.mem_append.mp hjob with hjob | hjob
      · exact hresting job hjob
      · rw [List.mem_singleton.mp hjob]
        exact h.resting_of_abandon hw
    · rw [if_pos rfl]
      refine List.pairwise_append.mpr ⟨hqueued, List.pairwise_singleton _ _,
        fun job hjob last hl => ?_⟩
      rw [List.mem_singleton.mp hl]
      exact hlast job hjob

theorem Step.drainedInOrder (h : Step p x p') (hp : p.Reachable) (hd : p.DrainedInOrder) :
    p'.DrainedInOrder := by
  have hw := hp.world.sound
  have hq := hp.world.ordered
  cases h with
  | @call d w hcall h =>
    have hclaim : ∀ now, d ≠ .claim now := by
      rintro now rfl
      cases hcall
    refine ⟨hd.single, hd.sent, fun job hjob => h.resting hw hclaim (hd.resting job hjob), ?_⟩
    rcases h.queue_of_call hcall hw with hsub | ⟨id, hnew, hturn⟩
    · exact hd.queued.imp fun hb e he f hf => hb e (hsub e he) f (hsub f hf)
    · have hne : ∀ job ∈ p.drained, job.id ≠ id := by
        rintro job hjob rfl
        exact (hd.resting job hjob).1 hnew
      exact (hd.deed hp (fun i => h.resting hw hclaim) hne hturn).2
  | @claim now w h =>
    have hqueue := h.queue_of_claim hw
    have hsub := List.filter_sublist (p := fun job : Job W =>
      decide (job.id ∉ (p.world.scheduler.claimDue now).1.map Job.id)) (l := p.drained)
    refine ⟨hd.single, ?_, ?_, ?_⟩
    · exact ((hsub.append_right _).append_right _).trans hd.sent
    · intro job hjob
      obtain ⟨hmem, hfree⟩ := List.mem_filter.mp hjob
      exact h.resting_of_claim (of_decide_eq_true hfree) (hd.resting job hmem)
    · rw [hqueue]
      exact (hd.queued.sublist hsub).imp fun hb => hq.before_extractDue now hb
  | @offer before after job s h hs => exact hd.moved hp hs rfl (.inl rfl) hd.single hd.resting rfl
  | move hm _ hs => exact hd.moved hp hs rfl (.inl rfl) hd.single hd.resting rfl
  | @turnBack m job s hm hdrain hs =>
    have hdraining : draining { p with shop := s, parting := p.parting ++ [⟨job, m.isDrain⟩] } =
        p.draining ++ if m.isDrain then [job] else [] := by
      cases m.isDrain <;> simp [draining, List.filter_append]
    cases hdr : m.isDrain with
    | false =>
      rw [hdr] at hdraining
      have hsame := hdraining.trans (List.append_nil _)
      exact hd.moved hp hs rfl (.inl hsame) (by rw [hsame]; exact hd.single) hd.resting rfl
    | true =>
      have hnone := hdrain hdr
      have htaken := (Motion.of_abandoned hm).2.2.2.2 hdr
      rw [hdr, hnone] at hdraining
      have hone := hdraining.trans htaken.symm
      exact hd.moved hp hs rfl (.inr ⟨hnone, hone⟩) (by rw [hone, htaken]; exact le_rfl)
        hd.resting rfl
  | @begin n job startedAt w s hs h =>
    have hqueue : w.scheduler.queue = p.world.scheduler.queue := by
      cases h with
      | attempt => rfl
    exact hd.moved hp hs rfl (.inl rfl) hd.single
      (fun job hjob => h.resting hw (by simp) (hd.resting job hjob)) hqueue
  | handBack hy h => exact hd.handBack hp hy h
  | @record n job work a now w hbusy hn h =>
    have hout : ∃ front back startedAt, p.world.jobs = front ++ ⟨job, startedAt⟩ :: back := by
      cases h with
      | finish hjobs => exact ⟨_, _, _, hjobs⟩
    obtain ⟨front, back, startedAt, hjobs⟩ := hout
    have hne : ∀ other ∈ p.drained, other.id ≠ job.id :=
      fun other ho => (hd.resting other ho).ne hjobs
    have hturn : p.world.scheduler.queue.Turn job.id w.scheduler.queue := by
      cases h with
      | finish => exact p.world.scheduler.queue_finish { job with work } a now
    obtain ⟨hresting, hqueued⟩ := hd.deed hp (fun i => h.resting hw (by simp)) hne hturn
    exact ⟨hd.single, hd.sent, hresting, hqueued⟩
  | @complete n job s hn hs => exact hd.moved hp hs rfl (.inl rfl) hd.single hd.resting rfl

theorem Reachable.drainedInOrder (hp : p.Reachable) : p.DrainedInOrder :=
  hp.induction (fun _ => DrainedInOrder.opens) fun _ _ _ hp h ih => h.drainedInOrder hp ih

end Plant

end Timetable
