import Timetable.Proofs.Soundness

/-!
# The end of a recurrence

A recurring task is given due times when it is accepted, when it recurs and when a failed attempt is
retried. The first two heed the end time of its recurrence and the last does not. So the due times
stay within the end time in exactly those runs in which no retry is planned for later than that.
-/
namespace Timetable

variable {W : Type}

/-- No due time lies after that instant. -/
structure Snapshot.Within (s : Snapshot) (e : Instant) : Prop where
  scheduled : ∀ due ∈ s.scheduledAt, due ≤ e
  ahead : ∀ due ∈ s.nextExecution, due ≤ e

/-- The first run of a recurring task is within the end time. -/
theorem Offer.due?_le {t : Task W} {asked due e : Instant} {p : Policy}
    (h : Offer.recurring.due? t asked = .ok due) (hp : t.recurrence = some p)
    (he : p.endTime = some e) :
    due ≤ e := by
  simp only [due?, hp, he] at h
  split at h
  · cases h
  · rename_i hlate
    obtain rfl := Except.ok.inj h
    rw [Option.filter_some] at hlate
    have hnot : ¬ e < t.nextExecution.getD asked := by
      intro hlt
      simp [hlt] at hlate
    exact Int.not_lt.mp hnot

/-- Every recurrence is within the end time. -/
theorem Policy.next?_le {p : Policy} {now due e : Instant} {executions : UInt32}
    (h : p.next? now executions = some due) (he : p.endTime = some e) : due ≤ e := by
  unfold next? at h
  split at h
  · simpa [he] using (Option.filter_eq_some_iff.mp h).2
  · cases h

namespace Task

/-- The recurrence of the task ends at that instant. -/
def EndsAt (t : Task W) (e : Instant) : Prop := ∃ p, t.recurrence = some p ∧ p.endTime = some e

/-- After the attempt a retry is planned, and for later than that instant. -/
structure RetriesAfter (t : Task W) (w : W) (a : Attempt) (now : Instant) (delay : Span)
    (e : Instant) : Prop where
  live : t.status ≠ .cancelled
  failed : a.outcome ≠ .success
  unexhausted : (t.ended w a).isExhausted = false
  left : t.retryCount < t.maxRetries
  late : e < now.add delay

variable {t u : Task W} {w : W} {a : Attempt} {now e : Instant} {delay : Span}
  {notices : List Notice}

theorem within_schedule (t : Task W) {due : Instant} (h : due ≤ e) :
    (t.schedule due).toSnapshot.Within e := by
  constructor <;> simpa [schedule] using h

theorem within_claimed (h : t.toSnapshot.Within e) : t.claimed.toSnapshot.Within e :=
  ⟨h.scheduled, h.ahead⟩

theorem within_switch (h : t.toSnapshot.Within e) (enabled : Bool) :
    (t.switch enabled).toSnapshot.Within e := ⟨h.scheduled, h.ahead⟩

theorem within_cancel (h : t.toSnapshot.Within e) : t.cancel.toSnapshot.Within e :=
  ⟨h.scheduled, by simp [cancel]⟩

theorem within_ended (h : t.toSnapshot.Within e) (w : W) (a : Attempt) :
    (t.ended w a).toSnapshot.Within e := by
  refine ⟨by simpa using h.scheduled, ?_⟩
  by_cases hs : t.status = .cancelled
  · rw [ended_nextExecution_of_cancelled t w a hs]
    exact h.ahead
  · simp [ended_nextExecution t w a hs]

/-- A task whose job is handed back keeps its due time. -/
theorem within_handBack (h : t.toSnapshot.Within e) (hs : t.Standing) (w : W) (now : Instant) :
    (t.handBack w now).toSnapshot.Within e := by
  unfold handBack
  split
  · rename_i hrun
    obtain ⟨due, hdue⟩ := Option.isSome_iff_exists.mp (hs.planned.mpr (.inr hrun))
    rw [hdue, Option.getD_some]
    exact within_schedule _ (h.ahead due hdue)
  · exact h

/-- An attempt gives a task no due time after the end, unless a retry does. -/
theorem Settles.within (h : t.Settles w a now delay u notices) (ht : t.toSnapshot.Within e)
    (hend : t.EndsAt e) (timely : ¬ t.RetriesAfter w a now delay e) :
    u.toSnapshot.Within e ∧ ∀ n ∈ notices, n.task.Within e := by
  have hended := within_ended ht w a
  obtain ⟨p, hp, he⟩ := hend
  cases h with
  | cancelled | completed | failed => exact ⟨hended, by simpa [notice] using hended⟩
  | expires | exhausted =>
    have hcancel := within_cancel hended
    exact ⟨hcancel, by simpa [notice] using ⟨hended, hcancel⟩⟩
  | @recurs _ _ q hq due hn =>
    obtain rfl := Option.some.inj (hp.symm.trans hq)
    have hnext := within_schedule (t.ended w a) (Policy.next?_le hn he)
    exact ⟨hnext, by simpa [notice] using ⟨hended, hnext⟩⟩
  | @retries hs error ho hx hr =>
    have hdue : now.add delay ≤ e := by
      by_contra hlate
      exact timely ⟨hs, by simp [ho], hx, hr, Int.not_le.mp hlate⟩
    have hnext :=
      within_schedule { t.ended w a with retryCount := countUp (t.ended w a).retryCount } hdue
    exact ⟨hnext, by simpa [notice] using ⟨hended, hnext⟩⟩

/-- A late retry is announced under its due time. -/
theorem Settles.late (h : t.Settles w a now delay u notices)
    (late : t.RetriesAfter w a now delay e) :
    ∃ n ∈ notices, n.event = .scheduled ∧ n.task.nextExecution = some (now.add delay) := by
  cases h with
  | cancelled h => exact absurd h late.live
  | completed _ ho | recurs _ ho | expires _ ho => exact absurd ho late.failed
  | exhausted _ _ hx => exact absurd (hx.symm.trans late.unexhausted) (by decide)
  | failed _ _ _ hr => exact absurd late.left (UInt32.not_lt.mpr hr)
  | retries => exact ⟨_, List.mem_cons_of_mem _ (List.mem_singleton_self _), rfl, rfl⟩

end Task

namespace Life

variable {l l' : Life W} {delay : Span} {id : TaskId} {d : Deed W} {e : Instant}

/-- No due time that the task was ever seen with lies after that instant. -/
structure Within (l : Life W) (e : Instant) : Prop where
  task : ∀ t, l.task = some t → t.toSnapshot.Within e
  evicted : ∀ s ∈ l.evicted, s.Within e
  notices : ∀ n ∈ l.notices, n.task.Within e

/-- The task was accepted as a recurring one, and its recurrence ends at that instant. -/
def EndsAt (l : Life W) (e : Instant) : Prop :=
  ∃ t p, l.admission = some ⟨.recurring, t⟩ ∧ t.recurrence = some p ∧ p.endTime = some e

/-- Nothing of the task lies after its end. -/
structure Bounded (l : Life W) (e : Instant) : Prop where
  ends : ∀ t, l.task = some t → t.EndsAt e
  within : l.Within e

/-- The deed plans a retry for later than that instant. -/
def LateRetry (l : Life W) (delay : Span) (id : TaskId) (e : Instant) : Deed W → Prop
  | .finish job work a now =>
    job.id = id ∧ ∃ t, l.task = some t ∧ t.RetriesAfter work a now delay e
  | _ => False

/-- A task is changed, and some notices of it are published. -/
theorem Bounded.change (hb : l.Bounded e) {u : Task W} {news : List Notice} (hends : u.EndsAt e)
    (hu : u.toSnapshot.Within e) (hnews : ∀ n ∈ news, n.task.Within e) (htask : l'.task = some u)
    (hevicted : l'.evicted = l.evicted) (hnotices : l'.notices = l.notices ++ news) :
    l'.Bounded e := by
  refine ⟨?_, ?_, hevicted ▸ hb.within.evicted, ?_⟩
  · intro v hv
    obtain rfl := Option.some.inj (htask.symm.trans hv)
    exact hends
  · intro v hv
    obtain rfl := Option.some.inj (htask.symm.trans hv)
    exact hu
  · intro n hn
    rw [hnotices] at hn
    rcases List.mem_append.mp hn with hn | hn
    · exact hb.within.notices n hn
    · exact hnews n hn

/-- A task leaves, or is gone already. -/
theorem Bounded.leave (hb : l.Bounded e) {last : List Snapshot} (hlast : ∀ s ∈ last, s.Within e)
    (htask : l'.task = none) (hevicted : l'.evicted = l.evicted ++ last)
    (hnotices : l'.notices = l.notices) : l'.Bounded e := by
  refine ⟨by simp [htask], by simp [htask], ?_, hnotices ▸ hb.within.notices⟩
  intro s hs
  rw [hevicted] at hs
  rcases List.mem_append.mp hs with hs | hs
  · exact hb.within.evicted s hs
  · exact hlast s hs

/-- A step that plans no late retry keeps everything within the end. -/
theorem Step.bounded (h : Step delay id l d l') (hl : l.Sound) (hb : l.EndsAt e → l.Bounded e)
    (hend : l'.EndsAt e) (timely : ¬ l.LateRetry delay id e d) : l'.Bounded e := by
  cases h with
  | aside => exact hb hend
  | @accept o t asked due now sequence hid new unseen hdue valid =>
    obtain rfl := hl.unseen unseen
    obtain ⟨u, p, hu, hp, he⟩ := hend
    cases hu
    have hfirst := Task.within_schedule (t.accept now sequence) (Offer.due?_le hdue hp he)
    refine ⟨?_, ?_, by simp, ?_⟩
    · intro u hu
      obtain rfl := Option.some.inj hu
      exact ⟨p, hp, he⟩
    · intro u hu
      obtain rfl := Option.some.inj hu
      exact hfirst
    · intro n hn
      obtain rfl := List.mem_singleton.mp hn
      exact hfirst
  | @claim t _ _ _ ht =>
    have hb := hb hend
    have hclaimed := Task.within_claimed (hb.within.task t ht)
    exact hb.change (u := t.claimed) (hb.ends t ht) hclaimed (by simpa [Task.notice] using hclaimed)
      rfl rfl rfl
  | attempt =>
    have hb := hb hend
    exact ⟨hb.ends, hb.within.task, hb.within.evicted, hb.within.notices⟩
  | @finish before after job a t u work now notices hid hjobs ht hs =>
    have hb := hb hend
    have hsettled := hs.within (hb.within.task t ht) (hb.ends t ht) fun late =>
      timely ⟨hid, t, ht, late⟩
    have hends : u.EndsAt e := by
      rw [Task.EndsAt, hs.attempted.recurrence]
      exact hb.ends t ht
    exact hb.change hends hsettled.1 hsettled.2 rfl rfl rfl
  | finishGone | abandonGone =>
    have hnone : ∀ s ∈ ([] : List Snapshot), s.Within e := by simp
    exact (hb hend).leave hnone rfl (List.append_nil _).symm rfl
  | @abandon before after job t now hid hjobs ht =>
    have hb := hb hend
    have hends : (t.handBack job.work now).EndsAt e := by
      rw [Task.EndsAt, Task.recurrence_handBack]
      exact hb.ends t ht
    exact hb.change hends (Task.within_handBack (hb.within.task t ht) (hl.standing t ht) _ _)
      (by simp) rfl rfl (List.append_nil _).symm
  | @cancel t ht =>
    have hb := hb hend
    have hcancel := Task.within_cancel (hb.within.task t ht)
    exact hb.change (hb.ends t ht) (u := t.cancel) hcancel (by simpa [Task.notice] using hcancel)
      rfl rfl rfl
  | @switch t ht hrec enabled =>
    have hb := hb hend
    obtain ⟨p, hp, he⟩ := hb.ends t ht
    have hends : (t.switch enabled).EndsAt e := ⟨{ p with enabled }, by simp [Task.switch, hp], he⟩
    exact hb.change hends (Task.within_switch (hb.within.task t ht) enabled) (by simp) rfl rfl
      (List.append_nil _).symm
  | @evict t ht =>
    have hb := hb hend
    exact hb.leave (by simpa using hb.within.task t ht) rfl rfl rfl

/-- A step that plans a late retry announces it. -/
theorem Step.late (h : Step delay id l d l') (hlate : l.LateRetry delay id e d) :
    ∃ n ∈ l'.notices, n.event = .scheduled ∧ ∃ due, n.task.nextExecution = some due ∧ e < due := by
  cases h with
  | aside h =>
    cases d with
    | finish job => exact absurd (congrArg some hlate.1) h
    | _ => exact hlate.elim
  | finish _ _ ht hs =>
    obtain ⟨-, t, hsome, late⟩ := hlate
    obtain rfl := Option.some.inj (ht.symm.trans hsome)
    obtain ⟨n, hn, hevent, hnext⟩ := hs.late late
    exact ⟨n, List.mem_append_right _ hn, hevent, _, hnext, late.late⟩
  | finishGone _ _ ht =>
    obtain ⟨-, t, hsome, -⟩ := hlate
    rw [ht] at hsome
    cases hsome
  | _ => exact hlate.elim

end Life

namespace World

variable {w w' : World W} {s : Scheduler W} {deeds : List (Deed W)} {id : TaskId} {e : Instant}

/-- A run that plans no retry of the task for later than that instant. -/
inductive TimelyRun (id : TaskId) (e : Instant) : World W → List (Deed W) → World W → Prop
  | refl (w : World W) : TimelyRun id e w [] w
  | step {w w₁ w₂ : World W} {deeds : List (Deed W)} {d : Deed W} (run : TimelyRun id e w deeds w₁)
    (h : Step w₁ d w₂)
    (timely : ¬ (w₁.life id).LateRetry w₁.scheduler.config.retryDelay id e d) :
    TimelyRun id e w (deeds ++ [d]) w₂

theorem TimelyRun.run (h : TimelyRun id e w deeds w') : Run w deeds w' := by
  induction h with
  | refl => exact .refl _
  | step _ h _ ih => exact ih.step h

/-- In a timely run nothing of a recurring task lies after its end. -/
theorem TimelyRun.bounded (h : TimelyRun id e (fresh s) deeds w) (hw : (fresh s).Reachable)
    (hend : (w.life id).EndsAt e) : (w.life id).Bounded e := by
  generalize hfresh : fresh s = start at h hw
  induction h with
  | refl =>
    subst hfresh
    obtain ⟨t, p, ht, -⟩ := hend
    cases ht
  | step run h timely ih =>
    have hsound := (hw.run run.run).sound
    exact (h.life hsound id).bounded (hsound.lives id) ih hend timely

/-- A run that announces no due time after that instant is timely. -/
theorem Run.timely (run : Run w deeds w') (hw : w.Reachable)
    (h : ∀ n ∈ w'.history, n.task.id = id → n.task.Within e) : TimelyRun id e w deeds w' := by
  induction run with
  | refl => exact .refl _
  | step run hstep ih =>
    obtain ⟨news, hnews⟩ := hstep.history
    refine .step (ih fun n hn => h n (hnews ▸ List.mem_append_left _ hn)) hstep fun hlate => ?_
    obtain ⟨n, hn, -, due, hdue, hafter⟩ := (hstep.life (hw.run run).sound id).late hlate
    obtain ⟨hmem, hid⟩ := List.mem_filter.mp hn
    exact absurd ((h n hmem (by simpa using hid)).ahead due hdue) (Int.not_le.mpr hafter)

/-- The due times of a recurring task stay within its end in exactly the runs that plan no retry of
it for later. -/
theorem Run.within_iff_timely {c : Config} (run : Run (fresh s) deeds w)
    (hs : Scheduler.create c = .ok s) {t : Task W} {p : Policy} (ht : ⟨.recurring, t⟩ ∈ w.accepted)
    (hp : t.recurrence = some p) (he : p.endTime = some e) :
    (w.life t.id).Within e ↔ TimelyRun t.id e (fresh s) deeds w := by
  have hfresh : (fresh s).Reachable := ⟨c, s, [], hs, .refl _⟩
  have hadmission : (w.life t.id).admission = some ⟨.recurring, t⟩ :=
    (find?_of_nodup (hfresh.run run).accepted_once).mpr ⟨ht, rfl⟩
  constructor
  · intro h
    refine run.timely hfresh fun n hn hid => ?_
    exact h.notices n (List.mem_filter.mpr ⟨hn, by simpa using hid⟩)
  · intro h
    exact (h.bounded hfresh ⟨t, p, hadmission, hp, he⟩).within

end World

/-- A task to begin with that recurs every hour until that instant. -/
def Task.hourlySample (last : Instant) : Task Nat :=
  { Task.sample with recurrence := some { pattern := .hourly, endTime := some last } }

theorem Task.isNew_hourlySample (last : Instant) : (Task.hourlySample last).IsNew :=
  ⟨rfl, rfl, ⟨rfl, rfl, rfl⟩, rfl, rfl, rfl⟩

namespace World

/-- A recurring task succeeds, and its next run is within the end. -/
theorem within_hourlySample : ∃ (w : World Nat) (deeds : List (Deed Nat)) (t u : Task Nat),
    Run (fresh { config := {} }) deeds w ∧ ⟨.recurring, t⟩ ∈ w.accepted ∧
    w.scheduler.task? t.id = some u ∧ u.executionCount = 1 ∧ u.status = .scheduled ∧
    (w.life t.id).Within .last := by
  have created : Scheduler.create {} = .ok ({ config := {} } : Scheduler Nat) := rfl
  have accepted := (@TimelyRun.refl Nat (.ofNat 1) .last (fresh { config := {} })).step
    (@Step.accept _ _ .recurring _ .epoch .epoch .epoch _ (Task.isNew_hourlySample .last)
      (by simp [fresh]) rfl (by decide) rfl) fun late => late
  have claimed := accepted.step (.claim _ .epoch) fun late => late
  have begun := claimed.step (@Step.attempt _ _ [] [] ⟨.ofNat 1, 0⟩ rfl .epoch) fun late => late
  have succeeded := begun.step
    (@Step.finish _ _ [] [] ⟨.ofNat 1, 0⟩ ⟨.epoch, default, .success⟩ rfl 0 .epoch)
    (by rintro ⟨_, _, _, late⟩; exact late.failed rfl)
  exact ⟨_, _, Task.hourlySample .last, _, succeeded.run, List.mem_singleton_self _, rfl, rfl, rfl,
    (succeeded.run.within_iff_timely created (List.mem_singleton_self _) rfl rfl).mpr succeeded⟩

/-- A recurring task that has run at its end time fails, and is to be tried again half a
minute later. -/
theorem exists_after_end : ∃ (w : World Nat) (t u : Task Nat) (p : Policy) (e due : Instant),
    w.Reachable ∧ ⟨.recurring, t⟩ ∈ w.accepted ∧ t.recurrence = some p ∧ p.endTime = some e ∧
    w.scheduler.task? t.id = some u ∧ u.status = .scheduled ∧
    u.nextExecution = some due ∧ e < due := by
  have accepted := (Run.refl (fresh ({ config := {} } : Scheduler Nat))).step
    (@Step.accept _ _ .recurring _ .epoch .epoch .epoch _ (Task.isNew_hourlySample .epoch)
      (by simp [fresh]) rfl (by decide) rfl)
  have claimed := accepted.step (.claim _ .epoch)
  have begun := claimed.step (@Step.attempt _ _ [] [] ⟨.ofNat 1, 0⟩ rfl .epoch)
  have failed := begun.step
    (@Step.finish _ _ [] [] ⟨.ofNat 1, 0⟩ ⟨.epoch, default, .failure "disk full"⟩ rfl 0 .epoch)
  exact ⟨_, _, _, _, _, _, ⟨{}, _, _, rfl, failed⟩, List.mem_singleton_self _, rfl, rfl, rfl, rfl,
    rfl, by decide⟩

end World

end Timetable
