import Mathlib.Algebra.BigOperators.Group.List.Basic
import Mathlib.Algebra.GroupWithZero.Nat
import Timetable.Proofs.Rehearsal
import Timetable.Proofs.Soundness
import Timetable.Scheduler.Query

/-!
# The accounts of attempts

An attempt that ends is entered three times: in the metrics, among the notices and in the count of
its task. The metrics take every attempt. The other two entries need the task to be in the index
still; and a task that was cancelled while its attempt went on may be evicted before the attempt
ends. So the accounts agree in exactly those runs in which no attempt ends after the eviction of its
task.
-/
namespace Timetable

variable {W : Type}

/-- Whether an event of the kind tells how an attempt came out. -/
def EventKind.isOutcome : EventKind → Bool
  | completed | failed => true
  | scheduled | started | cancelled => false

/-- Whether the notice tells how an attempt came out. -/
def Notice.isOutcome (n : Notice) : Bool := n.event.kind.isOutcome

@[simp] theorem Task.isOutcome_notice (t : Task W) (e : Event) :
    (t.notice e).isOutcome = e.kind.isOutcome := rfl

@[simp] theorem Attempt.isOutcome_verdict (a : Attempt) : a.verdict.kind.isOutcome := by
  rw [Attempt.verdict]
  cases a.outcome <;> rfl

@[simp] theorem Event.isOutcome_scheduled : Event.scheduled.kind.isOutcome = false := rfl

@[simp] theorem Event.isOutcome_started : Event.started.kind.isOutcome = false := rfl

@[simp] theorem Event.isOutcome_cancelled : Event.cancelled.kind.isOutcome = false := rfl

theorem toNat_countUp_eq_min (n : UInt32) : (countUp n).toNat = min (n.toNat + 1) 4294967295 := by
  by_cases h : n = 4294967295
  · subst h
    rfl
  · have hne : n.toNat ≠ 4294967295 := fun e => h (UInt32.toNat_inj.mp (by simpa using e))
    have hlt := n.toNat_lt
    rw [toNat_countUp h]
    omega

/-- What a list holds is what it holds of each key. -/
theorem countP_eq_sum_filter {α : Type} {l : List α} {key : α → TaskId} {keys : List TaskId}
    (hn : keys.Nodup) (hall : ∀ a ∈ l, key a ∈ keys) (p : α → Bool) :
    l.countP p = (keys.map fun k => (l.filter fun a => key a = k).countP p).sum := by
  induction l with
  | nil => simp
  | cons a l ih =>
    have hsplit : ∀ k, ((a :: l).filter fun b => key b = k).countP p =
        (l.filter fun b => key b = k).countP p + if key a = k ∧ p a then 1 else 0 := by
      intro k
      by_cases hk : key a = k <;> simp [hk, List.countP_cons]
    have hone :
        (keys.map fun k => if key a = k ∧ p a then 1 else 0).sum = if p a then 1 else 0 := by
      rw [List.sum_map_eq_nsmul_single (key a) _ fun k hk _ => by simp [Ne.symm hk],
        List.count_eq_one_of_mem hn (hall a (by simp))]
      simp
    rw [List.countP_cons, ih fun b hb => hall b (by simp [hb]),
      List.map_congr_left fun k _ => hsplit k, List.sum_map_add, hone]

theorem countP_isOutcome (l : List Notice) : l.countP Notice.isOutcome =
    (l.countP fun n => n.event.kind = .completed) + l.countP fun n => n.event.kind = .failed := by
  induction l with
  | nil => rfl
  | cons n l ih =>
    obtain ⟨e, task⟩ := n
    rw [List.countP_cons, List.countP_cons, List.countP_cons, ih]
    cases e <;> simp [Notice.isOutcome, Event.kind, EventKind.isOutcome] <;> omega

/-! ## The count of a task -/

/-- An attempt is announced by one notice of its outcome. -/
theorem Task.Settles.outcomes {t u : Task W} {w : W} {a : Attempt} {now : Instant} {delay : Span}
    {notices : List Notice} (h : t.Settles w a now delay u notices) :
    notices.filter Notice.isOutcome = [(t.ended w a).notice a.verdict] := by
  cases h <;> simp

namespace Life

variable {l l' : Life W} {delay : Span} {id : TaskId} {d : Deed W}

/-- How many attempts of the task have been announced. -/
def recorded (l : Life W) : Nat := l.notices.countP Notice.isOutcome

/-- The count of the task is that of its announced attempts, up to the largest word; an evicted task
keeps the count it was last seen with. -/
structure Booked (l : Life W) : Prop where
  present : ∀ t, l.task = some t → t.executionCount.toNat = min l.recorded 4294967295
  unevicted : l.task ≠ none → l.evicted = []
  gone : l.admission ≠ none → l.task = none →
    ∃ s, l.evicted = [s] ∧ s.executionCount.toNat = min l.recorded 4294967295

theorem Booked.of_task {u : Task W} (htask : l.task = some u)
    (hcount : u.executionCount.toNat = min l.recorded 4294967295) (hevicted : l.evicted = []) :
    l.Booked where
  present := by
    intro v hv
    obtain rfl := Option.some.inj (htask.symm.trans hv)
    exact hcount
  unevicted := fun _ => hevicted
  gone := by simp [htask]

/-- A task is changed, and so are not its count and its announced attempts. -/
theorem Booked.change {t u : Task W} {news : List Notice} (hb : l.Booked) (ht : l.task = some t)
    (hcount : u.executionCount = t.executionCount) (hnews : ∀ n ∈ news, n.isOutcome = false)
    (htask : l'.task = some u) (hevicted : l'.evicted = l.evicted)
    (hnotices : l'.notices = l.notices ++ news) : l'.Booked := by
  have hnone : news.countP Notice.isOutcome = 0 :=
    List.countP_eq_zero.mpr fun n hn => by simp [hnews n hn]
  refine .of_task htask ?_ (hevicted.trans (hb.unevicted (by simp [ht])))
  rw [hcount, hb.present t ht, recorded, recorded, hnotices, List.countP_append,
    hnone, Nat.add_zero]

/-- No step brings count and notices apart. -/
theorem Step.booked (h : Step delay id l d l') (hl : l.Sound) (hb : l.Booked) : l'.Booked := by
  cases h with
  | aside => exact hb
  | accept sequence hid new unseen =>
    obtain rfl := hl.unseen unseen
    refine .of_task rfl ?_ rfl
    simp only [Task.schedule, Task.accept, new.executionCount]
    rfl
  | @claim t _ _ _ ht =>
    exact hb.change (u := t.claimed) ht rfl (by simp) rfl rfl rfl
  | attempt => exact ⟨hb.present, hb.unevicted, hb.gone⟩
  | @finish before after job a t u work now notices hid hjobs ht hs =>
    refine .of_task rfl ?_ (hb.unevicted (by simp [ht]))
    have hone : notices.countP Notice.isOutcome = 1 := by
      rw [List.countP_eq_length_filter, hs.outcomes]
      rfl
    rw [hs.attempted.executionCount, toNat_countUp_eq_min, hb.present t ht, recorded, recorded,
      List.countP_append, hone]
    omega
  | finishGone _ _ ht | abandonGone _ _ ht => exact ⟨by simp, by simp, fun ha _ => hb.gone ha ht⟩
  | abandon _ _ ht =>
    exact hb.change ht (Task.executionCount_handBack _ _ _) (by simp) rfl rfl
      (List.append_nil _).symm
  | @cancel t ht =>
    exact hb.change (u := t.cancel) ht rfl (by simp) rfl rfl rfl
  | @switch t ht _ enabled =>
    exact hb.change (u := t.switch enabled) ht rfl (by simp) rfl rfl (List.append_nil _).symm
  | @evict t ht =>
    refine ⟨by simp, by simp, fun _ _ => ⟨t.toSnapshot, ?_, hb.present t ht⟩⟩
    rw [hb.unevicted (by simp [ht]), List.nil_append]

end Life

namespace World

variable {w w' : World W} {d : Deed W} {deeds : List (Deed W)} {id : TaskId}

theorem Reachable.booked (hw : w.Reachable) (id : TaskId) : (w.life id).Booked := by
  refine hw.induction (motive := fun w => (w.life id).Booked) (fun c s hs => ?_) ?_
  · rw [((Sound.fresh hs).lives id).unseen rfl]
    exact ⟨by simp, by simp, by simp⟩
  · intro w d w' hw h ih
    exact (h.life hw.sound id).booked (hw.sound.lives id) ih

/-- How the task was last seen: as it stands, or as it was when it was evicted. -/
def lastSeen? (w : World W) (id : TaskId) : Option Snapshot :=
  (w.scheduler.snapshot? id).or (w.evicted.find? fun s => s.id = id)

/-- The count of attempts that the task was last seen with. -/
def executionsOf (w : World W) (id : TaskId) : Nat :=
  ((w.lastSeen? id).map fun s => s.executionCount.toNat).getD 0

/-- The counts of all tasks accepted so far. -/
def executions (w : World W) : Nat := (w.accepted.map fun a => w.executionsOf a.task.id).sum

/-- How many events of the kind have been published. -/
def announced (w : World W) (k : EventKind) : Nat := w.history.countP fun n => n.event.kind = k

/-- The accounts of attempts agree. -/
structure Balanced (w : World W) : Prop where
  completed : w.announced .completed = w.scheduler.metrics.succeeded
  failed : w.announced .failed = w.scheduler.metrics.failed
  total : w.scheduler.metrics.total = w.executions

theorem Reachable.executionsOf_eq (hw : w.Reachable) {a : Admission W} (ha : a ∈ w.accepted) :
    w.executionsOf a.task.id = min (w.life a.task.id).recorded 4294967295 := by
  have hb := hw.booked a.task.id
  have hadmission : (w.life a.task.id).admission = some a :=
    (find?_of_nodup hw.accepted_once).mpr ⟨ha, rfl⟩
  cases ht : w.scheduler.task? a.task.id with
  | some t =>
    rw [executionsOf, lastSeen?, Scheduler.snapshot?, ht]
    exact hb.present t ht
  | none =>
    obtain ⟨s, hs, hcount⟩ := hb.gone (by simp [hadmission]) ht
    have hfind : (w.evicted.find? fun s => s.id = a.task.id) = some s := by
      rw [← List.head?_filter]
      exact congrArg List.head? hs
    rw [executionsOf, lastSeen?, Scheduler.snapshot?, ht, hfind]
    exact hcount

/-- The counts of the tasks make up the announced attempts. -/
theorem Reachable.executions_eq (hw : w.Reachable)
    (uncapped : ∀ a ∈ w.accepted, w.executionsOf a.task.id < 4294967295) :
    w.executions = w.announced .completed + w.announced .failed := by
  have haccepted : ∀ n ∈ w.history, n.task.id ∈ w.accepted.map fun a => a.task.id := by
    intro n hn
    by_contra hne
    have hnone : (w.life n.task.id).admission = none :=
      List.find?_eq_none.mpr fun a ha => by
        simpa using fun e => hne (List.mem_map.mpr ⟨a, ha, e⟩)
    have hnotices : (w.life n.task.id).notices = [] := by
      rw [(hw.sound.lives n.task.id).unseen hnone]
    exact absurd (List.mem_filter.mpr ⟨hn, by simp⟩) (List.eq_nil_iff_forall_not_mem.mp hnotices n)
  have hof : ∀ a ∈ w.accepted, w.executionsOf a.task.id = (w.life a.task.id).recorded := by
    intro a ha
    have hcap := uncapped a ha
    rw [hw.executionsOf_eq ha] at hcap ⊢
    omega
  calc w.executions
      = ((w.accepted.map fun a => a.task.id).map fun id => (w.life id).recorded).sum := by
        rw [executions, List.map_map, List.map_congr_left hof]
        rfl
    _ = w.history.countP Notice.isOutcome :=
        (countP_eq_sum_filter hw.accepted_once haccepted _).symm
    _ = w.announced .completed + w.announced .failed := countP_isOutcome _

end World

/-! ## The accounts of a run -/

/-- What a run has lost sight of: the tasks evicted so far, and the attempts that
ended after that. -/
structure Losses where
  gone : List TaskId := []
  attempts : List Attempt := []

/-- The losses after one more deed. -/
def Losses.after (x : Losses) : Deed W → Losses
  | .evict id => { x with gone := x.gone ++ [id] }
  | .finish job _ a _ => if job.id ∈ x.gone then { x with attempts := x.attempts ++ [a] } else x
  | _ => x

/-- The losses of a run with those deeds. -/
def losses (deeds : List (Deed W)) : Losses := deeds.foldl Losses.after {}

theorem losses_concat (deeds : List (Deed W)) (d : Deed W) :
    losses (deeds ++ [d]) = (losses deeds).after d := by simp [losses]

theorem Scheduler.metrics_finish (s : Scheduler W) (job : Job W) (a : Attempt) (now : Instant) :
    (s.finish job a now).metrics =
      s.metrics.record a.duration (decide (a.outcome = Outcome.success)) := by
  cases h : s.task? job.id with
  | none => rw [finish_of_none job h]; rfl
  | some t => rw [finish_of_some job h]; rfl

theorem Scheduler.metrics_abandon (s : Scheduler W) (job : Job W) (now : Instant) :
    (s.abandon job now).metrics = s.metrics := by
  cases h : s.task? job.id with
  | none => rw [abandon_of_none h]; rfl
  | some t => rw [abandon_of_some h]; split <;> rfl

namespace World

variable {w w' : World W} {d : Deed W} {deeds : List (Deed W)} {x y : Losses}

/-- How many attempts have come out that way: those announced and those lost. -/
def entered (w : World W) (x : Losses) (k : EventKind) : Nat :=
  w.announced k + x.attempts.countP fun a => a.verdict.kind = k

/-- The metrics take every attempt, announced or lost. -/
structure Accounts (w : World W) (x : Losses) : Prop where
  gone : (w.evicted.map fun s => s.id) = x.gone
  succeeded : w.scheduler.metrics.succeeded = w.entered x .completed
  failed : w.scheduler.metrics.failed = w.entered x .failed
  total : w.scheduler.metrics.total = w.scheduler.metrics.succeeded + w.scheduler.metrics.failed

theorem announced_append {news : List Notice} (h : w'.history = w.history ++ news) (k : EventKind) :
    w'.announced k = w.announced k + news.countP fun n => n.event.kind = k := by
  rw [announced, h, List.countP_append]
  rfl

/-- A step in which no attempt ends. -/
theorem Accounts.quiet (ha : w.Accounts x) {news : List Notice}
    (hgone : y.gone = w'.evicted.map fun s => s.id)
    (hattempts : y.attempts = x.attempts) (hmetrics : w'.scheduler.metrics = w.scheduler.metrics)
    (hhistory : w'.history = w.history ++ news) (hnews : ∀ n ∈ news, n.isOutcome = false) :
    w'.Accounts y := by
  have hentered : ∀ k, k.isOutcome → w'.entered y k = w.entered x k := by
    intro k hk
    have hnone : (news.countP fun n => n.event.kind = k) = 0 := by
      refine List.countP_eq_zero.mpr fun n hn he => ?_
      have := hnews n hn
      rw [Notice.isOutcome, of_decide_eq_true he, hk] at this
      cases this
    rw [entered, announced_append hhistory, hnone, hattempts]
    rfl
  exact ⟨hgone.symm, by rw [hmetrics, hentered _ rfl, ha.succeeded],
    by rw [hmetrics, hentered _ rfl, ha.failed], by rw [hmetrics, ha.total]⟩

/-- A step in which an attempt ends. -/
theorem Accounts.recorded (ha : w.Accounts x) {a : Attempt}
    (hgone : y.gone = x.gone) (hevicted : w'.evicted = w.evicted)
    (hmetrics : w'.scheduler.metrics =
      w.scheduler.metrics.record a.duration (decide (a.outcome = Outcome.success)))
    (hentered : ∀ k, k.isOutcome →
      w'.entered y k = w.entered x k + if a.verdict.kind = k then 1 else 0) : w'.Accounts y := by
  have htotal := ha.total
  refine ⟨by rw [hgone, hevicted, ha.gone], ?_, ?_, ?_⟩
  · rw [hmetrics, hentered _ rfl, ← ha.succeeded]
    cases ho : a.outcome <;> simp [Metrics.record, Attempt.verdict, Event.kind, ho]
  · rw [hmetrics, hentered _ rfl, ← ha.failed]
    cases ho : a.outcome <;> simp [Metrics.record, Attempt.verdict, Event.kind, ho]
  · rw [hmetrics]
    cases ho : a.outcome <;> simp [Metrics.record] <;> omega

/-- An attempt whose task is in the index is announced. -/
theorem announced_finish {job : Job W} {t : Task W} (ht : w.scheduler.task? job.id = some t)
    (work : W) (a : Attempt) (now : Instant) {k : EventKind} (hk : k.isOutcome) :
    (w.turn (w.scheduler.finish { job with work } a now)).announced k =
      w.announced k + if a.verdict.kind = k then 1 else 0 := by
  have hsettles := t.settles work a now w.scheduler.config.retryDelay
  have hnews : w.scheduler.outbox.news (w.scheduler.finish { job with work } a now).outbox =
      (t.settle work a now w.scheduler.config.retryDelay).2 := by
    rw [Scheduler.finish_of_some { job with work } ht a now, Scheduler.outbox_put]
    exact Outbox.news_publish _ _
  have hfilter : ∀ l : List Notice, (l.countP fun n => n.event.kind = k) =
      (l.filter Notice.isOutcome).countP fun n => n.event.kind = k := by
    intro l
    rw [List.countP_filter]
    refine List.countP_congr fun n _ => ?_
    simp only [decide_eq_true_eq, Bool.and_eq_true, iff_self_and]
    intro he
    rw [Notice.isOutcome, he]
    exact hk
  rw [announced_append rfl, hnews, hfilter, hsettles.outcomes]
  by_cases he : a.verdict.kind = k <;> simp [Task.notice, he]

/-- While a job is out, its task is gone from the index exactly if it has been evicted. -/
theorem Reachable.gone_iff (hw : w.Reachable) {before after : List (Dispatch W)} {z : Dispatch W}
    (h : w.jobs = before ++ z :: after) :
    z.job.id ∈ (w.evicted.map fun s => s.id) ↔ w.scheduler.task? z.job.id = none := by
  have hbooked := hw.booked z.job.id
  have hevicted : ∀ s, s ∈ (w.life z.job.id).evicted ↔ s ∈ w.evicted ∧ s.id = z.job.id := by
    simp [life]
  constructor
  · intro hmem
    obtain ⟨s, hs, hid⟩ := List.mem_map.mp hmem
    by_contra hne
    have hin := (hevicted s).mpr ⟨hs, hid⟩
    rw [hbooked.unevicted hne] at hin
    cases hin
  · intro ht
    have hadmission := (hw.sound.lives z.job.id).admitted_of_job (jobs_of_eq h rfl)
    obtain ⟨s, hs, -⟩ := hbooked.gone hadmission ht
    obtain ⟨hmem, hid⟩ := (hevicted s).mp (hs ▸ List.mem_singleton_self s)
    exact List.mem_map.mpr ⟨s, hmem, hid⟩

/-- Every step keeps the accounts. -/
theorem Step.accounts (h : Step w d w') (hw : w.Reachable) (ha : w.Accounts x) :
    w'.Accounts (x.after d) := by
  cases h with
  | accept new unseen hdue valid h =>
    obtain ⟨-, rfl⟩ := Scheduler.takeIn_eq_ok h
    exact ha.quiet ha.gone.symm rfl rfl rfl (by simp)
  | claim now =>
    obtain ⟨-, hs, -⟩ := hw.sound.coherent.claimDue_eq hw.sound.armed now
    refine ha.quiet ha.gone.symm rfl (by rw [turn, hs]) rfl fun n hn => ?_
    rw [hs, Outbox.news_publish] at hn
    obtain ⟨id, -, hid⟩ := List.mem_filterMap.mp hn
    obtain ⟨t, -, rfl⟩ := Option.map_eq_some_iff.mp hid
    rfl
  | attempt => exact ha.quiet ha.gone.symm rfl rfl (List.append_nil _).symm (by simp)
  | @finish before after job a h work now =>
    have hmetrics := w.scheduler.metrics_finish { job with work } a now
    have hgone : job.id ∈ x.gone ↔ w.scheduler.task? job.id = none := ha.gone ▸ hw.gone_iff h
    cases ht : w.scheduler.task? job.id with
    | some t =>
      rw [Losses.after, if_neg (by simp [hgone, ht])]
      refine ha.recorded rfl rfl hmetrics fun k hk => ?_
      have hannounced := announced_finish ht work a now hk
      simp only [entered, announced] at hannounced ⊢
      omega
    | none =>
      rw [Losses.after, if_pos (hgone.mpr ht)]
      refine ha.recorded rfl rfl hmetrics fun k hk => ?_
      have hnews :
          w.scheduler.outbox.news (w.scheduler.finish { job with work } a now).outbox = [] := by
        rw [Scheduler.finish_of_none { job with work } ht]
        exact Outbox.news_self _
      by_cases he : a.verdict.kind = k <;> simp [entered, announced, turn, hnews, he, Nat.add_assoc]
  | abandon h now =>
    exact ha.quiet ha.gone.symm rfl (Scheduler.metrics_abandon _ _ _) rfl
      (by simp [Scheduler.outbox_abandon])
  | cancel h =>
    obtain ⟨t, -, -, rfl⟩ := Scheduler.cancel?_eq_some h
    exact ha.quiet ha.gone.symm rfl rfl rfl (by simp)
  | switch h =>
    obtain ⟨t, -, -, rfl⟩ := Scheduler.setRecurrenceEnabled?_eq_some h
    exact ha.quiet ha.gone.symm rfl rfl rfl (by simp)
  | @evict id last s h =>
    obtain ⟨t, ht, -, rfl, rfl⟩ := Scheduler.evict_eq_ok h
    have hid : t.toSnapshot.id = id := Scheduler.id_of_task? ht
    refine ha.quiet ?_ rfl rfl rfl (by simp)
    rw [Losses.after, List.map_append, ha.gone, List.map_singleton, hid]
  | start h =>
    obtain ⟨_, _, _, rfl⟩ := Scheduler.start_eq_ok h
    exact ha.quiet ha.gone.symm rfl rfl rfl (by simp)
  | stop now => exact ha.quiet ha.gone.symm rfl rfl rfl (by simp [Scheduler.stop])
  | deliver h => exact ha.quiet ha.gone.symm rfl rfl (List.append_nil _).symm (by simp)

/-- The metrics of a run have taken every attempt. -/
theorem Run.accounts {c : Config} {s : Scheduler W} (run : Run (fresh s) deeds w)
    (hs : Scheduler.create c = .ok s) : w.Accounts (losses deeds) := by
  have hfresh : (fresh s).Reachable := ⟨c, s, [], hs, .refl _⟩
  generalize hstart : fresh s = start at run hfresh
  induction run with
  | refl =>
    obtain rfl := Scheduler.create_eq_ok hs
    subst hstart
    exact ⟨rfl, rfl, rfl, rfl⟩
  | step run h ih =>
    rw [losses_concat]
    exact h.accounts (hfresh.run run) ih

/-- The accounts of a run agree exactly if no attempt ends after the eviction of its task. -/
theorem Run.balanced_iff {c : Config} {s : Scheduler W} (run : Run (fresh s) deeds w)
    (hs : Scheduler.create c = .ok s)
    (uncapped : ∀ a ∈ w.accepted, w.executionsOf a.task.id < 4294967295) :
    w.Balanced ↔ (losses deeds).attempts = [] := by
  have hw : w.Reachable := ⟨c, s, deeds, hs, run⟩
  have ha := run.accounts hs
  have hsucceeded := ha.succeeded
  have hfailed := ha.failed
  have htotal := ha.total
  have hexecutions := hw.executions_eq uncapped
  simp only [entered] at hsucceeded hfailed
  constructor
  · intro hb
    have hcompleted := hb.completed
    have hfailures := hb.failed
    have hnone : ((losses deeds).attempts.countP fun a => a.verdict.kind = .completed) = 0 ∧
        ((losses deeds).attempts.countP fun a => a.verdict.kind = .failed) = 0 := by omega
    refine List.eq_nil_iff_forall_not_mem.mpr fun a hmem => ?_
    have hnot :=
      And.intro (List.countP_eq_zero.mp hnone.1 a hmem) (List.countP_eq_zero.mp hnone.2 a hmem)
    cases ho : a.outcome <;> simp [Attempt.verdict, Event.kind, ho] at hnot
  · intro hnil
    rw [hnil, List.countP_nil, Nat.add_zero] at hsucceeded hfailed
    exact ⟨hsucceeded.symm, hfailed.symm, by omega⟩

/-- A task is cancelled while its attempt goes on, and evicted once that has ended. -/
theorem balanced_cancelled : ∃ (w : World Nat) (deeds : List (Deed Nat)), Run sample deeds w ∧
    (∀ a ∈ w.accepted, w.executionsOf a.task.id < 4294967295) ∧ w.announced .cancelled = 1 ∧
    w.scheduler.metrics.succeeded = 1 ∧ w.scheduler.snapshot? (.ofNat 1) = none ∧ w.Balanced := by
  have created : Scheduler.create {} = .ok ({ config := {} } : Scheduler Nat) := rfl
  obtain ⟨w, hplay, hcap, hcancelled, hsucceeded, hgone⟩ : ∃ w ∈ sample.play?
      [.accept .dueNow .sample .epoch .epoch, .claim .epoch, .attempt .sample .epoch,
        .cancel (.ofNat 1), .finish .sample 0 .successSample .epoch, .evict (.ofNat 1)],
      (∀ a ∈ w.accepted, w.executionsOf a.task.id < 4294967295) ∧ w.announced .cancelled = 1 ∧
      w.scheduler.metrics.succeeded = 1 ∧ w.scheduler.snapshot? (.ofNat 1) = none := by
        decide +kernel
  have run := Run.of_play? hplay
  exact ⟨w, _, run, hcap, hcancelled, hsucceeded, hgone, (run.balanced_iff created hcap).mpr rfl⟩

/-- A task is cancelled while its attempt goes on, and evicted before that ends. When everything has
come to rest, the metrics know of an attempt that no event and no task tells of. -/
theorem exists_unbalanced : ∃ w : World Nat, w.Reachable ∧ w.jobs = [] ∧ w.scheduler.isSettled ∧
    (∀ a ∈ w.accepted, w.executionsOf a.task.id < 4294967295) ∧ w.scheduler.metrics.succeeded = 1 ∧
    w.announced .completed = 0 ∧ w.scheduler.metrics.total = 1 ∧
    w.executions = 0 ∧ ¬ w.Balanced := by
  obtain ⟨w, hplay, hjobs, hsettled, hcap, hsucceeded, hcompleted, htotal, hexecutions⟩ :
      ∃ w ∈ sample.play?
        [.accept .dueNow .sample .epoch .epoch, .claim .epoch, .attempt .sample .epoch,
          .cancel (.ofNat 1), .evict (.ofNat 1), .finish .sample 0 .successSample .epoch,
          .deliver (.worker 0) (.reach 3), .deliver (.worker 0) .drain,
          .deliver (.worker 0) (.credit 3), .deliver (.worker 0) .drain],
        w.jobs = [] ∧ w.scheduler.isSettled ∧
        (∀ a ∈ w.accepted, w.executionsOf a.task.id < 4294967295) ∧
        w.scheduler.metrics.succeeded = 1 ∧ w.announced .completed = 0 ∧
        w.scheduler.metrics.total = 1 ∧ w.executions = 0 := by decide +kernel
  refine ⟨w, ⟨{}, _, _, rfl, .of_play? hplay⟩, hjobs, hsettled, hcap, hsucceeded,
    hcompleted, htotal, hexecutions, fun h => ?_⟩
  have := h.completed
  omega

end World

end Timetable
