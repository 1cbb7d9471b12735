import Timetable.Proofs.NextRun
import Timetable.Proofs.Soundness

/-!
# The due times of a task

A task is given a due time when it is accepted, when it recurs and when a failed attempt is retried,
and each is announced. When the clock does not go back, a task is not claimed before it is due, its
attempt begins after that and ends later still, and so each due time comes after the one before.
-/
namespace Timetable

variable {W : Type}

/-- The due time that a notice announces. -/
def Notice.due? (n : Notice) : Option Instant :=
  if n.event = .scheduled then n.task.nextExecution else none

namespace Task

/-- The policy of the task, if it has one, makes a schedule. -/
def HasSchedule (t : Task W) : Prop := ∀ p, t.recurrence = some p → p.fault? = none

theorem hasSchedule_of_valid {t : Task W} (h : t.fault? = none) : t.HasSchedule := by
  intro p hp
  rw [fault?, hp] at h
  split at h
  · cases h
  · split at h
    · cases h
    · split at h
      · cases h
      · simpa using h

theorem HasSchedule.switch {t : Task W} (h : t.HasSchedule) (enabled : Bool) :
    (t.switch enabled).HasSchedule := by
  intro p hp
  obtain ⟨q, hq, rfl⟩ := Option.map_eq_some_iff.mp hp
  exact h q hq

theorem nextExecution_handBack {t : Task W} (h : t.Standing) (w : W) (now : Instant) :
    (t.handBack w now).nextExecution = t.nextExecution := by
  rw [handBack]
  split
  · rename_i hrun
    obtain ⟨due, hdue⟩ := Option.isSome_iff_exists.mp (h.planned.mpr (.inr hrun))
    rw [hdue]
    rfl
  · rfl

/-- The record of an attempt tells when it began. -/
theorem Settles.lastExecution {t u : Task W} {w : W} {a : Attempt} {now : Instant} {delay : Span}
    {notices : List Notice} (h : t.Settles w a now delay u notices) :
    u.lastExecution = some a.startedAt := by
  cases h <;> simp [ended_eq, schedule, retry, cancel]

/-- What is planned after an attempt. A recurrence comes strictly later than the record of the
attempt, and a retry when the delay is over. -/
theorem Settles.plans {t u : Task W} {w : W} {a : Attempt} {now : Instant} {delay : Span}
    {notices : List Notice} (h : t.Settles w a now delay u notices) (ht : t.HasSchedule) :
    (u.status ≠ .scheduled ∧ notices.filterMap Notice.due? = []) ∨
      ∃ due, u.status = .scheduled ∧ u.nextExecution = some due ∧
      notices.filterMap Notice.due? = [due] ∧
        (a.outcome = .success → now < due) ∧ (a.outcome ≠ .success → due = now.add delay) := by
  have hverdict : a.verdict ≠ .scheduled := by
    rw [Attempt.verdict]
    cases a.outcome <;> simp
  have hended : (t.ended w a).status ≠ .scheduled := fun hs => by
    have hterminal := ended_isTerminal t w a
    rw [hs] at hterminal
    cases hterminal
  cases h with
  | cancelled | completed | failed => exact .inl ⟨hended, by simp [notice, Notice.due?, hverdict]⟩
  | expires | exhausted => exact .inl ⟨by simp [cancel], by simp [notice, Notice.due?, hverdict]⟩
  | @recurs _ ho p hp due hdue =>
    exact .inr ⟨due, rfl, rfl, by simp [notice, Notice.due?, hverdict, schedule],
      fun _ => Policy.lt_of_next? (ht p hp) hdue, fun hne => absurd ho hne⟩
  | retries _ ho =>
    exact .inr ⟨now.add delay, rfl, rfl, by simp [notice, Notice.due?, hverdict, retry, schedule],
      fun hsuccess => (by rw [ho] at hsuccess; cases hsuccess), fun _ => rfl⟩

end Task

/-- In a sequence that never decreases the last element is the greatest. -/
theorem le_of_getLast? {dues : List Instant} {last : Instant} (h : dues.Pairwise fun a b => a ≤ b)
    (hlast : dues.getLast? = some last) : ∀ due ∈ dues, due ≤ last := by
  obtain ⟨front, rfl⟩ := List.getLast?_eq_some_iff.mp hlast
  intro due hdue
  rcases List.mem_append.mp hdue with hmem | hmem
  · exact (List.pairwise_append.mp h).2.2 due hmem last (List.mem_singleton_self _)
  · exact (List.mem_singleton.mp hmem) ▸ Int.le_refl _

namespace Life

variable {l l' : Life W} {delay : Span} {id : TaskId} {d : Deed W} {clock later : Instant}

/-- The due times announced so far. -/
def dueTimes (l : Life W) : List Instant := l.notices.filterMap Notice.due?

/-- The due time that the task was last dispatched for: the notice of a start shows it. -/
def dispatchedFor? (l : Life W) : Option Instant :=
  (l.notices.filter fun n => n.event = .started).getLast?.bind fun n => n.task.nextExecution

/-- The due times never decrease, and what is out has not begun before its time. -/
structure Punctual (l : Life W) (clock : Instant) : Prop where
  hasSchedule : ∀ t, l.task = some t → t.HasSchedule
  sorted : l.dueTimes.Pairwise fun a b => a ≤ b
  current : ∀ t, l.task = some t → ∀ due, t.nextExecution = some due →
    l.dueTimes.getLast? = some due
  out : ∀ x ∈ l.jobs, ∃ due, l.dispatchedFor? = some due ∧ l.dueTimes.getLast? = some due ∧
    due ≤ clock ∧ ∀ startedAt, x.startedAt = some startedAt → due ≤ startedAt ∧ startedAt ≤ clock

theorem Punctual.mono (hp : l.Punctual clock) (h : clock ≤ later) : l.Punctual later where
  hasSchedule := hp.hasSchedule
  sorted := hp.sorted
  current := hp.current
  out x hx := by
    obtain ⟨due, hfor, hlast, hdue, hbegun⟩ := hp.out x hx
    exact ⟨due, hfor, hlast, Int.le_trans hdue h, fun s hs =>
      ⟨(hbegun s hs).1, Int.le_trans (hbegun s hs).2 h⟩⟩

/-- A step that announces no due time and dispatches nothing. -/
theorem Punctual.quiet (hp : l.Punctual clock) {news : List Notice}
    (hnotices : l'.notices = l.notices ++ news) (hnews : news.filterMap Notice.due? = [])
    (hjobs : l'.jobs = [] ∨ l'.jobs = l.jobs ∧ ∀ n ∈ news, n.event ≠ .started)
    (htask : ∀ u, l'.task = some u → u.HasSchedule ∧
      ∀ due, u.nextExecution = some due → ∃ t, l.task = some t ∧ t.nextExecution = some due) :
        l'.Punctual clock := by
  have hdues : l'.dueTimes = l.dueTimes := by
    rw [dueTimes, hnotices, List.filterMap_append, hnews, List.append_nil]
    rfl
  refine ⟨fun u hu => (htask u hu).1, hdues ▸ hp.sorted, fun u hu due hdue => ?_, fun x hx => ?_⟩
  · obtain ⟨t, ht, hnext⟩ := (htask u hu).2 due hdue
    exact hdues ▸ hp.current t ht due hnext
  · rcases hjobs with hnone | ⟨hsame, hstarts⟩
    · simp [hnone] at hx
    · have hkept : (news.filter fun n => n.event = .started) = [] :=
        List.filter_eq_nil_iff.mpr fun n hn => by simpa using hstarts n hn
      have hfor : l'.dispatchedFor? = l.dispatchedFor? := by
        rw [dispatchedFor?, hnotices, List.filter_append, hkept, List.append_nil]
        rfl
      rw [hfor, hdues]
      exact hp.out x (hsame ▸ hx)

/-- A task that is claimed when it is due. -/
theorem Punctual.claim (hp : l.Punctual clock) {t : Task W} {job : Job W} {due : Instant}
    (ht : l.task = some t)
    (hnext : t.nextExecution = some due) (hdue : due ≤ clock) (htask : l'.task = some t.claimed)
    (hjobs : l'.jobs = [{ job }])
    (hnotices : l'.notices = l.notices ++ [t.claimed.notice .started]) :
    l'.Punctual clock := by
  have hdues : l'.dueTimes = l.dueTimes := by
    rw [dueTimes, hnotices, List.filterMap_append]
    exact List.append_nil _
  have honly (u : Task W) (hu : l'.task = some u) : u = t.claimed :=
    Option.some.inj (hu.symm.trans htask)
  refine ⟨fun u hu => ?_, hdues ▸ hp.sorted, fun u hu next hnext' => ?_, fun x hx =>
    ⟨due, ?_, ?_, hdue, ?_⟩⟩
  · obtain rfl := honly u hu
    exact hp.hasSchedule t ht
  · obtain rfl := honly u hu
    exact hdues ▸ hp.current t ht next hnext'
  · simp [dispatchedFor?, hnotices, Task.notice, Task.claimed, hnext]
  · exact hdues ▸ hp.current t ht due hnext
  · intro startedAt hbegun
    rw [hjobs, List.mem_singleton] at hx
    rw [hx] at hbegun
    cases hbegun

/-- An attempt that is recorded after it has begun. -/
theorem Punctual.finish (hp : l.Punctual clock) {t u : Task W} {work : W} {a : Attempt}
    {now : Instant}
    {notices : List Notice} {job : Job W} (ht : l.task = some t) (hstanding : u.Standing)
    (hs : t.Settles work a now delay u notices)
    (hjob : { job, startedAt := some a.startedAt } ∈ l.jobs)
    (hread : a.startedAt ≤ now) (htask : l'.task = some u) (hjobs : l'.jobs = [])
    (hnotices : l'.notices = l.notices ++ notices) : l'.Punctual clock := by
  have hschedule : u.HasSchedule :=
    fun p hp' => hp.hasSchedule t ht p (hs.attempted.recurrence ▸ hp')
  have honly (v : Task W) (hv : l'.task = some v) : v = u := Option.some.inj (hv.symm.trans htask)
  rcases hs.plans (hp.hasSchedule t ht) with ⟨hended, hnone⟩ | ⟨due, -, hnext, hnew,
    hrecurs, hretries⟩
  · refine hp.quiet hnotices hnone (.inl hjobs) fun v hv => ?_
    obtain rfl := honly v hv
    refine ⟨hschedule, fun due hdue => ?_⟩
    rcases hstanding.planned.mp (by rw [hdue]; rfl) with hst | hst
    · exact absurd hst hended
    · have hwork := hstanding.running hst
      rw [hs.attempted.work] at hwork
      cases hwork
  · obtain ⟨dispatched, -, hlast, -, hbegun⟩ := hp.out _ hjob
    have hdispatched : dispatched ≤ now := Int.le_trans (hbegun _ rfl).1 hread
    have hdue : dispatched ≤ due := by
      by_cases ho : a.outcome = .success
      · exact Int.le_trans hdispatched (Int.le_of_lt (hrecurs ho))
      · exact hretries ho ▸ Instant.le_add hdispatched delay
    have hdues : l'.dueTimes = l.dueTimes ++ [due] := by
      rw [dueTimes, hnotices, List.filterMap_append, hnew]
      rfl
    refine ⟨fun v hv => honly v hv ▸ hschedule, ?_, fun v hv next hv' => ?_, by simp [hjobs]⟩
    · rw [hdues]
      refine List.pairwise_append.mpr ⟨hp.sorted, List.pairwise_singleton _ _, fun e he f hf => ?_⟩
      exact (List.mem_singleton.mp hf) ▸ Int.le_trans (le_of_getLast? hp.sorted hlast e he) hdue
    · rw [honly v hv, hnext] at hv'
      rw [hdues, List.getLast?_concat, hv']

end Life

/-- What a deed reads fits a clock that does not go back: a tick has read it before it claims, an
attempt begins later than its job was claimed, and is recorded later than it began. -/
def Deed.InTime (d : Deed W) (clock later : Instant) : Prop :=
  match d with
  | .claim now => now ≤ clock
  | .attempt _ startedAt => clock ≤ startedAt ∧ startedAt ≤ later
  | .finish _ _ a now => a.startedAt ≤ now
  | _ => True

namespace Life

variable {l l' : Life W} {delay : Span} {id : TaskId} {d : Deed W} {clock later : Instant}

theorem Step.punctual (h : Step delay id l d l') (hl : l.Sound) (hp : l.Punctual clock)
    (hlater : clock ≤ later) (hd : d.InTime clock later) : l'.Punctual later := by
  have hp' := hp.mono hlater
  cases h with
  | aside => exact hp'
  | @accept o t asked due now sequence hid new unseen hdue valid =>
    obtain rfl := hl.unseen unseen
    refine ⟨fun u hu => ?_, List.pairwise_singleton _ _, fun u hu next hnext => ?_, by simp⟩
    · obtain rfl := Option.some.inj hu
      exact Task.hasSchedule_of_valid (t := t) valid
    · obtain rfl := Option.some.inj hu
      exact hnext
  | @claim t work due now ht hst hw hnext hdue =>
    have hnone : l.jobs = [] := (hl.held t ht).mp (by simp [hw])
    exact hp'.claim ht hnext (Int.le_trans (Int.le_trans hdue hd) hlater) rfl
      (by rw [hnone]; rfl) rfl
  | @attempt before after job hid hjobs startedAt =>
    obtain ⟨hbegin, hend⟩ := hd
    obtain ⟨rfl, rfl⟩ := hl.jobs_eq_nil hjobs
    refine ⟨hp.hasSchedule, hp.sorted, hp.current, fun x hx => ?_⟩
    obtain rfl := List.mem_singleton.mp hx
    obtain ⟨due, hfor, hlast, hdue, -⟩ := hp.out { job } (by simp [hjobs])
    refine ⟨due, hfor, hlast, Int.le_trans hdue hlater, fun s hs => ?_⟩
    obtain rfl := Option.some.inj hs
    exact ⟨Int.le_trans hdue hbegin, hend⟩
  | @finish before after job a t u work now notices hid hjobs ht hs =>
    obtain ⟨rfl, rfl⟩ := hl.jobs_eq_nil hjobs
    have hjob : { job, startedAt := some a.startedAt } ∈ l.jobs := by simp [hjobs]
    exact hp'.finish ht (hs.standing (hl.standing t ht)) hs hjob hd rfl rfl rfl
  | finishGone hid hjobs | abandonGone hid hjobs =>
    obtain ⟨rfl, rfl⟩ := hl.jobs_eq_nil hjobs
    exact hp'.quiet (List.append_nil _).symm rfl (.inl rfl) (by simp)
  | @abandon before after job t now hid hjobs ht =>
    obtain ⟨rfl, rfl⟩ := hl.jobs_eq_nil hjobs
    refine hp'.quiet (List.append_nil _).symm rfl (.inl rfl) fun u hu => ?_
    obtain rfl := Option.some.inj hu
    refine ⟨fun p hrec => hp.hasSchedule t ht p ?_, fun due hdue => ⟨t, ht, ?_⟩⟩
    · rwa [Task.recurrence_handBack] at hrec
    · rwa [Task.nextExecution_handBack (hl.standing t ht)] at hdue
  | @cancel t ht =>
    refine hp'.quiet rfl (by simp [Notice.due?, Task.notice]) (.inr ⟨rfl, by simp [Task.notice]⟩)
      fun u hu => ?_
    obtain rfl := Option.some.inj hu
    exact ⟨hp.hasSchedule t ht, by simp [Task.cancel]⟩
  | @switch t ht hrec enabled =>
    refine hp'.quiet (List.append_nil _).symm rfl (.inr ⟨rfl, by simp⟩) fun u hu => ?_
    obtain rfl := Option.some.inj hu
    exact ⟨(hp.hasSchedule t ht).switch enabled, fun due hdue => ⟨t, ht, hdue⟩⟩
  | evict => exact hp'.quiet (List.append_nil _).symm rfl (.inr ⟨rfl, by simp⟩) (by simp)

end Life

end Timetable
