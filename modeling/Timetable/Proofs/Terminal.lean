import Timetable.Proofs.Exclusion

/-!
# Tasks that have ended

A task that has completed, failed or been cancelled never waits, runs or is announced again,
whatever happens to the scheduler. Its recurrence may still be switched on or off. A task cancelled
while its job was out may have that one attempt recorded; nothing is planned after it.
-/
namespace Timetable

variable {W : Type}

/-- The event after an attempt is never one of a plan, a claim or a cancellation. -/
theorem Attempt.verdict_kind (a : Attempt) :
    a.verdict.kind = .completed ∨ a.verdict.kind = .failed := by
  rw [Attempt.verdict]
  cases a.outcome
  · exact .inl rfl
  · exact .inr rfl

namespace Task

/-- The task with an attempt in its books, and nothing else changed. -/
def booked (t : Task W) (w : W) (a : Attempt) : Task W :=
  { t with
    work := some w
    executionCount := countUp t.executionCount
    lastExecution := some a.startedAt
    lastDuration := some a.duration
    lastError := a.outcome.error?
    retryCount := if a.outcome = .success then 0 else t.retryCount }

theorem ended_of_cancelled {t : Task W} (h : t.status = .cancelled) (w : W) (a : Attempt) :
    t.ended w a = t.booked w a := by
  simp only [ended_eq, booked, h, if_true]

/-- An attempt of a cancelled task is booked, and nothing is planned after it. -/
theorem Settles.of_cancelled {t u : Task W} {w : W} {a : Attempt} {now : Instant} {delay : Span}
    {notices : List Notice} (h : t.Settles w a now delay u notices) (hs : t.status = .cancelled) :
    u = t.booked w a ∧ notices = [(t.booked w a).notice a.verdict] := by
  rw [← ended_of_cancelled hs]
  cases h with
  | cancelled => exact ⟨rfl, rfl⟩
  | _ h => exact absurd hs h

/-- The same task, but for the switch of its recurrence. -/
def UpToSwitch (t u : Task W) : Prop := u = t ∨ ∃ enabled, u = t.switch enabled

theorem switch_switch (t : Task W) (first second : Bool) :
    (t.switch first).switch second = t.switch second := by
  simp only [switch, Option.map_map]
  rfl

section UpToSwitch

variable {t u : Task W}

theorem UpToSwitch.refl (t : Task W) : t.UpToSwitch t := .inl rfl

theorem UpToSwitch.status (h : t.UpToSwitch u) : u.status = t.status := by
  obtain rfl | ⟨enabled, rfl⟩ := h <;> rfl

theorem UpToSwitch.switch (h : t.UpToSwitch u) (enabled : Bool) :
    t.UpToSwitch (u.switch enabled) := by
  obtain rfl | ⟨first, rfl⟩ := h
  · exact .inr ⟨enabled, rfl⟩
  · exact .inr ⟨enabled, switch_switch t first enabled⟩

theorem UpToSwitch.giveBack (h : t.UpToSwitch u) (w : W) :
    (t.giveBack w).UpToSwitch (u.giveBack w) := by
  obtain rfl | ⟨enabled, rfl⟩ := h
  · exact .refl _
  · exact .inr ⟨enabled, rfl⟩

theorem UpToSwitch.booked (h : t.UpToSwitch u) (w : W) (a : Attempt) :
    (t.booked w a).UpToSwitch (u.booked w a) := by
  obtain rfl | ⟨enabled, rfl⟩ := h
  · exact .refl _
  · exact .inr ⟨enabled, rfl⟩

end UpToSwitch

/-- What a task that had ended has become after some deeds. The jobs are those that were out then
and those that are out now. -/
inductive Aftermath (t : Task W) (jobs : List (Dispatch W)) (deeds : List (Deed W)) :
    List (Dispatch W) → Task W → Prop
  | untouched {now : List (Dispatch W)} {u : Task W} (h : now.length = jobs.length)
    (hu : t.UpToSwitch u) : Aftermath t jobs deeds now u
  | handedBack {d : Dispatch W} {u : Task W} (h : jobs = [d])
    (hu : (t.giveBack d.job.work).UpToSwitch u) : Aftermath t jobs deeds [] u
  | recorded {d : Dispatch W} {u : Task W} {work : W} {a : Attempt} {now : Instant} (h : jobs = [d])
    (hd : .finish d.job work a now ∈ deeds) (hu : (t.booked work a).UpToSwitch u) :
    Aftermath t jobs deeds [] u

section Aftermath

variable {t u : Task W} {jobs now : List (Dispatch W)} {deeds : List (Deed W)}

theorem Aftermath.of_jobs {d : Dispatch W} (h : t.Aftermath jobs deeds [d] u) : t.UpToSwitch u := by
  cases h with
  | untouched _ hu => exact hu

theorem Aftermath.more (h : t.Aftermath jobs deeds now u) (d : Deed W) :
    t.Aftermath jobs (deeds ++ [d]) now u := by
  cases h with
  | untouched h hu => exact .untouched h hu
  | handedBack h hu => exact .handedBack h hu
  | recorded h hd hu => exact .recorded h (List.mem_append_left _ hd) hu

theorem Aftermath.switch (h : t.Aftermath jobs deeds now u) (enabled : Bool) :
    t.Aftermath jobs deeds now (u.switch enabled) := by
  cases h with
  | untouched h hu => exact .untouched h (hu.switch enabled)
  | handedBack h hu => exact .handedBack h (hu.switch enabled)
  | recorded h hd hu => exact .recorded h hd (hu.switch enabled)

theorem Aftermath.status (h : t.Aftermath jobs deeds now u) : u.status = t.status := by
  cases h with
  | untouched _ hu => exact hu.status
  | handedBack _ hu => exact hu.status
  | recorded _ _ hu => exact hu.status

end Aftermath

end Task

namespace Life

variable {l l' l'' : Life W} {delay : Span} {id : TaskId} {d : Deed W} {deeds : List (Deed W)}
  {t : Task W}

/-- The jobs of a life that nobody has begun yet. -/
def unbegun (l : Life W) : Nat := l.jobs.countP fun d => d.startedAt.isNone

/-- What has come of a life since its task had ended. -/
structure Since (id : TaskId) (l : Life W) (t : Task W) (deeds : List (Deed W)) (l' : Life W) :
    Prop where
  admitted : l'.admission ≠ none
  task : ∀ u, l'.task = some u → t.Aftermath l.jobs deeds l'.jobs u
  jobs : ∀ d ∈ l'.jobs, ∃ first ∈ l.jobs, first.job = d.job ∧ (d.startedAt = none → first = d)
  attempts : ∀ job startedAt, .attempt job startedAt ∈ deeds → job.id = id → { job } ∈ l.jobs
  begun : l'.begun + l'.unbegun ≤ l.begun + l.unbegun
  notices : ∃ news, l'.notices = l.notices ++ news ∧
    ∀ n ∈ news, n.event.kind = .completed ∨ n.event.kind = .failed

theorem Sound.cancelled_of_job (hl : l.Sound) (ht : l.task = some t) (hterm : t.status.isTerminal)
    {x : Dispatch W} (hx : x ∈ l.jobs) : t.status = .cancelled := by
  obtain ⟨before, after, h⟩ := List.append_of_mem hx
  refine (hl.status_of_job h ht).2.resolve_left fun hrun => ?_
  rw [hrun] at hterm
  cases hterm

theorem Since.refl (hl : l.Sound) (ht : l.task = some t) : Since id l t [] l where
  admitted := hl.admitted ht
  task := by
    intro u hu
    obtain rfl := Option.some.inj (ht.symm.trans hu)
    exact .untouched rfl (.refl _)
  jobs := fun d hd => ⟨d, hd, rfl, fun _ => rfl⟩
  attempts := by simp
  begun := Nat.le_refl _
  notices := ⟨[], by simp, by simp⟩

/-- Deeds that are no attempts of the task. -/
theorem Since.attempts_of_ne (h : Since id l t deeds l')
    (hd : ∀ job startedAt, d = .attempt job startedAt → job.id ≠ id) :
    ∀ job startedAt, .attempt job startedAt ∈ deeds ++ [d] → job.id = id → { job } ∈ l.jobs := by
  intro job startedAt hmem hid
  rcases List.mem_append.mp hmem with hmem | hmem
  · exact h.attempts job startedAt hmem hid
  · exact absurd hid (hd job startedAt (List.mem_singleton.mp hmem).symm)

theorem Since.notices_append (h : Since id l t deeds l') {news : List Notice}
    (hnews : ∀ n ∈ news, n.event.kind = .completed ∨ n.event.kind = .failed) :
    ∃ all, l'.notices ++ news = l.notices ++ all ∧
      ∀ n ∈ all, n.event.kind = .completed ∨ n.event.kind = .failed := by
  obtain ⟨first, heq, hfirst⟩ := h.notices
  refine ⟨first ++ news, by rw [heq, List.append_assoc], fun n hn => ?_⟩
  rcases List.mem_append.mp hn with hn | hn
  · exact hfirst n hn
  · exact hnews n hn

/-- A job that is out was out when the task had ended. -/
theorem Since.job_out (h : Since id l t deeds l') (hl : l.Sound) {x : Dispatch W}
    (hx : x ∈ l'.jobs) :
    ∃ first, l.jobs = [first] ∧ first.job = x.job := by
  obtain ⟨first, hfirst, hjob, -⟩ := h.jobs x hx
  obtain ⟨front, back, heq⟩ := List.append_of_mem hfirst
  obtain ⟨rfl, rfl⟩ := hl.jobs_eq_nil heq
  exact ⟨first, heq, hjob⟩

/-- A deed that takes the job in. -/
theorem Since.withoutJob (h : Since id l t deeds l')
    (hd : ∀ job startedAt, d = .attempt job startedAt → job.id ≠ id)
    (htask : ∀ u, l''.task = some u → t.Aftermath l.jobs (deeds ++ [d]) [] u)
    (hjobs : l''.jobs = [])
    (hadmission : l''.admission = l'.admission) (hbegun : l''.begun = l'.begun)
    (hnotices : ∃ news, l''.notices = l.notices ++ news ∧
      ∀ n ∈ news, n.event.kind = .completed ∨ n.event.kind = .failed) :
    Since id l t (deeds ++ [d]) l'' where
  admitted := hadmission ▸ h.admitted
  task := by rw [hjobs]; exact htask
  jobs := by simp [hjobs]
  attempts := h.attempts_of_ne hd
  begun := by
    have := h.begun
    rw [hbegun, unbegun, hjobs]
    exact Nat.le_trans (Nat.le_add_right _ _) this
  notices := hnotices

/-- No step after the end of a task undoes what was so. -/
theorem Since.step (h : Since id l t deeds l') (hl : l.Sound) (hl' : l'.Sound)
    (ht : l.task = some t) (hterm : t.status.isTerminal) (hd : Step delay id l' d l'') :
    Since id l t (deeds ++ [d]) l'' := by
  have hcancelled : ∀ d, l.jobs = [d] → t.status = .cancelled :=
    fun d hd => hl.cancelled_of_job ht hterm (hd ▸ List.mem_singleton_self d)
  have hstatus : ∀ u, l'.task = some u → u.status = t.status :=
    fun u hu => (h.task u hu).status
  cases hd with
  | aside hsubject =>
    refine ⟨h.admitted, fun u hu => (h.task u hu).more d, h.jobs, h.attempts_of_ne ?_,
      h.begun, h.notices⟩
    rintro job startedAt rfl hid
    exact hsubject (congrArg some hid)
  | accept _ _ _ unseen => exact absurd unseen h.admitted
  | claim hu hst =>
    rw [← hstatus _ hu, hst] at hterm
    cases hterm
  | @attempt before after job hid hjobs startedAt =>
    obtain ⟨rfl, rfl⟩ := hl'.jobs_eq_nil hjobs
    have hjob : ({ job } : Dispatch W) ∈ l.jobs := by
      obtain ⟨first, hfirst, -, heq⟩ := h.jobs { job } (by rw [hjobs]; simp)
      exact heq rfl ▸ hfirst
    refine ⟨h.admitted, ?_, ?_, ?_, ?_, h.notices⟩
    · intro u hu
      have htask := (h.task u hu).more (.attempt job startedAt)
      rw [hjobs] at htask
      cases htask with
      | untouched hlength hu => exact .untouched hlength hu
    · intro d hd
      obtain rfl := List.mem_singleton.mp hd
      exact ⟨_, hjob, rfl, fun e => by cases e⟩
    · intro other at' hmem hother
      rcases List.mem_append.mp hmem with hmem | hmem
      · exact h.attempts other at' hmem hother
      · cases List.mem_singleton.mp hmem
        exact hjob
    · have hbegun := h.begun
      rw [unbegun, hjobs] at hbegun
      simpa [unbegun, Nat.add_assoc] using hbegun
  | @finish before after job a u v work now notices hid hjobs hu hs =>
    obtain ⟨rfl, rfl⟩ := hl'.jobs_eq_nil hjobs
    obtain ⟨first, hfirst, hjob⟩ :=
      h.job_out hl (x := ⟨job, some a.startedAt⟩) (by rw [hjobs]; simp)
    refine h.withoutJob (by simp) ?_ rfl rfl rfl (h.notices_append ?_)
    · intro x hx
      obtain rfl := Option.some.inj hx
      have htask := h.task u hu
      rw [hjobs] at htask
      rw [(hs.of_cancelled ((hstatus u hu).trans (hcancelled _ hfirst))).1]
      have hdeed : .finish first.job work a now ∈ deeds ++ [.finish job work a now] := by
        simp [hjob]
      exact .recorded hfirst hdeed (htask.of_jobs.booked work a)
    · intro n hn
      rw [(hs.of_cancelled ((hstatus u hu).trans (hcancelled _ hfirst))).2,
        List.mem_singleton] at hn
      exact hn ▸ a.verdict_kind
  | @finishGone before after job a work now hid hjobs hu =>
    obtain ⟨rfl, rfl⟩ := hl'.jobs_eq_nil hjobs
    exact h.withoutJob (by simp) (by simp) rfl rfl rfl h.notices
  | @abandon before after job u now hid hjobs hu =>
    obtain ⟨rfl, rfl⟩ := hl'.jobs_eq_nil hjobs
    obtain ⟨first, hfirst, hjob⟩ := h.job_out hl (x := ⟨job, none⟩) (by rw [hjobs]; simp)
    refine h.withoutJob (by simp) ?_ rfl rfl rfl h.notices
    intro x hx
    obtain rfl := Option.some.inj hx
    have htask := h.task u hu
    have hrun : u.status ≠ .running := by
      rw [hstatus u hu, hcancelled _ hfirst]
      decide
    rw [hjobs] at htask
    rw [Task.handBack, if_neg hrun]
    exact .handedBack hfirst (by rw [hjob]; exact htask.of_jobs.giveBack job.work)
  | @abandonGone before after job now hid hjobs hu =>
    obtain ⟨rfl, rfl⟩ := hl'.jobs_eq_nil hjobs
    exact h.withoutJob (by simp) (by simp) rfl rfl rfl h.notices
  | cancel hu hlive =>
    rw [hstatus _ hu, hterm] at hlive
    cases hlive
  | @switch u hu hrec enabled =>
    refine ⟨h.admitted, ?_, h.jobs, h.attempts_of_ne (by simp), h.begun, h.notices⟩
    intro v hv
    obtain rfl := Option.some.inj hv
    exact ((h.task u hu).switch enabled).more _
  | evict hu =>
    exact ⟨h.admitted, by simp, h.jobs, h.attempts_of_ne (by simp), h.begun, h.notices⟩

/-- At most one attempt has begun since. -/
theorem Since.begun_le (h : Since id l t deeds l') (hl : l.Sound) : l'.begun ≤ l.begun + 1 := by
  have hbegun := h.begun
  have hsingle := hl.single
  have hcount : l.unbegun ≤ l.jobs.length := List.countP_le_length
  omega

/-- Only a cancelled task can have had its job out; all others have kept everything but
their switch. -/
theorem Since.kept (h : Since id l t deeds l') (hl : l.Sound) (ht : l.task = some t)
    (hterm : t.status.isTerminal) (hne : t.status ≠ .cancelled) {u : Task W}
    (hu : l'.task = some u) :
    t.UpToSwitch u := by
  have hnone : ∀ d, l.jobs ≠ [d] := fun d hd =>
    hne (hl.cancelled_of_job ht hterm (hd ▸ List.mem_singleton_self d))
  have htask := h.task u hu
  generalize l'.jobs = jobs at htask
  cases htask with
  | untouched _ hu => exact hu
  | handedBack h => exact absurd h (hnone _)
  | recorded h => exact absurd h (hnone _)

/-- The task looks as it did, or as it did with the attempt of its job recorded. -/
theorem Since.looks (h : Since id l t deeds l') {u : Task W} (hu : l'.task = some u) :
    ∃ v : Task W, v.UpToSwitch u ∧ (v.toSnapshot = t.toSnapshot ∨
      ∃ d ∈ l.jobs, ∃ work a now, .finish d.job work a now ∈ deeds ∧ v = t.booked work a) := by
  have htask := h.task u hu
  generalize l'.jobs = jobs at htask
  cases htask with
  | untouched _ hu => exact ⟨t, hu, .inl rfl⟩
  | handedBack _ hu => exact ⟨_, hu, .inl rfl⟩
  | @recorded d _ work a now h hd hu =>
    have hmem : d ∈ l.jobs := h ▸ List.mem_singleton_self d
    exact ⟨_, hu, .inr ⟨d, hmem, work, a, now, hd, rfl⟩⟩

end Life

namespace World

variable {w w' : World W} {deeds : List (Deed W)} {t : Task W}

/-- What has become of a task that had ended in a world, after a run from there. -/
structure Absorbed (w : World W) (t : Task W) (deeds : List (Deed W)) (w' : World W) : Prop where
  status : ∀ u, w'.scheduler.task? t.id = some u → u.status = t.status
  unplanned : ∀ u, w'.scheduler.task? t.id = some u → u.nextExecution = none
  unqueued : t.id ∉ w'.scheduler.queue.toList
  /-- All that is still published of the task is how an attempt came out. -/
  silent : ∃ news, w'.history = w.history ++ news ∧ ∀ n ∈ news, n.task.id = t.id →
    n.event ≠ .scheduled ∧ n.event ≠ .started ∧ n.event ≠ .cancelled
  /-- Only the job of a cancelled task can still begin, and only if it was out already. -/
  dispatched : ∀ job startedAt, .attempt job startedAt ∈ deeds → job.id = t.id →
    t.status = .cancelled ∧ { job } ∈ w.jobs
  begunOnce : w'.begun.count t.id ≤ w.begun.count t.id + 1
  kept : t.status ≠ .cancelled → ∀ u, w'.scheduler.task? t.id = some u → t.UpToSwitch u
  /-- A cancelled task looks as it did, or as it did with the one attempt recorded. -/
  recorded : t.status = .cancelled → ∀ u, w'.scheduler.task? t.id = some u →
    ∃ v : Task W, v.UpToSwitch u ∧ (v.toSnapshot = t.toSnapshot ∨
      ∃ d ∈ w.jobs, d.job.id = t.id ∧ ∃ work a now, .finish d.job work a now ∈ deeds ∧
        v = t.booked work a)

/-- The life of a task that had ended, after a run. -/
theorem Run.since (run : Run w deeds w') (hw : w.Reachable) {id : TaskId}
    (ht : w.scheduler.task? id = some t) (hterm : t.status.isTerminal) :
    (w.life id).Since id t deeds (w'.life id) := by
  induction run with
  | refl => exact .refl (hw.sound.lives id) ht
  | step run h ih =>
    have hsound := (hw.run run).sound
    exact ih.step (hw.sound.lives id) (hsound.lives id) ht hterm (h.life hsound id)

/-- A terminal status is never left. -/
theorem Run.absorbed (run : Run w deeds w') (hw : w.Reachable) {id : TaskId}
    (ht : w.scheduler.task? id = some t) (hterm : t.status.isTerminal) : w.Absorbed t deeds w' := by
  obtain rfl := Scheduler.id_of_task? ht
  have hlife := hw.sound.lives t.id
  have hsince := run.since hw ht hterm
  have hsound := (hw.run run).sound
  have hstatus : ∀ u, w'.scheduler.task? t.id = some u → u.status = t.status :=
    fun u hu => (hsince.task u hu).status
  refine ⟨hstatus, ?_, ?_, ?_, ?_, hsince.begun_le hlife, ?_, ?_⟩
  · intro u hu
    exact ((hsound.lives t.id).standing u hu).nextExecution_of_terminal (hstatus u hu ▸ hterm)
  · intro hmem
    obtain ⟨u, hu, hst⟩ := (hsound.queued_iff t.id).mp hmem
    rw [← hstatus u hu, hst] at hterm
    cases hterm
  · obtain ⟨news, hnews⟩ := run.history
    obtain ⟨mine, hmine, hkind⟩ := hsince.notices
    refine ⟨news, hnews, fun n hn hid => ?_⟩
    have hfilter : (news.filter fun n => n.task.id = t.id) = mine := by
      simpa [life, hnews] using hmine
    have hn' : n ∈ mine := by
      rw [← hfilter]
      exact List.mem_filter.mpr ⟨hn, by simpa using hid⟩
    rcases hkind n hn' with hk | hk <;> cases he : n.event <;> simp [he, Event.kind] at hk ⊢
  · intro job startedAt hmem hid
    have hjob := hsince.attempts job startedAt hmem hid
    exact ⟨hlife.cancelled_of_job ht hterm hjob, List.mem_of_mem_filter hjob⟩
  · exact fun hne u hu => hsince.kept hlife ht hterm hne hu
  · intro _ u hu
    obtain ⟨v, hv, hlooks⟩ := hsince.looks hu
    refine ⟨v, hv, hlooks.imp_right ?_⟩
    rintro ⟨d, hd, work, a, now, hdeed, rfl⟩
    obtain ⟨hmem, hid⟩ := List.mem_filter.mp hd
    exact ⟨d, hmem, by simpa using hid, work, a, now, hdeed, rfl⟩

/-- Whatever has ended rests, to the end of every run. That holds of every task that a call of
cancel has ended. -/
theorem Reachable.absorbs (hw : w.Reachable) :
    (∀ id t, w.scheduler.task? id = some t → t.status.isTerminal →
      ∀ deeds w', Run w deeds w' → w.Absorbed t deeds w') ∧
    ∀ id s, w.scheduler.cancel? id = some s →
      ∃ t, s.task? id = some t ∧ t.status = .cancelled ∧
        ∀ deeds w', Run (w.turn s) deeds w' → (w.turn s).Absorbed t deeds w' := by
  refine ⟨fun id t ht hterm deeds w' run => run.absorbed hw ht hterm, fun id s hs => ?_⟩
  have hcancelled : (w.turn s).Reachable := hw.step (.cancel hs)
  obtain ⟨t, ht, -⟩ := Scheduler.cancel?_eq_some hs
  have htask : s.task? id = some t.cancel := by
    rw [Scheduler.task?_cancel hs, if_pos rfl, ht, Option.map_some]
  exact ⟨t.cancel, htask, rfl, fun deeds w' run => run.absorbed hcancelled htask rfl⟩

/-- A task is cancelled while it executes; its attempt then fails, and nothing more comes of it. -/
theorem absorbs_executing : ∃ (w : World Nat) (s : Scheduler Nat) (w' : World Nat) (t : Task Nat)
    (deeds : List (Deed Nat)), w.Reachable ∧ w.scheduler.cancel? (.ofNat 1) = some s ∧
    Run (w.turn s) deeds w' ∧ deeds ≠ [] ∧ s.task? (.ofNat 1) = some t ∧
    (w.turn s).Absorbed t deeds w' := by
  obtain ⟨w, hw, ht, hjobs, -⟩ := exists_executing
  obtain ⟨s, hs⟩ : ∃ s, w.scheduler.cancel? (.ofNat 1) = some s := by
    simp [Scheduler.cancel?, ht, Task.claimed, Status.isTerminal]
  obtain ⟨t, htask, -, habsorbed⟩ := hw.absorbs.2 _ s hs
  have run := (Run.refl (w.turn s)).step
    (@Step.finish _ (w.turn s) [] [] _ ⟨.epoch, default, .failure "disk full"⟩ hjobs 0 .epoch)
  exact ⟨w, s, _, t, _, hw, hs, run, by simp, htask, habsorbed _ _ run⟩

end World

end Timetable
