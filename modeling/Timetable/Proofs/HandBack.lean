import Timetable.Proofs.Terminal

/-!
# Jobs handed back

A job that was claimed and has not begun is still what it was at its claim, and so is its task,
unless the task was cancelled meanwhile. Handing the job back undoes the claim: the task waits again
as it did just before, with its unit of work. The task of a job that was cancelled meanwhile stays
cancelled.
-/
namespace Timetable

variable {W : Type}

/-- Whether a deed begins, records or hands back a job of the identifier. -/
def Deed.Handles (id : TaskId) : Deed W → Prop
  | attempt job _ | finish job _ _ _ | abandon job _ => job.id = id
  | _ => False

theorem Deed.Handles.subject {d : Deed W} {id : TaskId} (h : d.Handles id) :
    d.subject? = some id := by
  cases d with
  | attempt | finish | abandon => exact congrArg some h
  | _ => cases h

namespace Task

variable {t u : Task W}

/-- Handing back undoes a claim. -/
theorem Standing.handBack_claimed (h : t.Standing) (hs : t.status = .scheduled) {w : W}
    (hw : t.work = some w) (now : Instant) : t.claimed.handBack w now = t := by
  obtain ⟨due, hdue⟩ := Option.isSome_iff_exists.mp (h.planned.mpr (.inl hs))
  have hdated : t.scheduledAt = some due := (h.dated (by simp [hdue])).trans hdue
  have hrun : t.claimed.status = .running := rfl
  rw [Task.handBack, if_pos hrun]
  obtain ⟨snapshot, sequence, work⟩ := t
  cases snapshot
  simp only [Task.claimed, Task.giveBack, Task.schedule] at *
  simp only [hs, hw, hdue, hdated, Option.getD_some]

theorem UpToSwitch.handBack (h : t.claimed.UpToSwitch u) (ht : t.Standing)
    (hs : t.status = .scheduled) {w : W}
    (hw : t.work = some w) (now : Instant) : t.UpToSwitch (u.handBack w now) := by
  have hback := ht.handBack_claimed hs hw now
  obtain rfl | ⟨enabled, rfl⟩ := h
  · exact .inl hback
  · exact .inr ⟨enabled, congrArg (Task.switch · enabled) hback⟩

theorem UpToSwitch.work (h : t.UpToSwitch u) : u.work = t.work := by
  obtain rfl | ⟨enabled, rfl⟩ := h <;> rfl

theorem UpToSwitch.waiting? (h : t.UpToSwitch u) : u.waiting? = t.waiting? := by
  obtain rfl | ⟨enabled, rfl⟩ := h <;> rfl

end Task

namespace Life

variable {l l' : Life W} {delay : Span} {id : TaskId} {d : Deed W}
  {deeds : List (Deed W)} {t : Task W} {job : Job W}

/-- A job has been out since its task was as given, and has not begun. -/
structure Out (id : TaskId) (t : Task W) (job : Job W) (deeds : List (Deed W)) (l : Life W) :
    Prop where
  admitted : l.admission ≠ none
  jobs : l.jobs = [{ job }]
  running : .cancel id ∉ deeds → ∃ u, l.task = some u ∧ t.claimed.UpToSwitch u
  cancelled : .cancel id ∈ deeds → ∀ u, l.task = some u → u.status = .cancelled

theorem Out.status (h : Out id t job deeds l) {u : Task W} (hu : l.task = some u) :
    u.status = .running ∨ u.status = .cancelled := by
  by_cases hc : .cancel id ∈ deeds
  · exact .inr (h.cancelled hc u hu)
  · obtain ⟨v, hv, hup⟩ := h.running hc
    obtain rfl := Option.some.inj (hu.symm.trans hv)
    exact .inl hup.status

/-- A deed that leaves the job alone and does not cancel the task. -/
theorem Out.more (h : Out id t job deeds l) (hd : d ≠ .cancel id) (hadmitted : l'.admission ≠ none)
    (hjobs : l'.jobs = l.jobs)
    (hrunning : ∀ u, l.task = some u → t.claimed.UpToSwitch u → ∃ v, l'.task = some v ∧
      t.claimed.UpToSwitch v)
    (hcancelled : ∀ u, l'.task = some u → ∃ v, l.task = some v ∧ u.status = v.status) :
    Out id t job (deeds ++ [d]) l' where
  admitted := hadmitted
  jobs := hjobs.trans h.jobs
  running hc := by
    obtain ⟨u, hu, hup⟩ := h.running fun hmem => hc (List.mem_append_left _ hmem)
    exact hrunning u hu hup
  cancelled hc u hu := by
    obtain ⟨v, hv, hstatus⟩ := hcancelled u hu
    rcases List.mem_append.mp hc with hmem | hmem
    · exact hstatus.trans (h.cancelled hmem v hv)
    · exact absurd (List.mem_singleton.mp hmem).symm hd

/-- The job stays out until a deed handles it. -/
theorem Out.step (h : Out id t job deeds l) (hd : ¬d.Handles id) (hs : Step delay id l d l') :
    Out id t job (deeds ++ [d]) l' := by
  cases hs with
  | aside hsubject =>
    refine h.more ?_ h.admitted rfl (fun u hu hup => ⟨u, hu, hup⟩) fun u hu => ⟨u, hu, rfl⟩
    rintro rfl
    exact hsubject rfl
  | accept _ _ _ unseen => exact absurd unseen h.admitted
  | claim hu hst =>
    rcases h.status hu with hs | hs <;> rw [hst] at hs <;> cases hs
  | attempt hid => exact absurd hid hd
  | finish hid => exact absurd hid hd
  | finishGone hid => exact absurd hid hd
  | abandon hid => exact absurd hid hd
  | abandonGone hid => exact absurd hid hd
  | @cancel u hu hlive =>
    refine ⟨h.admitted, h.jobs, fun hc => absurd (by simp) hc, fun _ v hv => ?_⟩
    obtain rfl := Option.some.inj hv
    rfl
  | @switch u hu hrec enabled =>
    refine h.more (by simp) h.admitted rfl (fun v hv hup => ?_) fun v hv => ?_
    · obtain rfl := Option.some.inj (hu.symm.trans hv)
      exact ⟨_, rfl, hup.switch enabled⟩
    · obtain rfl := Option.some.inj hv
      exact ⟨u, hu, rfl⟩
  | @evict u hu hterm =>
    refine h.more (by simp) h.admitted rfl (fun v hv hup => ?_) (by simp)
    obtain rfl := Option.some.inj (hu.symm.trans hv)
    rw [hup.status] at hterm
    cases hterm

/-- A job out that has not begun was out before, or has just been claimed. -/
theorem Step.out_or_claimed (h : Step delay job.id l d l') (hl : l.Sound)
    (hjob : { job } ∈ l'.jobs) :
    ({ job } ∈ l.jobs ∧ ¬d.Handles job.id) ∨ ∃ now t, d = .claim now ∧ l.task = some t ∧
      t.status = .scheduled ∧ t.work = some job.work := by
  cases h with
  | aside hsubject => exact .inl ⟨hjob, fun hd => hsubject hd.subject⟩
  | accept | cancel | switch | evict => exact .inl ⟨hjob, fun hd => hd⟩
  | @claim t work due now ht hst hw =>
    have hnone : l.jobs = [] := (hl.held t ht).mp (by simp [hw])
    rw [hnone, List.nil_append, List.mem_singleton] at hjob
    have hwork : job.work = work := congrArg (fun x => x.job.work) hjob
    exact .inr ⟨now, t, rfl, ht, hst, by rw [hw, hwork]⟩
  | attempt _ hjobs =>
    obtain ⟨rfl, rfl⟩ := hl.jobs_eq_nil hjobs
    simp at hjob
  | finish _ hjobs =>
    obtain ⟨rfl, rfl⟩ := hl.jobs_eq_nil hjobs
    simp at hjob
  | finishGone _ hjobs =>
    obtain ⟨rfl, rfl⟩ := hl.jobs_eq_nil hjobs
    simp at hjob
  | abandon _ hjobs =>
    obtain ⟨rfl, rfl⟩ := hl.jobs_eq_nil hjobs
    simp at hjob
  | abandonGone _ hjobs =>
    obtain ⟨rfl, rfl⟩ := hl.jobs_eq_nil hjobs
    simp at hjob

/-- A claim sends the job out. -/
theorem Step.out {now : Instant} (h : Step delay id l (.claim now) l') (hl : l.Sound)
    (ht : l.task = some t)
    (hw : t.work.isSome) (hjob : { job } ∈ l'.jobs) : Out id t job [] l' := by
  have hnone : l.jobs = [] := (hl.held t ht).mp hw
  cases h with
  | aside =>
    rw [hnone] at hjob
    cases hjob
  | claim hu =>
    obtain rfl := Option.some.inj (ht.symm.trans hu)
    rw [hnone, List.nil_append, List.mem_singleton] at hjob
    exact ⟨hl.admitted ht, by rw [hnone, ← hjob]; rfl, fun _ => ⟨_, rfl, .refl _⟩, by simp⟩

/-- A task that has left the index does not come back. -/
theorem Step.gone (h : Step delay id l d l') (ha : l.admission ≠ none) (ht : l.task = none) :
    l'.admission ≠ none ∧ l'.task = none := by
  cases h with
  | aside => exact ⟨ha, ht⟩
  | accept _ _ _ unseen => exact absurd unseen ha
  | attempt => exact ⟨ha, ht⟩
  | finishGone => exact ⟨ha, rfl⟩
  | abandonGone => exact ⟨ha, rfl⟩
  | evict => exact ⟨ha, rfl⟩
  | claim hu | finish _ _ hu | abandon _ _ hu | cancel hu | switch hu =>
    rw [ht] at hu
    cases hu

end Life

namespace World

variable {w₀ w w' : World W} {t : Task W} {job : Job W} {deeds : List (Deed W)} {d : Deed W}

/-- The job was claimed right after the first world, and has neither begun nor been handed back in
the deeds since. The task is as it was just before its claim. -/
structure Dispatched (w₀ : World W) (t : Task W) (job : Job W) (deeds : List (Deed W))
    (w : World W) : Prop where
  reachable : w₀.Reachable
  task : w₀.scheduler.task? job.id = some t
  waited : t.status = .scheduled
  queued : w₀.scheduler.queue.waiting? job.id = t.waiting?
  held : t.work = some job.work
  run : ∃ now w₁, Step w₀ (.claim now) w₁ ∧ { job } ∈ w₁.jobs ∧ Run w₁ deeds w
  unhandled : ∀ d ∈ deeds, ¬d.Handles job.id

theorem Dispatched.step (h : Dispatched w₀ t job deeds w) (hs : Step w d w')
    (hd : ¬d.Handles job.id) :
    Dispatched w₀ t job (deeds ++ [d]) w' := by
  obtain ⟨now, w₁, hclaim, hjob, run⟩ := h.run
  refine { h with run := ⟨now, w₁, hclaim, hjob, run.step hs⟩, unhandled := fun x hx => ?_ }
  rcases List.mem_append.mp hx with hx | hx
  · exact h.unhandled x hx
  · exact List.mem_singleton.mp hx ▸ hd

theorem mem_life_jobs {w : World W} : { job } ∈ w.jobs ↔ { job } ∈ (w.life job.id).jobs := by
  simp [life]

/-- Every job that has not begun has been dispatched. -/
theorem Reachable.dispatched (hw : w.Reachable) (hjob : { job } ∈ w.jobs) :
    ∃ w₀ t deeds, Dispatched w₀ t job deeds w := by
  refine hw.induction (motive := fun w => { job } ∈ w.jobs → ∃ w₀ t deeds,
    Dispatched w₀ t job deeds w)
    (fun c s _ hjob => by cases hjob) (fun w d w' hw h ih hjob => ?_) hjob
  rcases (h.life hw.sound job.id).out_or_claimed (hw.sound.lives job.id)
    (mem_life_jobs.mp hjob) with
    ⟨hold, hd⟩ | ⟨now, t, rfl, ht, hst, hwork⟩
  · obtain ⟨w₀, t, deeds, hdispatched⟩ := ih (mem_life_jobs.mpr hold)
    exact ⟨w₀, t, _, hdispatched.step h hd⟩
  · have htask : w.scheduler.task? job.id = some t := ht
    have hqueued : w.scheduler.queue.waiting? job.id = t.waiting? := by
      rw [hw.sound.coherent.queued, htask, Option.bind_some]
    exact ⟨w, t, [], hw, htask, hst, hqueued, hwork, ⟨now, w', h, hjob, .refl _⟩, by simp⟩

theorem Run.out {w₁ : World W} (run : Run w₁ deeds w) (hw₁ : w₁.Reachable)
    (h : (w₁.life job.id).Out job.id t job []) (hd : ∀ d ∈ deeds, ¬d.Handles job.id) :
    (w.life job.id).Out job.id t job deeds := by
  induction run with
  | refl => exact h
  | step run hs ih =>
    have hout := ih fun d hmem => hd d (List.mem_append_left _ hmem)
    exact hout.step (hd _ (by simp)) (hs.life (hw₁.run run).sound job.id)

theorem Dispatched.out (h : Dispatched w₀ t job deeds w) :
    (w.life job.id).Out job.id t job deeds := by
  obtain ⟨now, w₁, hclaim, hjob, run⟩ := h.run
  have hsound := h.reachable.sound
  have hout := (hclaim.life hsound job.id).out (hsound.lives job.id) h.task (by simp [h.held])
    (mem_life_jobs.mp hjob)
  exact run.out (h.reachable.step hclaim) hout h.unhandled

/-- The task of an identifier that has left the index never waits again. -/
theorem Run.gone (run : Run w deeds w') (hw : w.Reachable) {id : TaskId}
    (ha : (w.life id).admission ≠ none)
    (ht : w.scheduler.task? id = none) : w'.scheduler.task? id = none := by
  have hgone : (w'.life id).admission ≠ none ∧ (w'.life id).task = none := by
    induction run with
    | refl => exact ⟨ha, ht⟩
    | step run hs ih => exact (hs.life (hw.run run).sound id).gone ih.1 ih.2
  exact hgone.2

/-- What handing a dispatched job back makes of its task. -/
structure Restored (t : Task W) (job : Job W) (deeds : List (Deed W)) (w' : World W) : Prop where
  /-- A task that was not cancelled meanwhile waits in the queue as it did just before its claim,
  with its unit of work. A task has to be cancelled meanwhile to be evicted meanwhile. -/
  waits : .cancel job.id ∉ deeds → ∃ u, w'.scheduler.task? job.id = some u ∧ t.UpToSwitch u ∧
    u.status = .scheduled ∧ u.work = some job.work ∧
      w'.scheduler.queue.waiting? job.id = t.waiting? ∧
    job.id ∈ w'.scheduler.queue.toList
  /-- A task that was cancelled meanwhile stays so, for as long as it is in the index, and out
  of the queue. -/
  rests : .cancel job.id ∈ deeds → ∀ later w'', Run w' later w'' →
    job.id ∉ w''.scheduler.queue.toList ∧ ∀ u, w''.scheduler.task? job.id = some u →
      u.status = .cancelled

/-- Handing a job back undoes its dispatch. -/
theorem Dispatched.restored (h : Dispatched w₀ t job deeds w) {now : Instant}
    (hs : Step w (.abandon job now) w') :
    Restored t job deeds w' := by
  have hw : w.Reachable := by
    obtain ⟨_, _, hclaim, -, run⟩ := h.run
    exact (h.reachable.step hclaim).run run
  have hw' := hw.step hs
  have hout := h.out
  have hstanding := (h.reachable.sound.lives job.id).standing t h.task
  have htask :
      w'.scheduler.task? job.id = (w.scheduler.task? job.id).map fun u =>
        u.handBack job.work now := by
    cases hs with
    | abandon => exact (w.scheduler.task?_abandon job now job.id).trans (if_pos rfl)
  have hadmitted : (w'.life job.id).admission ≠ none := by
    cases hs with
    | abandon => exact hout.admitted
  refine ⟨fun hc => ?_, fun hc later w'' run => ?_⟩
  · obtain ⟨u, hu, hup⟩ := hout.running hc
    have hu' : w.scheduler.task? job.id = some u := hu
    rw [hu', Option.map_some] at htask
    have hback := hup.handBack hstanding h.waited h.held now
    have hstatus := hback.status.trans h.waited
    refine ⟨_, htask, hback, hstatus, hback.work.trans h.held, ?_, ?_⟩
    · rw [hw'.sound.coherent.queued, htask, Option.bind_some, hback.waiting?]
    · exact (hw'.sound.queued_iff job.id).mpr ⟨_, htask, hstatus⟩
  · have hstatus : ∀ u, w''.scheduler.task? job.id = some u → u.status = .cancelled := by
      cases hu : w.scheduler.task? job.id with
      | none =>
        rw [hu, Option.map_none] at htask
        simp [run.gone hw' hadmitted htask]
      | some u =>
        have hcancelled : u.status = .cancelled := hout.cancelled hc u hu
        rw [hu, Option.map_some, Task.handBack_of_ne (by rw [hcancelled]; decide)] at htask
        have hterm : (u.giveBack job.work).status.isTerminal := by
          show u.status.isTerminal
          rw [hcancelled]
          rfl
        have habsorbed := run.absorbed hw' htask hterm
        have hid : (u.giveBack job.work).id = job.id := Scheduler.id_of_task? htask
        rw [← hid]
        exact fun v hv => (habsorbed.status v hv).trans hcancelled
    refine ⟨fun hqueued => ?_, hstatus⟩
    have hw'' := hw'.run run
    obtain ⟨u, hu, hst⟩ := (hw''.sound.queued_iff job.id).mp hqueued
    rw [hstatus u hu] at hst
    cases hst

end World

end Timetable
