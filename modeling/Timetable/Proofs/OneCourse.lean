import Timetable.Proofs.Commands
import Timetable.Proofs.Refusals

/-!
# From the first start to the first stop

A scheduler goes one way only. Before the first start it takes tasks in and keeps them; after the
first stop it refuses whatever it is asked for. What it says of itself fits: it has been up since
the reading of the clock at the first start, and until the reading at the first stop, even if the
clock has been set back meanwhile.
-/
namespace Timetable

open Scenario (Reply)

variable {W : Type}

theorem Scheduler.takeIn_of_none {s : Scheduler W} {t : Task W} (h : s.task? t.id = none)
    (due now : Instant) :
    ∃ s', s.takeIn t due now = .ok s' := by
  rw [Scheduler.takeIn, h]
  exact ⟨_, rfl⟩

/-- What does not come of a command and is not about a task leaves the task as it stands. -/
theorem Life.Step.eq_of_aside {delay : Span} {id : TaskId} {l l' : Life W} {d : Deed W}
    (h : Life.Step delay id l d l')
    (hd : d.isCommanded = false) (hid : d.subject? ≠ some id) : l' = l := by
  cases h with
  | aside => rfl
  | accept | claim => cases hd
  | attempt hjob | finish hjob | finishGone hjob | abandon hjob | abandonGone hjob =>
    exact absurd (congrArg some hjob) hid
  | cancel | switch | evict => exact absurd rfl hid

namespace World

variable {w : World W} {cs : List (Command W)} {asides : List (Deed W)} {cfg : Config}
  {s : Scheduler W}

/-- Before the first start tasks are kept as they were accepted. -/
theorem Served.kept (hs : Scheduler.create cfg = .ok s) (served : Served (fresh s) cs asides w)
    (hcreated : w.scheduler.lifecycle = .created) {o : Offer} {t : Task W} {asked now due : Instant}
    (hoffered : .schedule o t asked now ∈ cs) (hdue : o.due? t asked = .ok due)
    (hvalid : t.fault? = none) (haside : ∀ d ∈ asides, d.subject? ≠ some t.id) :
    ∃ n, w.scheduler.task? t.id = some ((t.accept now n).schedule due) := by
  have hstart : (fresh s).Reachable := ⟨cfg, s, [], hs, .refl _⟩
  induction served with
  | refl => exact absurd hoffered List.not_mem_nil
  | @command w₁ cs asides served c h ih =>
    have hw := served.reachable hstart
    have hlifecycle : (c.move w₁.scheduler.course).lifecycle = .created :=
      (congrArg Course.lifecycle (hw.course_obey c)).symm.trans hcreated
    cases c with
    | start now =>
      rw [Command.move] at hlifecycle
      split at hlifecycle
      · cases hlifecycle
      · rename_i hne
        exact absurd hlifecycle hne
    | stop => cases hlifecycle
    | tick now =>
      have hbefore : w₁.scheduler.lifecycle = .created := hlifecycle
      rw [obey_tick_of_ne (by rw [hbefore]; decide)]
      exact ih hbefore (by simpa using hoffered) haside
    | schedule o' t' asked' now' =>
      have hbefore : w₁.scheduler.lifecycle = .created := hlifecycle
      rw [obey_schedule]
      rcases List.mem_append.mp hoffered with hoffered | hoffered
      · obtain ⟨n, hn⟩ := ih hbefore hoffered haside
        refine ⟨n, ?_⟩
        cases h' : w₁.scheduler.schedule o' t' asked' now' with
        | error e => exact hn
        | ok s' =>
          obtain ⟨-, -, due', -, htaken⟩ := Scheduler.schedule_eq_ok h'
          have hne : t.id ≠ t'.id := fun hid => by
            rw [hid, (Scheduler.takeIn_eq_ok htaken).1] at hn
            cases hn
          exact ((Scheduler.task?_takeIn htaken t.id).trans (if_neg hne)).trans hn
      · cases List.mem_singleton.mp hoffered
        have hopen : w₁.scheduler.accepting := hw.gated.accepting.mpr (by rw [hbefore]; decide)
        obtain ⟨s', htaken⟩ := Scheduler.takeIn_of_none (hw.sound.task?_of_unseen h.2) due now
        have hscheduled : w₁.scheduler.schedule o t asked now = .ok s' := by
          simp [Scheduler.schedule, Scheduler.enqueue, hdue, hopen, hvalid, htaken]
        rw [hscheduled]
        exact ⟨_, (Scheduler.task?_takeIn htaken t.id).trans (if_pos rfl)⟩
  | @aside w₁ w₂ cs asides served d h hd ih =>
    have hw := (served.reachable hstart).sound
    have hcourse := h.course_of_aside hw hd
    have hlife := (h.life hw t.id).eq_of_aside hd (haside d (by simp))
    obtain ⟨n, hn⟩ := ih ((congrArg Course.lifecycle hcourse).symm.trans hcreated) hoffered
      fun d hd => haside d (List.mem_append_left _ hd)
    exact ⟨n, (congrArg Life.task hlife).trans hn⟩

end World

/-! ## The whole course -/

/-- The ways in which a scheduler comes on. -/
inductive Lifecycle.Moves : Lifecycle → Lifecycle → Prop
  | stay (l : Lifecycle) : Moves l l
  | start : Moves .created .running
  | stop : Moves .running .stopped
  | stopUnused : Moves .created .stopped

namespace Command

theorem moves_move (c : Command W) (k : Course) : k.lifecycle.Moves (c.move k).lifecycle := by
  cases c with
  | start now =>
    rw [move]
    split
    · rename_i hcreated
      rw [hcreated]
      exact .start
    · exact .stay _
  | stop now inTime =>
    cases hl : k.lifecycle with
    | created => exact .stopUnused
    | running => exact .stop
    | stopped => exact .stay _
  | tick | schedule => exact .stay _

theorem firstStop?_eq_none {cs : List (Command W)} :
    firstStop? cs = none ↔ ∀ now inTime, .stop now inTime ∉ cs := by
  induction cs with
  | nil => simp [firstStop?]
  | cons c cs ih =>
    cases c with
    | stop now inTime =>
      exact iff_of_false (Option.some_ne_none now) fun h =>
        h now inTime (List.mem_cons_self ..)
    | start | tick | schedule => simp [firstStop?, ih]

/-- While nobody has stopped the scheduler, any start is the first or comes after it. -/
theorem firstStart?_eq_none {cs : List (Command W)} (h : firstStop? cs = none) :
    firstStart? cs = none ↔ ∀ now, .start now ∉ cs := by
  induction cs with
  | nil => simp [firstStart?]
  | cons c cs ih =>
    cases c with
    | start now =>
      exact iff_of_false (Option.some_ne_none now) fun h =>
        h now (List.mem_cons_self ..)
    | stop => cases h
    | tick | schedule => simpa [firstStart?] using ih h

theorem firstStop?_ne_none {cs : List (Command W)} :
    firstStop? cs ≠ none ↔ ∃ now inTime, .stop now inTime ∈ cs := by
  simp only [ne_eq, firstStop?_eq_none, not_forall, not_not]

/-- The reply to a command that comes after the stop. -/
def lateReply : Command W → Reply
  | start _ => .refused .shutDown
  | stop _ _ => .flag true
  | tick _ => .count 0
  | schedule o t asked _ =>
    match o.due? t asked with
    | .error cause => .refused (.invalidArgument cause)
    | .ok _ => .refused .shutDown

end Command

namespace Scheduler

variable {s : Scheduler W}

/-- A second stop does nothing. -/
theorem Gated.stop_eq (hs : s.Gated) (h : s.lifecycle = .stopped) (now : Instant) :
    s.stop now = s := by
  have haccepting : s.accepting = false := by simpa [h] using hs.accepting
  have hdispatching : s.dispatching = false := by simpa [h] using hs.dispatching
  cases s
  simp_all [Scheduler.stop]

theorem uptime_total (s : Scheduler W) (now : Instant) : ((s.uptime now).total : Int) =
    match s.startedAt with
    | none => 0
    | some started => max 0 ((s.stoppedAt.getD now).minus started) := by
  unfold uptime
  cases s.startedAt with
  | none => rfl
  | some started => exact (Int.toNat_eq_max _).trans (max_comm _ _)

end Scheduler

namespace World

variable {w : World W} {cs : List (Command W)} {asides : List (Deed W)} {cfg : Config}
  {s : Scheduler W}

theorem Reachable.obey_of_stopped (hw : w.Reachable) (h : w.scheduler.lifecycle = .stopped)
    (c : Command W) :
    w.obey c = (c.lateReply, w) := by
  cases c with
  | start now =>
    rw [hw.obey_start, Scheduler.start, h]
    rfl
  | stop now inTime =>
    have hrun : w.scheduler.isRunning = false := by simp [Scheduler.isRunning, h]
    rw [obey_stop, hw.gated.stop_eq h, turn_scheduler, hrun]
    rfl
  | tick now => exact obey_tick_of_ne (by rw [h]; decide) now
  | schedule o t asked now =>
    have hclosed : w.scheduler.accepting = false := by simpa [h] using hw.gated.accepting
    rw [obey_schedule, Scheduler.schedule, Command.lateReply]
    cases o.due? t asked with
    | error cause => rfl
    | ok due => simp [Scheduler.enqueue, hclosed]

/-- How the course of a scheduler follows from what it was asked for. -/
structure KeepsCourse (w : World W) (cs : List (Command W)) (asides : List (Deed W)) : Prop where
  created_iff : w.scheduler.lifecycle = .created ↔ (∀ now, .start now ∉ cs) ∧ ∀ now inTime,
    .stop now inTime ∉ cs
  stopped_iff : w.scheduler.lifecycle = .stopped ↔ ∃ now inTime, .stop now inTime ∈ cs
  /-- No command, and nothing that happens besides, takes the scheduler back. -/
  moves : ∀ c, w.scheduler.lifecycle.Moves (w.obey c).2.scheduler.lifecycle
  steady : ∀ d w', Step w d w' → d.isCommanded = false →
    w'.scheduler.lifecycle = w.scheduler.lifecycle
  gated : w.scheduler.Gated
  /-- After the first stop whatever is asked for is refused, or there is nothing to do. -/
  closed : ∀ now inTime, .stop now inTime ∈ cs → ∀ c, w.obey c = (c.lateReply, w)
  /-- Before the first start a tick claims nothing. -/
  idle : (∀ now, .start now ∉ cs) → ∀ now, w.obey (.tick now) = (.count 0, w)
  /-- Tasks taken in before the first start are kept, and a tick after the start dispatches them. -/
  kept : w.scheduler.lifecycle = .created → ∀ o t asked now due, .schedule o t asked now ∈ cs →
    o.due? t asked = .ok due → t.fault? = none → (∀ d ∈ asides, d.subject? ≠ some t.id) →
    ∃ n, w.scheduler.task? t.id = some ((t.accept now n).schedule due) ∧
      ∀ started later, due ≤ later → ∃ w₁, w.obey (.start started) = (.nothing, w₁) ∧
        (w₁.obey (.tick later)).2.scheduler.task? t.id =
          some ((t.accept now n).schedule due).claimed ∧
        ∃ x ∈ (w₁.obey (.tick later)).2.jobs, x.job.id = t.id
  /-- The time since the first start, up to the first stop; nothing if the clock has been set
  back behind it. -/
  uptime : ∀ pool now, ((w.scheduler.statistics pool now).uptime.total : Int) =
    match Command.firstStart? cs with
    | none => 0
    | some started => max 0 (((Command.firstStop? cs).getD now).minus started)

/-- What waits in a scheduler that was not started yet is dispatched by a tick after the start. -/
theorem Reachable.dispatched_after_start (hw : w.Reachable)
    (hcreated : w.scheduler.lifecycle = .created) {id : TaskId}
    {t : Task W} (ht : w.scheduler.task? id = some t) (hst : t.status = .scheduled)
    {due later : Instant}
    (hnext : t.nextExecution = some due) (hdue : due ≤ later) (started : Instant) :
    ∃ w₁, w.obey (.start started) = (.nothing, w₁) ∧
      (w₁.obey (.tick later)).2.scheduler.task? id = some t.claimed ∧
      ∃ x ∈ (w₁.obey (.tick later)).2.jobs, x.job.id = id := by
  obtain ⟨s₁, hs₁, htasks, hrunning⟩ : ∃ s₁, w.scheduler.start started = .ok s₁ ∧
    s₁.tasks = w.scheduler.tasks ∧
      s₁.lifecycle = .running := by
    rw [Scheduler.start, hcreated]
    exact ⟨_, rfl, rfl, rfl⟩
  have hw₁ : (w.turn s₁).Reachable := hw.step (.start hs₁)
  have ht₁ : (w.turn s₁).scheduler.task? id = some t := by
    rw [← ht]
    exact congrArg (List.find? _) htasks
  exact ⟨w.turn s₁, by rw [hw.obey_start, hs₁], hw₁.obey_tick_claims hrunning ht₁ hst hnext hdue⟩

theorem Served.stopped_iff (hs : Scheduler.create cfg = .ok s)
    (served : Served (fresh s) cs asides w) :
    w.scheduler.lifecycle = .stopped ↔ ∃ now inTime, .stop now inTime ∈ cs := by
  have hlifecycle : w.scheduler.lifecycle = (Command.course cs).lifecycle :=
    congrArg Course.lifecycle (served.course hs)
  rw [hlifecycle, Command.course, ← Command.firstStop?_ne_none]
  cases Command.firstStop? cs <;> cases Command.firstStart? cs <;> simp

theorem Served.created_iff (hs : Scheduler.create cfg = .ok s)
    (served : Served (fresh s) cs asides w) :
    w.scheduler.lifecycle = .created ↔ (∀ now, .start now ∉ cs) ∧ ∀ now inTime,
      .stop now inTime ∉ cs := by
  have hlifecycle : w.scheduler.lifecycle = (Command.course cs).lifecycle :=
    congrArg Course.lifecycle (served.course hs)
  rw [hlifecycle, Command.course, ← Command.firstStop?_eq_none]
  cases hstop : Command.firstStop? cs with
  | some => simp
  | none =>
    rw [← Command.firstStart?_eq_none hstop]
    cases Command.firstStart? cs <;> simp

theorem Served.keeps_course (hs : Scheduler.create cfg = .ok s)
    (served : Served (fresh s) cs asides w) :
    w.KeepsCourse cs asides := by
  have hw : w.Reachable := served.reachable ⟨cfg, s, [], hs, .refl _⟩
  have hcourse := served.course hs
  exact {
    created_iff := served.created_iff hs
    stopped_iff := served.stopped_iff hs
    moves := fun c => by
      have hmove : (w.obey c).2.scheduler.lifecycle = (c.move w.scheduler.course).lifecycle :=
        congrArg Course.lifecycle (hw.course_obey c)
      rw [hmove]
      exact c.moves_move w.scheduler.course
    steady := fun d w' h hd => congrArg Course.lifecycle (h.course_of_aside hw.sound hd)
    gated := hw.gated
    closed := fun now inTime hstop =>
      hw.obey_of_stopped ((served.stopped_iff hs).mpr ⟨now, inTime, hstop⟩)
    idle := fun hunstarted => obey_tick_of_ne fun hrun => by
      have hunstopped : ∀ now inTime, .stop now inTime ∉ cs := fun now inTime hstop => by
        cases ((served.stopped_iff hs).mpr ⟨now, inTime, hstop⟩).symm.trans hrun
      cases ((served.created_iff hs).mpr ⟨hunstarted, hunstopped⟩).symm.trans hrun
    kept := fun hcreated o t asked now due hoffered hdue hvalid haside => by
      obtain ⟨n, hn⟩ := served.kept hs hcreated hoffered hdue hvalid haside
      exact ⟨n, hn, fun started later hlater =>
        hw.dispatched_after_start hcreated hn rfl rfl hlater started⟩
    uptime := fun pool now => by
      have huptime :
        (w.scheduler.statistics pool now).uptime = w.scheduler.uptime now := by cases pool <;> rfl
      have hstarted :
        w.scheduler.startedAt = (Command.course cs).startedAt := congrArg Course.startedAt hcourse
      have hstopped :
        w.scheduler.stoppedAt = (Command.course cs).stoppedAt := congrArg Course.stoppedAt hcourse
      rw [huptime, Scheduler.uptime_total, hstarted, hstopped, Command.course]
      cases Command.firstStart? cs <;> rfl }

/-- A second start is not counted, and neither is what the clock shows after the stop. -/
theorem keeps_course_of_five_millis : ∃ (cs : List (Command Nat)) (w : World Nat), cs.length = 5 ∧
    w.scheduler.lifecycle = .stopped ∧ (w.scheduler.statistics none .epoch).uptime = .ofMillis 5 ∧
    w.jobs.map (fun x => x.job.id) = [.ofNat 1] ∧ w.KeepsCourse cs [] := by
  let after (n : Nat) := Instant.epoch.add (.ofMillis n)
  have waiting : Served World.sample [.schedule .dueNow Task.sample .epoch .epoch] [] _ :=
    .command (.refl _) ⟨Task.isNew_sample, by simp [World.sample, fresh]⟩
  have started :=
    (waiting.command (c := .start .epoch) trivial).command (c := .start (after 9)) trivial
  have stopped :=
    (started.command (c := .tick .epoch) trivial).command (c := .stop (after 5) true) trivial
  have hcreated : Scheduler.create ({} : Config) = .ok (World.sample.scheduler) := rfl
  exact ⟨_, _, rfl, by decide +kernel, by decide +kernel, by decide +kernel,
    Served.keeps_course hcreated stopped⟩

end World

end Timetable
