import Timetable.Proofs.InPlace
import Timetable.Proofs.Ticks

/-!
# One course, whatever is asked

The owner of a scheduler starts it, stops it, lets it tick and schedules tasks, in any order and at
any readings of the clock. Meanwhile workers work, hooks are called, and tasks are cancelled or
evicted. How far the scheduler has come can be told from what the owner has asked for: the first
start counts, unless a stop came before it, and the first stop ends everything.
-/
namespace Timetable

open Scenario (Reply)

variable {W : Type}

/-! ## Commands -/

/-- What the owner of a scheduler asks for, with the readings of the clock that it takes. -/
inductive Command (W : Type) where
  | start (now : Instant)
  /-- If a pool has to be shut down, its workers may leave in time or not. -/
  | stop (now : Instant) (inTime : Bool)
  | tick (now : Instant)
  | schedule (o : Offer) (t : Task W) (asked now : Instant)

/-- The reply to a call, and the world in which something has come of it. -/
def World.after {α : Type} (w : World W) (p : Procedure W α) (reply : α → Reply)
    (follow : α → World W → World W) : Reply × World W :=
  match p.outcome w.scheduler with
  | (.error e, s) => (.refused e, w.turn s)
  | (.ok a, s) => (reply a, follow a (w.turn s))

/-- The reply to a command, and the world after it. -/
def World.obey (w : World W) : Command W → Reply × World W
  | .start now => w.after (Procedure.start now) (fun _ => .nothing) fun _ w => w
  | .stop now inTime => w.after (Procedure.stop now inTime) .flag fun _ w => w
  | .tick now => w.after (Procedure.tick now) (fun jobs => .count jobs.length)
      fun jobs w => { w with jobs := w.jobs ++ jobs.map fun job => { job } }
  | .schedule o t asked now => w.after (Procedure.schedule o t asked now) .task
      fun _ w => { w with accepted := w.accepted ++ [⟨o, t⟩] }

/-- The tasks offered are new. -/
def Command.Admissible (w : World W) : Command W → Prop
  | schedule _ t _ _ => t.IsNew ∧ ∀ a ∈ w.accepted, a.task.id ≠ t.id
  | _ => True

/-- Whether the deed comes of a command. -/
def Deed.isCommanded : Deed W → Bool
  | accept .. | claim _ | start _ | stop _ => true
  | _ => false

/-- What has been asked for, and what has happened besides. -/
inductive World.Served : World W → List (Command W) → List (Deed W) → World W → Prop
  | refl (w : World W) : Served w [] [] w
  | command {w w₁ : World W} {cs : List (Command W)} {asides : List (Deed W)}
    (served : Served w cs asides w₁)
    {c : Command W} (h : c.Admissible w₁) : Served w (cs ++ [c]) asides (w₁.obey c).2
  | aside {w w₁ w₂ : World W} {cs : List (Command W)} {asides : List (Deed W)}
    (served : Served w cs asides w₁)
    {d : Deed W} (h : Step w₁ d w₂) (hd : d.isCommanded = false) : Served w cs (asides ++ [d]) w₂

namespace Command

/-- The reading of the clock at the first start, unless a stop came before it. -/
def firstStart? : List (Command W) → Option Instant
  | [] | stop _ _ :: _ => none
  | start now :: _ => some now
  | tick _ :: cs | schedule _ _ _ _ :: cs => firstStart? cs

/-- The reading of the clock at the first stop. -/
def firstStop? : List (Command W) → Option Instant
  | [] => none
  | stop now _ :: _ => some now
  | start _ :: cs | tick _ :: cs | schedule _ _ _ _ :: cs => firstStop? cs

/-- The course of a scheduler after these commands. -/
def course (cs : List (Command W)) : Course where
  lifecycle :=
    if (firstStop? cs).isSome then .stopped
    else if (firstStart? cs).isSome then .running
    else .created
  accepting := (firstStop? cs).isNone
  dispatching := (firstStop? cs).isNone && (firstStart? cs).isSome
  startedAt := firstStart? cs
  stoppedAt := (firstStart? cs).bind fun _ => firstStop? cs

/-- How a command moves a scheduler on its course. -/
def move : Command W → Course → Course
  | start now, k =>
    if k.lifecycle = .created then
      { k with lifecycle := .running, dispatching := true, startedAt := some now }
    else k
  | stop now _, k =>
    ⟨.stopped, false, false, k.startedAt, if k.lifecycle = .running then some now else k.stoppedAt⟩
  | _, k => k

theorem firstStop?_append (cs ds : List (Command W)) :
    firstStop? (cs ++ ds) = (firstStop? cs).or (firstStop? ds) := by
  induction cs with
  | nil => rfl
  | cons c cs ih =>
    cases c with
    | stop => rfl
    | start | tick | schedule => exact ih

theorem firstStart?_append (cs ds : List (Command W)) :
    firstStart? (cs ++ ds) =
      (firstStart? cs).or (if (firstStop? cs).isSome then none else firstStart? ds) := by
  induction cs with
  | nil => rfl
  | cons c cs ih =>
    cases c with
    | start | stop => rfl
    | tick | schedule => exact ih

theorem course_append (cs : List (Command W)) (c : Command W) :
    course (cs ++ [c]) = c.move (course cs) := by
  cases hstart : firstStart? cs <;> cases hstop : firstStop? cs <;> cases c <;>
    simp [course, move, firstStart?_append, firstStop?_append, hstart, hstop,
      firstStart?, firstStop?]

end Command

/-! ## What commands come to -/

namespace World

variable {w w' : World W} {c : Command W} {cs : List (Command W)} {asides : List (Deed W)}

theorem turn_scheduler (w : World W) : w.turn w.scheduler = w := by simp [turn]

/-- A start can always be made: the settings of a scheduler are good. -/
theorem Reachable.pool_ready (hw : w.Reachable) :
    ∃ pool : Pool (Job W), Pool.create w.scheduler.config.pool = .ok pool := by
  have hvalid : w.scheduler.config.fault? = none := by
    refine hw.induction (motive := fun w => w.scheduler.config.fault? = none) (fun c s hs => ?_)
      fun w d w' hw h ih => by rwa [h.config hw.sound]
    unfold Scheduler.create at hs
    split at hs
    · cases hs
    · rename_i hvalid
      obtain rfl := Except.ok.inj hs
      exact hvalid
  unfold Config.fault? at hvalid
  split at hvalid
  · cases hvalid
  · rw [Pool.create, Option.map_eq_none_iff.mp hvalid]
    exact ⟨_, rfl⟩

theorem Reachable.obey_start (hw : w.Reachable) (now : Instant) : w.obey (.start now) =
    match w.scheduler.start now with
    | .error e => (.refused e, w)
    | .ok s => (.nothing, w.turn s) := by
  obtain ⟨pool, hpool⟩ := hw.pool_ready
  rw [obey, after, Procedure.outcome_start, hpool]
  cases w.scheduler.start now with
  | error e => exact congrArg (Prod.mk _) w.turn_scheduler
  | ok s => cases w.scheduler.isRunning <;> rfl

theorem obey_stop (w : World W) (now : Instant) (inTime : Bool) :
    w.obey (.stop now inTime) =
      (.flag (!w.scheduler.isRunning || inTime), w.turn (w.scheduler.stop now)) := by
  rw [obey, after, Procedure.outcome_stop]

theorem obey_tick (w : World W) (now : Instant) : w.obey (.tick now) =
    (.count (w.scheduler.tick now).1.length, { w.turn (w.scheduler.tick now).2 with
      jobs := w.jobs ++ (w.scheduler.tick now).1.map fun job => { job } }) := by
  rw [obey, after, Procedure.outcome_tick]
  rfl

theorem obey_schedule (w : World W) (o : Offer) (t : Task W) (asked now : Instant) :
    w.obey (.schedule o t asked now) =
    match w.scheduler.schedule o t asked now with
    | .error e => (.refused e, w)
    | .ok s => (.task t.id, { w.turn s with accepted := w.accepted ++ [⟨o, t⟩] }) := by
  rw [obey, after, Procedure.outcome_schedule]
  cases w.scheduler.schedule o t asked now with
  | error e => exact congrArg (Prod.mk _) w.turn_scheduler
  | ok s => rfl

/-- A scheduler that does not run claims nothing. -/
theorem obey_tick_of_ne (h : w.scheduler.lifecycle ≠ .running) (now : Instant) :
    w.obey (.tick now) = (.count 0, w) := by
  have hidle : w.scheduler.tick now = ([], w.scheduler) := by
    simp [Scheduler.tick, Scheduler.isRunning, h]
  rw [obey_tick, hidle, turn_scheduler, List.map_nil, List.append_nil]
  rfl

/-- A command changes nothing, or it is a step. -/
theorem Reachable.obey_step (hw : w.Reachable) (h : c.Admissible w) :
    (w.obey c).2 = w ∨ ∃ d, Step w d (w.obey c).2 := by
  cases c with
  | start now =>
    rw [hw.obey_start]
    cases hs : w.scheduler.start now with
    | error e => exact .inl rfl
    | ok s => exact .inr ⟨_, .start hs⟩
  | stop now inTime =>
    rw [obey_stop]
    exact .inr ⟨_, .stop w now⟩
  | tick now =>
    by_cases hrun : w.scheduler.isRunning && w.scheduler.dispatching
    · rw [obey_tick, Scheduler.tick, if_pos hrun]
      exact .inr ⟨_, .claim w now⟩
    · rw [obey_tick, Scheduler.tick, if_neg hrun, turn_scheduler, List.map_nil, List.append_nil]
      exact .inl rfl
  | schedule o t asked now =>
    rw [obey_schedule]
    cases hs : w.scheduler.schedule o t asked now with
    | error e => exact .inl rfl
    | ok s => exact .inr ⟨_, .of_schedule h.1 h.2 hs⟩

theorem Served.reachable {w₀ : World W} (hw : w₀.Reachable) (served : Served w₀ cs asides w) :
    w.Reachable := by
  induction served with
  | refl => exact hw
  | command served h ih =>
    rcases ih.obey_step h with hsame | ⟨d, h⟩
    · rwa [hsame]
    · exact ih.step h
  | aside served h hd ih => exact ih.step h

/-- A command moves the scheduler on its course as it should. -/
theorem Reachable.course_obey (hw : w.Reachable) (c : Command W) :
    (w.obey c).2.scheduler.course = c.move w.scheduler.course := by
  cases c with
  | start now =>
    rw [hw.obey_start, Scheduler.start]
    cases hl : w.scheduler.lifecycle with
    | created => simp [Command.move, Scheduler.course, turn, hl]
    | running | stopped => simp [Command.move, Scheduler.course, turn, hl]
  | stop now inTime => rw [obey_stop]; rfl
  | tick now =>
    rw [obey_tick, Scheduler.tick]
    split
    · have hsame := (Step.claim w now).course hw.sound (by simp) (by simp)
      exact hsame
    · rfl
  | schedule o t asked now =>
    rw [obey_schedule]
    cases hs : w.scheduler.schedule o t asked now with
    | error e => rfl
    | ok s =>
      obtain ⟨-, -, due, -, htaken⟩ := Scheduler.schedule_eq_ok hs
      obtain ⟨-, rfl⟩ := Scheduler.takeIn_eq_ok htaken
      rfl

/-- What does not come of a command leaves the scheduler where it is on its course. -/
theorem Step.course_of_aside {d : Deed W} (h : Step w d w') (hw : w.Sound)
    (hd : d.isCommanded = false) :
    w'.scheduler.course = w.scheduler.course := by
  have hne (d' : Deed W) (hd' : d'.isCommanded = true) : d ≠ d' := fun e => by simp [e, hd'] at hd
  exact h.course hw (fun now => hne _ rfl) fun now => hne _ rfl

theorem Served.course {cfg : Config} {s : Scheduler W} (hs : Scheduler.create cfg = .ok s)
    (served : Served (fresh s) cs asides w) : w.scheduler.course = Command.course cs := by
  have hstart : (fresh s).Reachable := ⟨cfg, s, [], hs, .refl _⟩
  induction served with
  | refl =>
    obtain rfl := Scheduler.create_eq_ok hs
    rfl
  | command served h ih => rw [(served.reachable hstart).course_obey, ih, Command.course_append]
  | aside served h hd ih => rw [h.course_of_aside (served.reachable hstart).sound hd, ih]

/-- A running scheduler claims what is due. -/
theorem Reachable.obey_tick_claims (hw : w.Reachable) (hrun : w.scheduler.lifecycle = .running)
    {id : TaskId} {t : Task W} (ht : w.scheduler.task? id = some t) (hst : t.status = .scheduled)
    {due now : Instant} (hnext : t.nextExecution = some due) (hdue : due ≤ now) :
    (w.obey (.tick now)).2.scheduler.task? id = some t.claimed ∧
      ∃ x ∈ (w.obey (.tick now)).2.jobs, x.job.id = id := by
  have htick : w.scheduler.tick now = w.scheduler.claimDue now := by
    simp [Scheduler.tick, Scheduler.isRunning, hrun, hw.gated.dispatching.mpr hrun]
  have hsnapshot : w.scheduler.snapshot? id = some t.toSnapshot :=
    congrArg (Option.map Task.toSnapshot) ht
  have hid : id ∈ (w.scheduler.queue.extractDue now).1 := by
    refine (hw.mem_promised hsnapshot).mp
      (List.mem_filter.mpr ⟨hw.sound.mem_listPending.mpr ?_, ?_⟩)
    · exact Scheduler.mem_listWhere.mpr ⟨t, (hw.sound.coherent.task?_eq_some.mp ht).1,
        by simpa using hst, rfl⟩
    · simpa [Snapshot.isDue, hnext] using hdue
  obtain ⟨-, -, -, htask⟩ := hw.sound.coherent.claimDue_eq hw.sound.armed now
  rw [obey_tick, htick]
  refine ⟨(htask id).trans ?_, ?_⟩
  · rw [if_pos hid, ht]
    rfl
  · rw [← hw.sound.coherent.claimed_ids hw.sound.armed now] at hid
    obtain ⟨job, hjob, hid⟩ := List.mem_map.mp hid
    exact ⟨{ job }, List.mem_append_right _ (List.mem_map_of_mem hjob), hid⟩

end World

end Timetable
