import Timetable.Proofs.DueTimes
import Timetable.Proofs.Rehearsal
import Timetable.Proofs.Retries

/-!
# Never early, never backwards

A scheduler whose clock does not go back. A tick reads the clock before it takes the lock, a worker
reads it when its attempt begins and again when it has ended, before it takes the lock to record it;
other sections come in between, so that readings are not used in the order in which they were made.
What other sections read is left open.
-/
namespace Timetable

variable {W : Type}

/-- A scheduler at work, with the readings of its clock. -/
structure Clocked (W : Type) where
  world : World W
  /-- The last reading. -/
  clock : Instant
  /-- The readings of ticks that have not yet claimed what is due. -/
  ticks : List Instant := []
  /-- The attempts that have ended and are not yet recorded, with the readings made at their end. -/
  ends : List (Dispatch W × Instant) := []

/-- Whether a deed takes no part in dispatch and execution. -/
def Deed.isAside : Deed W → Bool
  | claim _ | attempt .. | finish .. => false
  | _ => true

namespace Clocked

/-- One step. No reading is less than the one before. -/
inductive Step (c : Clocked W) : Option (Deed W) → Clocked W → Prop
  | readForTick {now : Instant} (h : c.clock ≤ now) :
    Step c none { c with clock := now, ticks := now :: c.ticks }
  | readAtEnd {x : Dispatch W} {now : Instant} (hx : x ∈ c.world.jobs) (hbegun : x.startedAt.isSome)
    (h : c.clock ≤ now) : Step c none { c with clock := now, ends := (x, now) :: c.ends }
  | claim {before after : List Instant} {now : Instant} {w : World W}
    (hread : c.ticks = before ++ now :: after) (h : World.Step c.world (.claim now) w) :
    Step c (some (.claim now)) { c with world := w, ticks := before ++ after }
  /-- The worker reads the clock and calls the unit of work. -/
  | attempt {job : Job W} {startedAt : Instant} {w : World W} (hread : c.clock ≤ startedAt)
    (h : World.Step c.world (.attempt job startedAt) w) :
    Step c (some (.attempt job startedAt)) { c with world := w, clock := startedAt }
  | finish {before after : List (Dispatch W × Instant)} {job : Job W} {work : W} {a : Attempt}
    {now : Instant} {w : World W}
    (hread : c.ends = before ++ ({ job, startedAt := some a.startedAt }, now) :: after)
    (h : World.Step c.world (.finish job work a now) w) :
    Step c (some (.finish job work a now)) { c with world := w, ends := before ++ after }
  | aside {d : Deed W} {w : World W} (hd : d.isAside) (h : World.Step c.world d w) :
    Step c (some d) { c with world := w }

/-- What a new scheduler can get into, whatever the clock shows at first. -/
def Reachable (c : Clocked W) : Prop :=
  ∃ (config : Config) (s : Scheduler W) (first : Instant), Scheduler.create config = .ok s ∧
    Relation.ReflTransGen (fun c c' => ∃ d, Step c d c') { world := .fresh s, clock := first } c

variable {c c' : Clocked W} {d : Option (Deed W)}

theorem Reachable.step (hc : c.Reachable) (h : Step c d c') : c'.Reachable := by
  obtain ⟨config, s, first, hs, run⟩ := hc
  exact ⟨config, s, first, hs, run.tail ⟨d, h⟩⟩

theorem Step.world (h : Step c d c') :
    (d = none ∧ c'.world = c.world) ∨ ∃ e, d = some e ∧ World.Step c.world e c'.world := by
  cases h with
  | readForTick | readAtEnd => exact .inl ⟨rfl, rfl⟩
  | claim _ h | attempt _ h | finish _ h | aside _ h => exact .inr ⟨_, rfl, h⟩

/-- Readings that are still to be used have been made, those at the end of an attempt
after it began. -/
structure Sound (c : Clocked W) : Prop where
  world : c.world.Reachable
  ticks : ∀ now ∈ c.ticks, now ≤ c.clock
  ends : ∀ e ∈ c.ends, ∀ startedAt, e.1.startedAt = some startedAt → startedAt ≤ e.2
  punctual : ∀ id, (c.world.life id).Punctual c.clock

theorem Sound.fresh {config : Config} {s : Scheduler W} (h : Scheduler.create config = .ok s)
    (first : Instant) :
    Sound { world := .fresh s, clock := first } := by
  have hworld : (World.fresh s).Reachable := ⟨config, s, [], h, .refl _⟩
  refine ⟨hworld, by simp, by simp, fun id => ?_⟩
  have hempty : (World.fresh s).life id = {} := (hworld.sound.lives id).unseen rfl
  rw [hempty]
  exact ⟨by simp, .nil, by simp, by simp⟩

/-- An attempt that is out began at a reading that has been made. -/
theorem Sound.startedAt_le (hs : c.Sound) {x : Dispatch W} (hx : x ∈ c.world.jobs)
    {startedAt : Instant} (hbegun : x.startedAt = some startedAt) : startedAt ≤ c.clock := by
  have hmem : x ∈ (c.world.life x.job.id).jobs := List.mem_filter.mpr ⟨hx, decide_eq_true rfl⟩
  obtain ⟨due, -, -, -, hstarted⟩ := (hs.punctual x.job.id).out x hmem
  exact (hstarted startedAt hbegun).2

/-- A section, with what it has read. -/
theorem Sound.section (hs : c.Sound) {e : Deed W} {w : World W} (h : World.Step c.world e w)
    {later : Instant} (hlater : c.clock ≤ later) (he : e.InTime c.clock later) (id : TaskId) :
    (w.life id).Punctual later :=
  (h.life hs.world.sound id).punctual (hs.world.sound.lives id) (hs.punctual id) hlater he

theorem Step.sound (h : Step c d c') (hs : c.Sound) : c'.Sound := by
  have hworld : c'.world.Reachable := by
    rcases h.world with ⟨-, heq⟩ | ⟨e, -, he⟩
    · exact heq ▸ hs.world
    · exact hs.world.step he
  have hstill : c.clock ≤ c.clock := Int.le_refl _
  cases h with
  | readForTick h =>
    refine ⟨hworld, fun now hnow => ?_, hs.ends, fun id => (hs.punctual id).mono h⟩
    rcases List.mem_cons.mp hnow with rfl | hnow
    · exact Int.le_refl _
    · exact Int.le_trans (hs.ticks now hnow) h
  | readAtEnd hx hbegun h =>
    refine ⟨hworld, fun now hnow => Int.le_trans (hs.ticks now hnow) h, fun e he => ?_,
      fun id => (hs.punctual id).mono h⟩
    rcases List.mem_cons.mp he with rfl | he
    · exact fun startedAt hstarted => Int.le_trans (hs.startedAt_le hx hstarted) h
    · exact hs.ends e he
  | @claim before after now _ hread h =>
    have hnow := hs.ticks _ (hread ▸ List.mem_append_right _ (List.mem_cons_self ..))
    have hrest : (before ++ after).Sublist c.ticks :=
      hread ▸ (List.sublist_cons_self now after).append_left before
    exact ⟨hworld, fun now hmem => hs.ticks now (hrest.subset hmem), hs.ends,
      hs.section h hstill hnow⟩
  | attempt hread h =>
    exact ⟨hworld, fun now hnow => Int.le_trans (hs.ticks now hnow) hread, hs.ends,
      hs.section h hread ⟨hread, Int.le_refl _⟩⟩
  | @finish before after job _ a now _ hread h =>
    have hend := hs.ends _ (hread ▸ List.mem_append_right _ (List.mem_cons_self ..)) _ rfl
    have hrest : (before ++ after).Sublist c.ends :=
      hread ▸ (List.sublist_cons_self _ after).append_left before
    exact ⟨hworld, hs.ticks, fun e hmem => hs.ends e (hrest.subset hmem), hs.section h hstill hend⟩
  | @aside e w he h =>
    refine ⟨hworld, hs.ticks, hs.ends, hs.section h hstill ?_⟩
    cases e with
    | claim | attempt | finish => cases he
    | _ => trivial

theorem Reachable.sound (hc : c.Reachable) : c.Sound := by
  obtain ⟨config, s, first, hs, run⟩ := hc
  induction run with
  | refl => exact .fresh hs first
  | tail _ h ih =>
    obtain ⟨d, h⟩ := h
    exact h.sound ih

end Clocked

/-- An attempt that is recorded was out. -/
theorem World.Step.mem_of_finish {w w' : World W} {job : Job W} {work : W} {a : Attempt}
    {now : Instant} (h : World.Step w (.finish job work a now) w') :
    { job, startedAt := some a.startedAt } ∈ w.jobs := by
  cases h with
  | finish hjobs =>
    rw [hjobs]
    exact List.mem_append_right _ (List.mem_cons_self ..)

/-- What the record of an attempt says of the task, and when the task is due next. -/
structure World.Recorded (w w' : World W) (job : Job W) (a : Attempt) (now : Instant) : Prop where
  /-- The attempt began no earlier than the task was due, and is recorded no earlier
  than it began. -/
  punctual : ∃ due, (w.life job.id).dispatchedFor? = some due ∧ due ≤ a.startedAt ∧
    a.startedAt ≤ now
  started : ∀ u, w'.scheduler.task? job.id = some u → u.lastExecution = some a.startedAt
  retried : a.outcome ≠ .success → ∀ u, w'.scheduler.task? job.id = some u → u.status = .scheduled →
    ∃ due, u.nextExecution = some due ∧
      (w'.life job.id).dueTimes = (w.life job.id).dueTimes ++ [due] ∧
      due.nanos = min (now.nanos + w.scheduler.config.retryDelay.total) Instant.last.nanos
  recurred : a.outcome = .success → ∀ u, w'.scheduler.task? job.id = some u →
    u.status = .scheduled → ∃ due, u.nextExecution = some due ∧
      (w'.life job.id).dueTimes = (w.life job.id).dueTimes ++ [due] ∧
      now < due ∧ ∀ earlier ∈ (w.life job.id).dueTimes, earlier < due

namespace Clocked

variable {c c' : Clocked W}

theorem Sound.recorded (hs : c.Sound) {job : Job W} {work : W} {a : Attempt} {now : Instant}
    (h : Step c (some (.finish job work a now)) c') : c.world.Recorded c'.world job a now := by
  obtain ⟨hstarted, hstep⟩ : a.startedAt ≤ now ∧
      World.Step c.world (.finish job work a now) c'.world := by
    cases h with
    | finish hread h =>
      exact ⟨hs.ends _ (hread ▸ List.mem_append_right _ (List.mem_cons_self ..)) _ rfl, h⟩
    | aside hd => cases hd
  have hp := hs.punctual job.id
  obtain ⟨dispatched, hfor, hlast, -, hbegun⟩ :=
    hp.out _ (List.mem_filter.mpr ⟨hstep.mem_of_finish, decide_eq_true rfl⟩)
  have hdispatched := (hbegun _ rfl).1
  have hplans {u : Task W} (hu : c'.world.scheduler.task? job.id = some u)
    (hst : u.status = .scheduled) :
      ∃ due, u.nextExecution = some due ∧
        (c'.world.life job.id).dueTimes = (c.world.life job.id).dueTimes ++ [due] ∧
        (a.outcome = .success → now < due) ∧
        (a.outcome ≠ .success → due = now.add c.world.scheduler.config.retryDelay) := by
    obtain ⟨t, notices, ht, hsettles, hnotices⟩ := hstep.settled hs.world.sound hu
    rcases hsettles.plans (hp.hasSchedule t ht) with ⟨hne, -⟩ | ⟨due, -, hnext, hnew,
      hrecurs, hretries⟩
    · exact absurd hst hne
    · refine ⟨due, hnext, ?_, hrecurs, hretries⟩
      rw [Life.dueTimes, hnotices, List.filterMap_append, hnew]
      rfl
  refine ⟨⟨dispatched, hfor, hdispatched, hstarted⟩, fun u hu => ?_, fun ho u hu hst => ?_,
    fun ho u hu hst => ?_⟩
  · obtain ⟨t, notices, -, hsettles, -⟩ := hstep.settled hs.world.sound hu
    exact hsettles.lastExecution
  · obtain ⟨due, hnext, hdues, -, hretries⟩ := hplans hu hst
    refine ⟨due, hnext, hdues, ?_⟩
    rw [hretries ho]
    exact Instant.nanos_add ..
  · obtain ⟨due, hnext, hdues, hrecurs, -⟩ := hplans hu hst
    have hnow : dispatched ≤ now := Int.le_trans hdispatched hstarted
    refine ⟨due, hnext, hdues, hrecurs ho, fun earlier hearlier => ?_⟩
    exact Int.lt_of_le_of_lt (Int.le_trans (le_of_getLast? hp.sorted hlast earlier hearlier) hnow)
      (hrecurs ho)

end Clocked

end Timetable
