import Timetable.Proofs.LastBatch

/-!
# A stop that joins the clock

The thread of the clock is one of a crew, and it goes round a loop: now and then it takes up a
cycle, in which it publishes what it has claimed and has it delivered. Whoever stops the scheduler
ends the loop and joins its thread: it waits until the cycle is over, however long that takes. A
hook may stop the scheduler too. If the clock then waits for the delivery that called the hook, each
waits for the other for ever.
-/
namespace Timetable

/-- How far the loop of the clock has come. -/
inductive ClockLoop where
  /-- The loop has not been started, and never is where callers tick the scheduler. -/
  | absent
  | ticking
  /-- The loop has been ended; the cycle that is under way is the last one. -/
  | stopped
deriving DecidableEq

/-- A crew whose clock goes round a loop. -/
structure Watch where
  crew : Crew := {}
  loop : ClockLoop := .absent
  /-- The thread that has ended the loop and waits for the last cycle. -/
  joiner : Option Thread := none

namespace Watch

/-- What the thread of the clock may do next, and the crew after it. -/
structure Cycle (w : Watch) (c : Crew) : Prop where
  /-- A cycle is taken up only while the loop goes round. -/
  going : w.loop = .ticking ∨ w.loop = .stopped ∧ w.crew.agenda .clock ≠ []
  /-- Outside of hooks the work of a cycle is done piece by piece. -/
  once : w.crew.outbox.deliverer ≠ some .clock → (w.crew.agenda .clock).head? = some .work →
    (c.agenda .clock).count .work < (w.crew.agenda .clock).count .work

/-- One step of a thread. -/
inductive Step (w : Watch) (me : Thread) : Watch → Prop
  /-- A thread that does not wait for the clock goes on. -/
  | act {c : Crew} (hfree : w.joiner ≠ some me) (hcycle : me = .clock → w.Cycle c)
    (h : Crew.Step w.crew me c) :
    Step w me { w with crew := c }
  | start {rest : List Chore} (hfree : w.joiner ≠ some me) (h : w.crew.agenda me = .work :: rest)
    (hloop : w.loop = .absent) : Step w me { w with loop := .ticking }
  /-- A stop ends the loop, and the thread begins to wait. -/
  | stop {rest : List Chore} (hfree : w.joiner ≠ some me) (h : w.crew.agenda me = .work :: rest)
    (hloop : w.loop = .ticking) (hme : me ≠ .clock) :
    Step w me { w with loop := .stopped, joiner := some me }
  /-- No thread can join itself: a hook that the clock calls ends the loop and panics. -/
  | stopSelf {rest : List Chore} (h : w.crew.agenda me = .work :: rest) (hloop : w.loop = .ticking)
    (hme : me = .clock) (hd : w.crew.outbox.deliverer = some me) :
    Step w me { w with crew := w.crew.give me (Crew.unwind rest), loop := .stopped }
  /-- The last cycle is over, and the thread that waits for it goes on. -/
  | join (h : w.joiner = some me) (hover : w.crew.agenda .clock = []) :
    Step w me { w with joiner := none }

/-- A run of any length, in which the threads take their steps in any order. -/
abbrev Run : Watch → Watch → Prop := Relation.ReflTransGen fun w w' => ∃ u, Step w u w'

/-- What a watch can get into that has done nothing yet. -/
def Reachable (w : Watch) : Prop := Run {} w

/-- Two threads wait for each other: one delivers and has stopped the scheduler in one of its hooks,
and the clock wants notices delivered. -/
structure Deadlocked (w : Watch) (t : Thread) : Prop where
  delivers : w.crew.outbox.deliverer = some t
  joins : w.joiner = some t
  waits : ∃ target rest, w.crew.agenda .clock = .errand (.reach target) :: rest ∧
    w.crew.outbox.delivered < target

variable {w w' : Watch} {c : Crew} {t u : Thread}

/-- The loop and the stop come on top of what the crew does. -/
theorem Step.crew (h : Step w u w') : w'.crew = w.crew ∨ Crew.Step w.crew u w'.crew := by
  cases h with
  | act _ _ h => exact .inr h
  | stopSelf h => exact .inr (.panic h)
  | start | stop | join => exact .inl rfl

/-- A thread that waits for the clock stays where it is in its work, and the clock takes up cycles
only in its loop. -/
structure Sound (w : Watch) : Prop where
  crew : w.crew.Sound
  joins : ∀ u, w.joiner = some u → u ≠ .clock ∧ w.loop = .stopped ∧ ∃ rest,
    w.crew.agenda u = .work :: rest
  idle : w.loop = .absent → w.crew.agenda .clock = []

theorem Step.sound (h : Step w u w') (hs : w.Sound) : w'.Sound := by
  have hcrew : w'.crew.Sound := by
    rcases h.crew with heq | h
    · exact heq ▸ hs.crew
    · exact h.sound hs.crew
  cases h with
  | act hfree hcycle h =>
    refine ⟨hcrew, fun v hv => ?_, fun hloop => ?_⟩
    · have hne : v ≠ u := fun heq => hfree (heq ▸ hv)
      exact h.agenda_of_ne hne ▸ hs.joins v hv
    · have hne : Thread.clock ≠ u := fun heq => by
        rcases (hcycle heq.symm).going with hgoing | ⟨hgoing, -⟩ <;>
          exact nomatch hgoing.symm.trans hloop
      exact (h.agenda_of_ne hne).trans (hs.idle hloop)
  | start _ _ hloop =>
    refine ⟨hcrew, fun v hv => ?_, fun hloop => by cases hloop⟩
    have hstopped := (hs.joins v hv).2.1
    rw [hloop] at hstopped
    cases hstopped
  | stop _ h _ hme =>
    refine ⟨hcrew, fun v hv => ?_, fun hloop => by cases hloop⟩
    obtain rfl := Option.some.inj hv
    exact ⟨hme, rfl, _, h⟩
  | stopSelf _ hloop =>
    refine ⟨hcrew, fun v hv => ?_, fun hloop => by cases hloop⟩
    have hstopped := (hs.joins v hv).2.1
    rw [hloop] at hstopped
    cases hstopped
  | join => exact ⟨hcrew, fun v hv => (by cases hv), hs.idle⟩

theorem Run.sound (run : Run w w') (hs : w.Sound) : w'.Sound := by
  induction run with
  | refl => exact hs
  | tail _ h ih =>
    obtain ⟨u, h⟩ := h
    exact h.sound ih

theorem Reachable.sound (hw : w.Reachable) : w.Sound :=
  Run.sound hw ⟨Crew.Reachable.sound .refl, fun _ hu => (by cases hu), fun _ => rfl⟩

/-! ## Deadlock -/

/-- A clock that waits for the delivery of a thread is held up. -/
theorem not_step_of_reach {target : Nat} {rest : List Chore} (hd : w.crew.outbox.deliverer = some t)
    (ht : t ≠ .clock) (h : w.crew.agenda .clock = .errand (.reach target) :: rest)
    (htarget : w.crew.outbox.delivered < target) :
    ¬ Crew.Step w.crew .clock c := by
  intro hstep
  obtain ⟨o, errands, ho, -⟩ := hstep.of_errand h (by simp)
  rcases Outbox.run?_reach_eq_some ho with ⟨-, -, hdone | hmine⟩ | ⟨-, -, hnone⟩
  · exact absurd hdone (Nat.not_le.mpr htarget)
  · exact ht (Option.some.inj (hd.symm.trans hmine))
  · rw [hd] at hnone
    cases hnone

/-- Whatever the other threads do, the two wait for ever. -/
theorem Step.deadlocked (h : Step w u w') (hs : w.Sound) (hdead : w.Deadlocked t) :
    w'.Deadlocked t := by
  obtain ⟨ht, hstopped, -⟩ := hs.joins t hdead.joins
  obtain ⟨target, rest, hclock, htarget⟩ := hdead.waits
  cases h with
  | act hfree _ h =>
    have hne : u ≠ t := fun heq => hfree (heq ▸ hdead.joins)
    have hothers : Thread.clock ≠ u := fun heq =>
      not_step_of_reach hdead.delivers ht hclock htarget (heq ▸ h)
    have hsame := h.undisturbed hne hs.crew hdead.delivers
    exact ⟨hsame.deliverer.trans hdead.delivers, hdead.joins, target, rest,
      (h.agenda_of_ne hothers).trans hclock, hsame.delivered.symm ▸ htarget⟩
  | start _ _ hloop | stop _ _ hloop | stopSelf _ hloop =>
    rw [hloop] at hstopped
    cases hstopped
  | join _ hover =>
    rw [hclock] at hover
    cases hover

theorem Run.deadlocked (run : Run w w') (hs : w.Sound) (hdead : w.Deadlocked t) :
    w'.Deadlocked t := by
  induction run with
  | refl => exact hdead
  | tail run h ih =>
    obtain ⟨u, h⟩ := h
    exact h.deadlocked (Run.sound run hs) ih

/-! ## Threads that can go on -/
/-- The thread is in the middle of something and not held up. -/
def CanGoOn (w : Watch) (u : Thread) : Prop :=
  (w.crew.agenda u ≠ [] ∨ w.joiner = some u) ∧ ∃ w', Step w u w'

/-- A thread that delivers is held up by nothing but its own stop. -/
theorem Sound.canGoOn (hs : w.Sound) (hd : w.crew.outbox.deliverer = some t)
    (hfree : w.joiner ≠ some t) :
    w.CanGoOn t := by
  have hbusy := hs.crew.agenda_ne_nil hd
  obtain ⟨c, h⟩ := hs.crew.exists_step hd
  refine ⟨.inl hbusy, _, .act hfree (fun heq => ?_) h⟩
  subst heq
  refine ⟨?_, fun hnot => absurd hd hnot⟩
  cases hloop : w.loop with
  | absent => exact absurd (hs.idle hloop) hbusy
  | ticking => exact .inl rfl
  | stopped => exact .inr ⟨rfl, hbusy⟩

/-- A clock whose last cycle is under way while another thread delivers can go on, unless it waits
for that delivery. -/
theorem Sound.clock_canGoOn (hs : w.Sound) (hd : w.crew.outbox.deliverer = some t)
    (hjoins : w.joiner = some t)
    (hdead : ¬ w.Deadlocked t) (hbusy : w.crew.agenda .clock ≠ []) : w.CanGoOn .clock := by
  obtain ⟨ht, hstopped, -⟩ := hs.joins t hjoins
  have hfree : w.joiner ≠ some .clock := fun heq => ht (Option.some.inj (hjoins.symm.trans heq))
  have hgoing : w.loop = .ticking ∨ w.loop = .stopped ∧ w.crew.agenda .clock ≠ [] :=
    .inr ⟨hstopped, hbusy⟩
  have hother : w.crew.outbox.deliverer ≠ some .clock :=
    fun heq => ht (Option.some.inj (hd.symm.trans heq))
  obtain ⟨x, l, hagenda⟩ := List.exists_cons_of_ne_nil hbusy
  have hx := (hs.crew.idle .clock hother).plain x (hagenda ▸ List.mem_cons_self ..)
  refine ⟨.inl hbusy, ?_⟩
  rcases hx with rfl | rfl | ⟨target, rfl⟩
  · refine ⟨_, .act hfree (fun _ => ⟨hgoing, fun _ _ => ?_⟩) (.work hagenda 0)⟩
    simp [hagenda]
  · refine ⟨_, .act hfree (fun _ => ⟨hgoing, fun _ hwork => ?_⟩) (.errand hagenda (by simp) rfl)⟩
    simp [hagenda] at hwork
  · have htarget : target ≤ w.crew.outbox.delivered :=
      Nat.not_lt.mp fun hlt => hdead ⟨hd, hjoins, target, l, hagenda, hlt⟩
    have ho : w.crew.outbox.run? .clock (.reach target) = some (w.crew.outbox, []) := by
      simp [Outbox.run?, Outbox.turn, htarget]
    refine ⟨_, .act hfree (fun _ => ⟨hgoing, fun _ hwork => ?_⟩) (.errand hagenda (by simp) ho)⟩
    simp [hagenda] at hwork

/-- Neither of two threads that are deadlocked can go on. -/
theorem Deadlocked.not_canGoOn (hdead : w.Deadlocked t) (hs : w.Sound) :
    ¬ w.CanGoOn t ∧ ¬ w.CanGoOn .clock := by
  obtain ⟨ht, hstopped, -⟩ := hs.joins t hdead.joins
  obtain ⟨target, rest, hclock, htarget⟩ := hdead.waits
  constructor
  · rintro ⟨-, w', h⟩
    cases h with
    | act hfree | start hfree | stop hfree => exact hfree hdead.joins
    | stopSelf _ hloop =>
      rw [hstopped] at hloop
      cases hloop
    | join _ hover =>
      rw [hclock] at hover
      cases hover
  · rintro ⟨-, w', h⟩
    cases h with
    | act _ _ h => exact not_step_of_reach hdead.delivers ht hclock htarget h
    | start _ h | stop _ h | stopSelf h => cases hclock.symm.trans h
    | join h => exact ht (Option.some.inj (hdead.joins.symm.trans h))

/-- How many steps a chore of a cycle takes: a section, the call for delivery after it and the
wait for it. -/
def patience : Chore → Nat
  | .work => 3
  | .errand .deliver => 2
  | .errand (.reach _) => 1
  | _ => 0

/-- How many steps are left of the cycle that is under way. -/
def cycleLeft (c : Crew) : Nat := ((c.agenda .clock).map patience).sum

/-- While another thread delivers each step of the clock brings its cycle nearer to the end. -/
theorem Cycle.left_lt (hcycle : w.Cycle c) (h : Crew.Step w.crew .clock c) (hs : w.Sound)
    (hd : w.crew.outbox.deliverer = some t) (ht : t ≠ .clock) (hstopped : w.loop = .stopped) :
    cycleLeft c < cycleLeft w.crew := by
  have hother : w.crew.outbox.deliverer ≠ some .clock :=
    fun heq => ht (Option.some.inj (hd.symm.trans heq))
  have hidle := hs.crew.idle .clock hother
  have honce := hcycle.once hother
  unfold cycleLeft
  cases h with
  | takeUp h =>
    rcases hcycle.going with hgoing | ⟨-, hbusy⟩
    · rw [hgoing] at hstopped
      cases hstopped
    · exact absurd h hbusy
  | @work rest h more =>
    have hless : more + rest.count .work < rest.count .work + 1 := by simpa [h] using honce
    obtain rfl : more = 0 := by omega
    simp [h, patience]
  | @publish rest h notices more =>
    have hless : more + rest.count .work < rest.count .work + 1 := by
      simpa [h, Crew.give] using honce
    obtain rfl : more = 0 := by omega
    simp [h, Crew.give, patience]
  | @panic rest h =>
    obtain ⟨dropped, hrest⟩ := Crew.unwind_suffix rest
    rw [Crew.give_agenda, h]
    generalize Crew.unwind rest = left at hrest ⊢
    subst hrest
    simp [patience]
    omega
  | hook h | caught h | announce h =>
    rw [h] at hidle
    have hplain := hidle.plain _ List.mem_cons_self
    simp at hplain
  | @errand e l o errands h hquiet ho =>
    rw [h] at hidle
    have hplain := hidle.plain _ List.mem_cons_self
    cases e with
    | deliver =>
      cases ho
      simp [h, patience]
    | reach target =>
      obtain ⟨rfl, rfl⟩ := Outbox.run?_reach_of_deliverer ho hd
      simp [h, patience]
    | drain | announce | credit => simp at hplain

end Watch

end Timetable
