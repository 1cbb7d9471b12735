import Mathlib.Data.Set.Finite.Lattice
import Mathlib.Order.WellFounded
import Timetable.Proofs.Watch

/-!
# When a delivery ends

A run without end, in which no thread that can go on is passed over for ever. A thread that delivers
in it takes its last batch at some time, unless hooks call the scheduler without end, or a hook
works for ever, or other threads publish without end, or the thread is deadlocked: one of its hooks
has stopped the scheduler and waits for the clock, which waits for this delivery. Then everything
published is announced, and whoever publishes next delivers.
-/
namespace Timetable

namespace Watch

/-- A run without end that is fair. Nobody need move at a time. -/
structure Vigil (w : Watch) where
  state : Nat → Watch
  mover : Nat → Option Thread
  begins : state 0 = w
  moves : ∀ k u, mover k = some u → Step (state k) u (state (k + 1))
  rests : ∀ k, mover k = none → state (k + 1) = state k
  /-- Who can go on for ever does so at some time. -/
  fair : ∀ u k, (∀ j ≥ k, (state j).CanGoOn u) → ∃ j ≥ k, mover j = some u

/-- What gets less again and again gets more at some time. -/
theorem not_antitone_of_forall_exists_lt {α : Type} [LinearOrder α] [WellFoundedLT α] {f : Nat → α}
    (h : ∀ k, ∃ j ≥ k, f (j + 1) < f j) : ¬ Antitone f := by
  intro hf
  obtain ⟨j, hj, hless⟩ := h (Function.argmin f)
  exact Function.not_lt_argmin f (j + 1) (hless.trans_le (hf hj))

namespace Vigil

variable {w w' : Watch} {t : Thread}

section Runs

variable (s : Vigil w)

/-- The delivery of the thread is not over after so many steps. -/
def Lasts (t : Thread) (k : Nat) : Prop := ∀ j ≤ k, (s.state j).crew.outbox.deliverer = some t

/-- The next step is the work of a hook that the thread has called. -/
def HookWorks (t : Thread) (k : Nat) : Prop :=
  s.mover k = some t ∧ ((s.state k).crew.agenda t).head? = some .work

/-- The next step is a call that a hook makes, which publishes any notices and has
them delivered. -/
def HookCalls (t : Thread) (k : Nat) : Prop :=
  s.HookWorks t k ∧ ((s.state (k + 1)).crew.agenda t).head? = some (.errand .deliver)

/-- No hook works for ever. -/
def HooksEnd (t : Thread) : Prop :=
  ∀ k, (∀ j ≥ k, s.Lasts t j ∧ (s.mover j = some t → s.HookWorks t j)) → ∃ m ≥ k, ∀ j ≥ m,
    s.mover j ≠ some t

/-- Another thread publishes something in the next step. -/
def OthersPublish (t : Thread) (k : Nat) : Prop :=
  s.mover k ≠ some t ∧ (s.state (k + 1)).crew.published ≠ (s.state k).crew.published

/-- The delivery of the thread comes to its end. -/
def Ends (t : Thread) : Prop :=
  ∃ k, (∀ j < k, (s.state j).crew.outbox.deliverer = some t) ∧
    Crew.Cleared (s.state k).crew t (Crew.below (w.crew.agenda t))

end Runs

variable {s : Vigil w}

theorem run_succ (s : Vigil w) (k : Nat) : Run (s.state k) (s.state (k + 1)) := by
  cases hmover : s.mover k with
  | none => exact s.rests k hmover ▸ .refl
  | some u => exact .single ⟨u, s.moves k u hmover⟩

theorem run_of_le (s : Vigil w) {j k : Nat} (h : j ≤ k) : Run (s.state j) (s.state k) := by
  induction h with
  | refl => exact .refl
  | step _ ih => exact ih.trans (s.run_succ _)

theorem sound (s : Vigil w) (hs : w.Sound) (k : Nat) : (s.state k).Sound :=
  Run.sound (s.run_of_le (Nat.zero_le k)) (s.begins.symm ▸ hs)

theorem Lasts.of_le {j k : Nat} (h : s.Lasts t k) (hj : j ≤ k) : s.Lasts t j :=
  fun i hi => h i (hi.trans hj)

theorem Lasts.deliverer {k : Nat} (h : s.Lasts t k) : (s.state k).crew.outbox.deliverer = some t :=
  h k le_rfl

/-- What the crew does in a step: nothing, a step of the thread that delivers or one of
another thread. -/
theorem crew_succ (s : Vigil w) (t : Thread) (k : Nat) :
    (s.state (k + 1)).crew = (s.state k).crew ∨
      (s.mover k = some t ∧ Crew.Step (s.state k).crew t (s.state (k + 1)).crew) ∨
      s.mover k ≠ some t ∧ ∃ u, u ≠ t ∧ Crew.Step (s.state k).crew u (s.state (k + 1)).crew := by
  cases hmover : s.mover k with
  | none => exact .inl (congrArg crew (s.rests k hmover))
  | some u =>
    rcases (s.moves k u hmover).crew with heq | h
    · exact .inl heq
    · by_cases hu : u = t
      · exact .inr (.inl ⟨congrArg some hu, hu ▸ h⟩)
      · exact .inr (.inr ⟨fun heq => hu (Option.some.inj heq), u, hu, h⟩)

/-- A delivery goes on with the next step, or it is over. -/
theorem goes_on (s : Vigil w) (hs : w.Sound) {k : Nat}
    (hd : (s.state k).crew.outbox.deliverer = some t) :
    ((s.state (k + 1)).crew.outbox.deliverer = some t ∧
      Crew.below ((s.state (k + 1)).crew.agenda t) = Crew.below ((s.state k).crew.agenda t)) ∨
    Crew.Cleared (s.state (k + 1)).crew t (Crew.below ((s.state k).crew.agenda t)) := by
  have hsound := (s.sound hs k).crew
  rcases s.crew_succ t k with heq | ⟨-, h⟩ | ⟨-, u, hu, h⟩
  · exact .inl ⟨heq ▸ hd, by rw [heq]⟩
  · exact h.goes_on hsound hd
  · have hsame := h.undisturbed hu hsound hd
    exact .inl ⟨hsame.deliverer.trans hd, by rw [hsame.agenda]⟩

theorem Lasts.below (hs : w.Sound) {k : Nat} (h : s.Lasts t k) :
    Crew.below ((s.state k).crew.agenda t) = Crew.below (w.crew.agenda t) := by
  induction k with
  | zero => rw [s.begins]
  | succ k ih =>
    have hlasts := h.of_le k.le_succ
    rcases s.goes_on hs hlasts.deliverer with ⟨-, heq⟩ | hcleared
    · exact heq.trans (ih hlasts)
    · have hnone := hcleared.deliverer
      rw [h.deliverer] at hnone
      cases hnone

/-- The first time at which the thread does not deliver any more its delivery is over. -/
theorem ends_of_exists (hs : w.Sound) (hd : w.crew.outbox.deliverer = some t)
    (hover : ∃ k, (s.state k).crew.outbox.deliverer ≠ some t) : s.Ends t := by
  have hbefore : ∀ j < Nat.find hover, (s.state j).crew.outbox.deliverer = some t := fun j hj =>
    of_not_not (Nat.find_min hover hj)
  have hnot := Nat.find_spec hover
  refine ⟨Nat.find hover, hbefore, ?_⟩
  cases hk : Nat.find hover with
  | zero =>
    rw [hk, s.begins] at hnot
    exact absurd hd hnot
  | succ k =>
    rw [hk] at hnot hbefore
    have hlasts : s.Lasts t k := fun j hj => hbefore j (by omega)
    rcases s.goes_on hs hlasts.deliverer with ⟨hyes, -⟩ | hcleared
    · exact absurd hyes hnot
    · exact hlasts.below hs ▸ hcleared

/-! ## Deliveries that last for ever -/

/-- A thread that does not move keeps what it has to do. -/
theorem agenda_succ (s : Vigil w) {u : Thread} {k : Nat} (h : s.mover k ≠ some u) :
    (s.state (k + 1)).crew.agenda u = (s.state k).crew.agenda u := by
  rcases s.crew_succ u k with heq | ⟨hu, -⟩ | ⟨-, v, hv, hstep⟩
  · rw [heq]
  · exact absurd hu h
  · exact hstep.agenda_of_ne (Ne.symm hv)

/-- Nobody else makes a thread wait for the clock. -/
theorem joiner_succ_ne {k : Nat} (hmover : s.mover k ≠ some t)
    (hfree : (s.state k).joiner ≠ some t) : (s.state (k + 1)).joiner ≠ some t := by
  intro hjoins
  cases hk : s.mover k with
  | none => exact hfree (s.rests k hk ▸ hjoins)
  | some u =>
    have hne : u ≠ t := fun heq => hmover (heq ▸ hk)
    have hstep := s.moves k u hk
    generalize s.state (k + 1) = next at hstep hjoins
    cases hstep with
    | stop => exact hne (Option.some.inj hjoins)
    | join => cases hjoins
    | act | start | stopSelf => exact hfree hjoins

section Forever

variable (hs : w.Sound) (hlasts : ∀ k, s.Lasts t k)

include hs hlasts

/-- A thread that delivers for ever and does not move waits for the clock. -/
theorem joins_of_forever {k : Nat} (hstill : ∀ j ≥ k, s.mover j ≠ some t) :
    ∀ j ≥ k, (s.state j).joiner = some t := by
  by_contra hnot
  push Not at hnot
  obtain ⟨j, hj, hfree⟩ := hnot
  have hnever : ∀ i ≥ j, (s.state i).joiner ≠ some t := by
    intro i hi
    induction hi with
    | refl => exact hfree
    | @step i hi ih => exact joiner_succ_ne (hstill i (hj.trans hi)) ih
  obtain ⟨i, hi, hmover⟩ :=
    s.fair t j fun i hi => (s.sound hs i).canGoOn (hlasts i).deliverer (hnever i hi)
  exact hstill i (hj.trans hi) hmover

/-- A step of the clock that a thread waits for brings it nearer to the end of its cycle. -/
theorem cycleLeft_lt {k : Nat} (hjoins : (s.state k).joiner = some t)
    (hmover : s.mover k = some .clock) :
    cycleLeft (s.state (k + 1)).crew < cycleLeft (s.state k).crew := by
  have hsound := s.sound hs k
  obtain ⟨ht, hstopped, -⟩ := hsound.joins t hjoins
  have hstep := s.moves k .clock hmover
  generalize s.state (k + 1) = next at hstep
  cases hstep with
  | act _ hcycle h => exact (hcycle rfl).left_lt h hsound (hlasts k).deliverer ht hstopped
  | start _ _ hloop | stop _ _ hloop | stopSelf _ hloop =>
    rw [hstopped] at hloop
    cases hloop
  | join h => exact absurd (Option.some.inj (hjoins.symm.trans h)) ht

/-- The clock that a thread waits for gets through its cycle, unless the two are deadlocked. -/
theorem exists_clock_done {k : Nat} (hdead : ∀ k, ¬ (s.state k).Deadlocked t)
    (hjoins : ∀ j ≥ k, (s.state j).joiner = some t) :
    ∃ j ≥ k, (s.state j).crew.agenda .clock = [] := by
  by_contra hbusy
  push Not at hbusy
  let left (j : Nat) := cycleLeft (s.state (k + j)).crew
  have hless (j : Nat) (hmover : s.mover (k + j) = some .clock) : left (j + 1) < left j :=
    cycleLeft_lt hs hlasts (hjoins (k + j) (by omega)) hmover
  refine not_antitone_of_forall_exists_lt (f := left) (fun j => ?_)
    (antitone_nat_of_succ_le fun j => ?_)
  · obtain ⟨i, hi, hmover⟩ := s.fair .clock (k + j) fun i hi =>
      (s.sound hs i).clock_canGoOn (hlasts i).deliverer (hjoins i (by omega)) (hdead i)
        (hbusy i (by omega))
    obtain ⟨i, rfl⟩ := Nat.exists_eq_add_of_le hi
    rw [Nat.add_assoc] at hmover
    exact ⟨j + i, by omega, hless (j + i) hmover⟩
  · by_cases hmover : s.mover (k + j) = some .clock
    · exact (hless j hmover).le
    · exact (congrArg (fun l => (l.map patience).sum) (s.agenda_succ hmover)).le

/-- A clock that is through with its cycle does not begin another while a thread waits for it. -/
theorem clock_stays_done {k : Nat} (hjoins : ∀ j ≥ k, (s.state j).joiner = some t)
    (hdone : (s.state k).crew.agenda .clock = []) :
    ∀ j ≥ k, (s.state j).crew.agenda .clock = [] := by
  intro j hj
  induction hj with
  | refl => exact hdone
  | @step j hj ih =>
    by_cases hmover : s.mover j = some .clock
    · have hless := cycleLeft_lt hs hlasts (hjoins j hj) hmover
      simp [cycleLeft, ih] at hless
    · exact (s.agenda_succ hmover).trans ih

/-- A thread that delivers for ever and is never deadlocked moves again and again. -/
theorem exists_mover (hdead : ∀ k, ¬ (s.state k).Deadlocked t) (k : Nat) :
    ∃ j ≥ k, s.mover j = some t := by
  by_contra hstill
  push Not at hstill
  have hjoins := joins_of_forever hs hlasts hstill
  obtain ⟨j, hj, hdone⟩ := exists_clock_done hs hlasts hdead hjoins
  have hover := clock_stays_done hs hlasts (fun i hi => hjoins i (hj.trans hi)) hdone
  obtain ⟨i, hi, hmover⟩ := s.fair t j fun i hi =>
    ⟨.inr (hjoins i (hj.trans hi)), _, .join (hjoins i (hj.trans hi)) (hover i hi)⟩
  exact hstill i (hj.trans hi) hmover

/-- Nothing is added to what is left of the delivery unless a hook calls or somebody else
publishes. -/
theorem remaining_succ_le {k : Nat} (hcall : ¬ s.HookCalls t k) (hother : ¬ s.OthersPublish t k) :
    (s.state (k + 1)).crew.remaining t ≤ (s.state k).crew.remaining t := by
  have hsound := (s.sound hs k).crew
  rcases s.crew_succ t k with heq | ⟨hmover, h⟩ | ⟨hmover, u, hu, h⟩
  · rw [heq]
  · by_cases hwork : ((s.state k).crew.agenda t).head? = some .work
    · exact h.remaining_le hwork fun hdeliver => hcall ⟨⟨hmover, hwork⟩, hdeliver⟩
    · exact (h.remaining_lt hsound (hlasts k).deliverer hwork (hlasts (k + 1)).deliverer).le
  · have hpublished := of_not_not fun hne => hother ⟨hmover, hne⟩
    exact ((h.undisturbed hu hsound (hlasts k).deliverer).remaining hpublished).le

/-- Whatever the thread does but the work of a hook, less is left of the delivery after it. -/
theorem remaining_succ_lt {k : Nat} (hmover : s.mover k = some t) (hwork : ¬ s.HookWorks t k) :
    (s.state (k + 1)).crew.remaining t < (s.state k).crew.remaining t := by
  have hwork : ((s.state k).crew.agenda t).head? ≠ some .work := fun h => hwork ⟨hmover, h⟩
  have hsound := s.sound hs k
  have hstep := s.moves k t hmover
  have hd := (hlasts k).deliverer
  have hd' := (hlasts (k + 1)).deliverer
  generalize s.state (k + 1) = next at hstep hd'
  cases hstep with
  | act _ _ h => exact h.remaining_lt hsound.crew hd hwork hd'
  | start _ h | stop _ h | stopSelf h => simp [h] at hwork
  | join h =>
    obtain ⟨-, -, rest, hagenda⟩ := hsound.joins t h
    simp [hagenda] at hwork

/-- No delivery lasts for ever in which every hook ends, hooks call and other threads publish only
so often, and the thread is never deadlocked. -/
theorem false_of_forever (hcalls : {k | s.Lasts t k ∧ s.HookCalls t k}.Finite) (hend : s.HooksEnd t)
    (hothers : {k | s.Lasts t k ∧ s.OthersPublish t k}.Finite)
    (hdead : ∀ k, ¬ (s.state k).Deadlocked t) :
    False := by
  obtain ⟨last, hlast⟩ := (hcalls.union hothers).bddAbove
  have hcall (k : Nat) (hk : last < k) : ¬ s.HookCalls t k := fun h =>
    Nat.not_le.mpr hk (hlast (.inl ⟨hlasts k, h⟩))
  have hother (k : Nat) (hk : last < k) : ¬ s.OthersPublish t k := fun h =>
    Nat.not_le.mpr hk (hlast (.inr ⟨hlasts k, h⟩))
  -- after the last of these times less and less is left, as no hook works for ever
  have hmoves (k : Nat) : ∃ j ≥ k, s.mover j = some t ∧ ¬ s.HookWorks t j := by
    by_contra hnot
    push Not at hnot
    obtain ⟨m, -, hm⟩ := hend k fun j hj => ⟨hlasts j, hnot j hj⟩
    obtain ⟨j, hj, hmover⟩ := exists_mover hs hlasts hdead m
    exact hm j hj hmover
  let left (k : Nat) := (s.state (last + 1 + k)).crew.remaining t
  refine not_antitone_of_forall_exists_lt (f := left) (fun k => ?_)
    (antitone_nat_of_succ_le fun k => ?_)
  · obtain ⟨j, hj, hmover, hwork⟩ := hmoves (last + 1 + k)
    obtain ⟨j, rfl⟩ := Nat.exists_eq_add_of_le hj
    rw [Nat.add_assoc] at hmover hwork
    exact ⟨k + j, by omega, remaining_succ_lt hs hlasts hmover hwork⟩
  · exact remaining_succ_le hs hlasts (hcall (last + 1 + k) (by omega))
      (hother (last + 1 + k) (by omega))

end Forever

/-- A delivery that is over has lasted only so long. -/
theorem Ends.finite (h : s.Ends t) : {k | s.Lasts t k}.Finite := by
  obtain ⟨k, -, hcleared⟩ := h
  refine (Set.finite_lt_nat k).subset fun j hj => Nat.not_le.mp fun hle => ?_
  have hd := hj k hle
  rw [hcleared.deliverer] at hd
  cases hd

end Vigil

variable {w w' : Watch} {t : Thread}

/-- A thread that delivers comes to the end of its delivery exactly if its hooks call the scheduler
and other threads publish only so often, no hook works for ever, and the thread is never deadlocked
with the clock. -/
theorem Reachable.delivery_ends_iff (hw : w.Reachable) (hd : w.crew.outbox.deliverer = some t)
    (s : Vigil w) :
    s.Ends t ↔ {k | s.Lasts t k ∧ s.HookCalls t k}.Finite ∧ s.HooksEnd t ∧
      {k | s.Lasts t k ∧ s.OthersPublish t k}.Finite ∧
      ∀ k, s.Lasts t k → ¬ (s.state k).Deadlocked t := by
  have hs := hw.sound
  constructor
  · intro hends
    have hfinite := hends.finite
    obtain ⟨k, -, hcleared⟩ := hends
    have hover (j : Nat) (hj : k ≤ j) : ¬ s.Lasts t j := fun hlasts => by
      have hd := hlasts k hj
      rw [hcleared.deliverer] at hd
      cases hd
    refine ⟨hfinite.subset fun _ h => h.1, fun j h => ?_, hfinite.subset fun _ h => h.1,
      fun j hlasts hdead => ?_⟩
    · exact absurd (h (max j k) (le_max_left ..)).1 (hover _ (le_max_right ..))
    · have hjk : j ≤ k := Nat.le_of_not_le fun hkj => hover j hkj hlasts
      have hd := (Run.deadlocked (s.run_of_le hjk) (s.sound hs j) hdead).delivers
      rw [hcleared.deliverer] at hd
      cases hd
  · rintro ⟨hcalls, hend, hothers, hdead⟩
    by_contra hnot
    have hlasts (k : Nat) : s.Lasts t k :=
      fun j _ => of_not_not fun hj => hnot (Vigil.ends_of_exists hs hd ⟨j, hj⟩)
    exact Vigil.false_of_forever hs hlasts hcalls hend hothers fun k => hdead k (hlasts k)

/-! ## Runs that come to rest -/

/-- Nothing moves any more. -/
def Vigil.RestsIn (s : Vigil w) (k : Nat) (w' : Watch) : Prop :=
  ∀ j ≥ k, s.state j = w' ∧ s.mover j = none

/-- A run that leads through such states. -/
abbrev RunIn (P : Watch → Prop) : Watch → Watch → Prop :=
  Relation.ReflTransGen fun w w' => P w ∧ ∃ u, Step w u w'

theorem RunIn.run {P : Watch → Prop} (run : RunIn P w w') : Run w w' :=
  Relation.ReflTransGen.mono (fun _ _ h => h.2) _ _ run

/-- A run that leads to where no thread can go on is fair if nothing moves after it. -/
theorem exists_vigil {P : Watch → Prop} (run : RunIn P w w') (hlast : P w')
    (hrest : ∀ u, ¬ w'.CanGoOn u) :
    ∃ (s : Vigil w) (k : Nat), s.RestsIn k w' ∧ ∀ j, P (s.state j) := by
  induction run using Relation.ReflTransGen.head_induction_on with
  | refl =>
    have fair (u : Thread) (k : Nat) (h : ∀ j ≥ k, w'.CanGoOn u) : ∃ j ≥ k, none = some u :=
      absurd (h k le_rfl) (hrest u)
    exact ⟨⟨fun _ => w', fun _ => none, rfl, fun _ _ h => (by cases h), fun _ _ => rfl, fair⟩, 0,
      fun _ _ => ⟨rfl, rfl⟩, fun _ => hlast⟩
  | @head w _ hstep _ ih =>
    obtain ⟨hP, u, hstep⟩ := hstep
    obtain ⟨s, k, hs, hall⟩ := ih
    let state : Nat → Watch := fun j => j.casesOn w s.state
    let mover : Nat → Option Thread := fun j => j.casesOn (some u) s.mover
    refine ⟨⟨state, mover, rfl, fun j v hv => ?_, fun j hj => ?_, fun v j h => ?_⟩,
      k + 1, fun j hj => ?_, fun j => ?_⟩
    · cases j with
      | zero =>
        obtain rfl := Option.some.inj hv
        have hfirst : Step w u (s.state 0) := s.begins.symm ▸ hstep
        exact hfirst
      | succ j => exact s.moves j v hv
    · cases j with
      | zero => cases hj
      | succ j => exact s.rests j hj
    · have hgoes : (s.state (j + k)).CanGoOn v := h (j + k + 1) (by omega)
      rw [(hs (j + k) (by omega)).1] at hgoes
      exact absurd hgoes (hrest v)
    · obtain ⟨j, rfl⟩ := Nat.exists_eq_add_of_le' hj
      exact hs (j + k) (by omega)
    · cases j with
      | zero => exact hP
      | succ j => exact hall j

/-- In a run that comes to rest nobody works or publishes without end. -/
theorem Vigil.RestsIn.limits {s : Vigil w} {k : Nat} (h : s.RestsIn k w') :
    {k | s.Lasts t k ∧ s.HookCalls t k}.Finite ∧ s.HooksEnd t ∧
    {k | s.Lasts t k ∧ s.OthersPublish t k}.Finite := by
  have hstill {j : Nat} (hj : k ≤ j) : s.mover j ≠ some t := fun hmover => by
    rw [(h j hj).2] at hmover
    cases hmover
  refine ⟨(Set.finite_lt_nat k).subset fun j hj => Nat.not_le.mp fun hle => hstill hle hj.2.1.1,
    fun j _ => ⟨max j k, le_max_left .., fun i hi => hstill ((le_max_right j k).trans hi)⟩,
    (Set.finite_lt_nat k).subset fun j hj => Nat.not_le.mp fun hle => hj.2.2 ?_⟩
  rw [(h j hle).1, (h (j + 1) (by omega)).1]

/-- The first caller goes on. -/
theorem RunIn.caller {P : Watch → Prop} {c c' : Crew} {loop : ClockLoop}
    (run : RunIn P w ⟨c, loop, none⟩) (hP : P ⟨c, loop, none⟩)
    (h : Crew.Step c (.caller 0) c') : RunIn P w ⟨c', loop, none⟩ :=
  run.tail ⟨hP, .caller 0, .act (by simp) (by simp) h⟩

/-- A caller has started the scheduler and begun to deliver a notice. -/
def sample : Watch where
  crew := { (Crew.sample.give (.caller 0) [.errand (.reach 1)]).give (.caller 0)
    [.errand .drain] with
    outbox := Crew.sample.outbox.stepUp (.caller 0) }
  loop := .ticking

theorem reachable_sample : sample.Reachable := by
  have works : Run {} ⟨_, .absent, none⟩ :=
    .single ⟨.caller 0, .act (by simp) (by simp) (.takeUp rfl)⟩
  have starts : Run {} ⟨_, .ticking, none⟩ := works.tail ⟨.caller 0, .start (by simp) rfl rfl⟩
  have publishes : Run {} ⟨_, .ticking, none⟩ :=
    starts.tail ⟨.caller 0, .act (by simp) (by simp) (.publish rfl Crew.sample.published 0)⟩
  have waits : Run {} ⟨_, .ticking, none⟩ :=
    publishes.tail ⟨.caller 0, .act (by simp) (by simp) (.errand (e := .deliver) rfl (by simp) rfl)⟩
  have delivers : Run {} ⟨_, .ticking, none⟩ :=
    waits.tail ⟨.caller 0, .act (by simp) (by simp) (.errand (e := .reach 1) rfl (by simp) rfl)⟩
  exact delivers

/-- A hook publishes another notice, stops the scheduler while no cycle of the clock is under way,
and panics. The delivery announces that notice too, in a second batch, and is over. -/
theorem delivery_ends_after_stop : ∃ s : Vigil sample, sample.Reachable ∧
    sample.crew.outbox.deliverer = some (.caller 0) ∧ (∃ k, (s.state k).crew.published.length = 2) ∧
    (∃ k, (s.state k).loop = .stopped) ∧ s.Ends (.caller 0) := by
  have takes : RunIn (fun _ => True) sample ⟨_, .ticking, none⟩ :=
    RunIn.caller .refl trivial (.errand (e := .drain) rfl (by simp) rfl)
  have announces := takes.caller trivial (.announce rfl 1)
  have calls := announces.caller trivial (.hook rfl 1)
  have publishes := calls.caller trivial (.publish rfl Crew.sample.published 1)
  have asks := publishes.caller trivial (.errand (e := .deliver) rfl (by simp) rfl)
  have returns := asks.caller trivial (.errand (e := .reach 2) rfl (by simp) rfl)
  have stops : RunIn (fun _ => True) sample ⟨_, .stopped, some (.caller 0)⟩ :=
    returns.tail ⟨trivial, .caller 0, .stop (by simp) rfl rfl (by simp)⟩
  have joins : RunIn (fun _ => True) sample ⟨_, .stopped, none⟩ :=
    stops.tail ⟨trivial, .caller 0, .join rfl rfl⟩
  have panics := joins.caller trivial (.panic rfl)
  have credits := panics.caller trivial (.errand (e := .credit 1) rfl (by simp) rfl)
  have takesMore := credits.caller trivial (.errand (e := .drain) rfl (by simp) rfl)
  have announcesMore := takesMore.caller trivial (.announce rfl 0)
  have creditsMore := announcesMore.caller trivial (.errand (e := .credit 1) rfl (by simp) rfl)
  have stepsDown := creditsMore.caller trivial (.errand (e := .drain) rfl (by simp) rfl)
  obtain ⟨s, k, hs, -⟩ := exists_vigil stepsDown trivial fun u hu => by
    rcases hu.1 with hbusy | hjoins
    · exact hbusy (by simp [Crew.give, Crew.sample])
    · cases hjoins
  obtain ⟨hcalls, hend, hothers⟩ := hs.limits (t := .caller 0)
  have hfree (j : Nat) : ¬ (s.state j).Deadlocked (.caller 0) := fun hdead => by
    have hlater := Run.deadlocked (s.run_of_le (le_max_left j k))
      (s.sound reachable_sample.sound j) hdead
    have hjoins := hlater.joins
    rw [(hs _ (le_max_right j k)).1] at hjoins
    cases hjoins
  have hends : s.Ends (.caller 0) :=
    (reachable_sample.delivery_ends_iff rfl s).mpr ⟨hcalls, hend, hothers, fun j _ => hfree j⟩
  exact ⟨s, reachable_sample, rfl, ⟨k, by rw [(hs k le_rfl).1]; rfl⟩,
    ⟨k, by rw [(hs k le_rfl).1]⟩, hends⟩

/-- The clock publishes a notice and waits for the delivery, and then the hook that is being called
stops the scheduler. It is the only call of a hook, and still the delivery does not end. -/
theorem deadlock_by_stop : ∃ s : Vigil sample, sample.Reachable ∧
    sample.crew.outbox.deliverer = some (.caller 0) ∧
    {k | s.Lasts (.caller 0) k ∧ s.HookCalls (.caller 0) k}.Finite ∧ s.HooksEnd (.caller 0) ∧
    {k | s.Lasts (.caller 0) k ∧ s.OthersPublish (.caller 0) k}.Finite ∧
    (∃ k, (s.state k).Deadlocked (.caller 0)) ∧ ¬ s.Ends (.caller 0) := by
  let delivers (w : Watch) : Prop := w.crew.outbox.deliverer = some (.caller 0)
  have takes : RunIn delivers sample ⟨_, .ticking, none⟩ :=
    RunIn.caller .refl rfl (.errand (e := .drain) rfl (by simp) rfl)
  have announces := takes.caller rfl (.announce rfl 1)
  have turns : RunIn delivers sample ⟨_, .ticking, none⟩ :=
    announces.tail ⟨rfl, .clock, .act (by simp) (fun _ => ⟨.inl rfl, fun _ h => (by cases h)⟩)
      (.takeUp rfl)⟩
  have claims : RunIn delivers sample ⟨_, .ticking, none⟩ :=
    turns.tail ⟨rfl, .clock, .act (by simp) (fun _ => ⟨.inl rfl, fun _ _ => (by decide)⟩)
      (.publish rfl Crew.sample.published 0)⟩
  have asks : RunIn delivers sample ⟨_, .ticking, none⟩ :=
    claims.tail ⟨rfl, .clock, .act (by simp) (fun _ => ⟨.inl rfl, fun _ h => (by cases h)⟩)
      (.errand (e := .deliver) rfl (by simp) rfl)⟩
  have calls := asks.caller rfl (.hook rfl 1)
  have stops : RunIn delivers sample ⟨_, .stopped, some (.caller 0)⟩ :=
    calls.tail ⟨rfl, .caller 0, .stop (by simp) rfl rfl (by simp)⟩
  obtain ⟨w, run, hdead, hidle⟩ : ∃ w, RunIn delivers sample w ∧ w.Deadlocked (.caller 0) ∧
      ∀ u, u ≠ .caller 0 → u ≠ .clock → w.crew.agenda u = [] :=
    ⟨_, stops, ⟨rfl, rfl, 2, [], rfl, by decide⟩, fun u h h' =>
      by simp [Crew.give, Crew.sample, h, h']⟩
  have hsound := Run.sound run.run reachable_sample.sound
  obtain ⟨s, k, hs, hall⟩ := exists_vigil run hdead.delivers fun u hu => by
    by_cases hcaller : u = .caller 0
    · exact (hdead.not_canGoOn hsound).1 (hcaller ▸ hu)
    by_cases hclock : u = .clock
    · exact (hdead.not_canGoOn hsound).2 (hclock ▸ hu)
    rcases hu.1 with hbusy | hjoins
    · exact hbusy (hidle u hcaller hclock)
    · exact hcaller (Option.some.inj (hjoins.symm.trans hdead.joins))
  obtain ⟨hcalls, hend, hothers⟩ := hs.limits (t := .caller 0)
  refine ⟨s, reachable_sample, rfl, hcalls, hend, hothers, ⟨k, (hs k le_rfl).1 ▸ hdead⟩, ?_⟩
  rintro ⟨j, -, hcleared⟩
  have hd : (s.state j).crew.outbox.deliverer = some (.caller 0) := hall j
  rw [hcleared.deliverer] at hd
  cases hd

end Watch

end Timetable
