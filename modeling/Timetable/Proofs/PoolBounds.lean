import Timetable.Proofs.Gauges
import Timetable.Proofs.Operations
import Timetable.Proofs.Staffing

/-!
# How many workers a pool has

The number of live workers stays between the sizes of the pool: a place is reserved before a worker
is hired, and given back when the worker has left. When a shutdown has succeeded nobody is left, but
for a worker whose handle came in after the shutdown had taken the handles.
-/
namespace Timetable

variable {J : Type}

namespace Floor

variable {s s' : Floor J} {e : Effect} {c : PoolConfig} {p : Pool J}

/-- What holds on a floor at every moment. -/
structure Sound (s : Floor J) : Prop where
  staged : s.Staged
  counted : s.Counted
  limit : s.counts.live ≤ s.config.maxSize.toNat
  manned : s.Manned
  tended : s.Tended

theorem Sound.opened (h : Pool.create c = .ok p) : (Workshop.opened p).floor.Sound where
  staged := .opened h
  counted := .opened h
  limit := by
    obtain ⟨hsize, hlive, -⟩ := Pool.create_core h
    exact hlive ▸ UInt64.le_iff_toNat_le.mp hsize
  manned := .opened h
  tended := .opened p

theorem Step.sound (h : Step s e s') (hs : s.Sound) : s'.Sound where
  staged := h.staged hs.staged
  counted := h.counted hs.staged hs.counted
  limit := h.live_le hs.limit
  manned := h.manned hs.manned
  tended := h.tended hs.staged hs.tended

theorem Reachable.sound (hs : s.Reachable) : s.Sound :=
  hs.induction (fun _ _ h => .opened h) fun _ _ _ h ih => h.sound ih

/-- The jobs that are being executed. -/
def executing (s : Floor J) : List J :=
  s.hands.filterMap fun w => match w.stance with
    | .executing job => some job
    | _ => none

/-- How many workers a pool has at a moment, and what the next operation can do to them. -/
structure Bounded (c : PoolConfig) (s : Floor J) : Prop where
  most : s.counts.live ≤ c.maxSize.toNat
  least : s.isStopping = false → c.coreSize.toNat ≤ s.counts.live
  /-- A live worker is idle or active, but for those whose thread is between two operations. -/
  shared : s.counts.idle + s.counts.active + s.between = s.counts.live
  still : s.Still → s.counts.idle + s.counts.active = s.counts.live
  executing : s.executing.length ≤ c.maxSize.toNat
  /-- Before a shutdown only surplus workers leave. -/
  surplus : s.isStopping = false → ∀ w ∈ s.hands, w.stance.isLeaving = true → w.role = .surplus
  /-- A worker that stops waiting had no job, and none was there. -/
  resting : ∀ e s', Step s e s' → ∀ w ∈ s'.hands, w.stance.isLeaving = true →
    (∃ v ∈ s.hands, v.number = w.number ∧ v.stance.isLeaving = true) ∨
      (⟨w.number, w.role, .resting⟩ ∈ s.hands ∧ s.waiting = [])
  /-- A worker that is gone had left its wait before. -/
  gone : ∀ e s', Step s e s' → ∀ w ∈ s.hands, ¬ s'.Present w.number → w.stance.isLeaving = true
  /-- A count that is lowered was not zero. -/
  lowered : ∀ e s' g, Step s e s' → e = .lower g → s'.counts.read g + 1 = s.counts.read g
  /-- When the shutdown has succeeded, no call is under way and no handle has come in that it has
  not waited for, nobody is left. -/
  ended : s.closing = .returned true → s.calls = [] → s.handles = [] →
    s.counts.live = 0 ∧ s.counts.idle = 0

theorem Sound.bounded (hs : s.Sound) : s.Bounded s.config := by
  obtain ⟨hstaged, hcounted, hlimit, hmanned, htended⟩ := hs
  have hlive : s.hands.length ≤ s.counts.live := s.length_hands_le.trans_eq (hcounted .live).symm
  have hshared : s.counts.idle + s.counts.active + s.between = s.counts.live := by
    have := s.weight_between
    rwa [← hcounted .idle, ← hcounted .active, ← hcounted .live] at this
  have hopen (hflag : s.isStopping = false) : s.isOpen = true := by
    by_contra hopen
    exact absurd (hflag.symm.trans (hstaged.shut (by simpa using hopen))) (by decide)
  refine {
    most := hlimit, least := fun hflag => ?_, shared := hshared, still := fun hstill => ?_,
    executing := ?_, surplus := fun hflag w hw hout => ?_,
    resting := fun e s' h w hw hout => h.leaving hw hout
    gone := fun e s' h w hw hgone => h.gone hw hgone
    lowered := fun e s' g h he => h.lowered hstaged hcounted he
    ended := fun hclosing hcalls hhandles => ?_ }
  · rw [← hmanned.core (hopen hflag)]
    exact (List.countP_le_length).trans hlive
  · have := hstill.between_eq
    omega
  · exact (List.length_filterMap_le _ _).trans (hlive.trans hlimit)
  · rcases hmanned.leaving w hw hout with hrole | hclosed
    · exact hrole
    · exact absurd ((hopen hflag).symm.trans hclosed) (by decide)
  · have hnobody : s.hands = [] := List.eq_nil_iff_forall_not_mem.mpr fun w hw => by
      rcases htended (by simp [hclosing]) w hw with h | h | h
      · simp [hhandles] at h
      · simp [hclosing, Winding.awaited] at h
      · simp [hcalls] at h
    have hzero (g : Gauge) (hg : g ≠ .queued) : s.counts.read g = 0 := by
      rw [hcounted g, weight, hnobody, hcalls, hclosing]
      cases g with
      | queued => exact absurd rfl hg
      | live | idle | active => rfl
    exact ⟨hzero .live (by decide), hzero .idle (by decide)⟩

end Floor

/-- A pool keeps to its sizes, whatever comes between any two operations. The functions of the pool
are runs of operations, between which every worker waits or executes a job. -/
theorem Pool.keeps_sizes (J : Type) {c : PoolConfig} (h : c.fault? = none) :
    ∃ p : Pool J, Pool.create c = .ok p ∧ (∀ s, (Workshop.opened p).floor.Leads s → s.Bounded c) ∧
      ∀ motions w, Workshop.Run (Workshop.opened p) motions w → w.floor.Still ∧
      w.floor.Bounded c := by
  obtain ⟨p, hp⟩ : ∃ p : Pool J, Pool.create c = .ok p := ⟨_, by rw [Pool.create, h]⟩
  have hbounded (s : Floor J) (hs : (Workshop.opened p).floor.Leads s) : s.Bounded c := by
    have hsound : s.Sound := Floor.Reachable.sound ⟨c, p, hp, hs⟩
    have hconfig : s.config = c := hs.config_eq.trans (Pool.create_config hp)
    exact hconfig ▸ hsound.bounded
  exact ⟨p, hp, hbounded, fun motions w run =>
    ⟨w.still_floor, hbounded _ (run.floor ⟨c, p, [], hp, .refl _⟩)⟩⟩

/-- A pool with one worker, which can grow to two. -/
def Pool.sample : Pool Nat := ({ config := Workshop.sampleConfig 2 } : Pool Nat).hireCore 1

theorem Pool.create_sample : Pool.create (Workshop.sampleConfig 2) = .ok Pool.sample := rfl

/-- Two calls have both found too few workers idle: one takes the last place, the other
hires nobody. -/
theorem Pool.keeps_sizes_at_the_last_place : ∃ s : Floor Nat,
    Pool.create (Workshop.sampleConfig 2) = .ok Pool.sample ∧
    (Workshop.opened Pool.sample).floor.Leads s ∧
      s.calls = [.reserved] ∧ s.counts.live = 2 ∧ s.Bounded (Workshop.sampleConfig 2) := by
  have opened : (Workshop.opened Pool.sample).floor.Leads (Workshop.opened Pool.sample).floor :=
    .refl
  have entered := opened.step (.offer 1)
  have passed := entered.step (@Floor.Step.proceed _ _ [] [] _ _ _ rfl (.pass 1 rfl))
  have counted := passed.step (@Floor.Step.proceed _ _ [] [] _ _ _ rfl (.count 1 (by decide) rfl))
  have sent := counted.step (@Floor.Step.send _ _ [] [] _ rfl)
  have posted := sent.step (@Floor.Step.proceed _ _ [] [] _ _ _ rfl .post)
  have entered := posted.step (.offer 2)
  have passed := entered.step (@Floor.Step.proceed _ _ [.posted] [] _ _ _ rfl (.pass 2 rfl))
  have counted :=
    passed.step (@Floor.Step.proceed _ _ [.posted] [] _ _ _ rfl (.count 2 (by decide) rfl))
  have sent := counted.step (@Floor.Step.send _ _ [.posted] [] _ rfl)
  have posted := sent.step (@Floor.Step.proceed _ _ [.posted] [] _ _ _ rfl .post)
  have measured := posted.step (@Floor.Step.proceed _ _ [] [.posted] _ _ _ rfl .measure)
  have measured := measured.step (@Floor.Step.proceed _ _ [.measured 2] [] _ _ _ rfl .measure)
  have pressed :=
    measured.step (@Floor.Step.proceed _ _ [] [.measured 2] _ _ _ rfl (.press (by decide)))
  have pressed :=
    pressed.step (@Floor.Step.proceed _ _ [.pressed] [] _ _ _ rfl (.press (by decide)))
  have reserved :=
    pressed.step (@Floor.Step.proceed _ _ [] [.pressed] _ _ _ rfl (.reserve (by decide)))
  have refused := reserved.step (@Floor.Step.finish _ _ [.reserved] [] _ _ rfl (.full (by decide)))
  obtain ⟨p, hp, hbounded, -⟩ := Pool.keeps_sizes Nat (c := Workshop.sampleConfig 2) rfl
  obtain rfl : Pool.sample = p := Except.ok.inj (Pool.create_sample.symm.trans hp)
  exact ⟨_, hp, refused, rfl, rfl, hbounded _ refused⟩

/-- A call to shut the pool down that finds the flag raised says that it has succeeded while
a worker lives. So does the call that raised the flag when a worker's handle comes in too
late for it. -/
theorem Floor.shutdown_succeeds_while_live :
    (∃ s : Floor Nat, s.Reachable ∧ s.closing = .returned false ∧ s.repeats = [true] ∧
      s.calls = [] ∧ s.counts.live = 1) ∧
    ∃ s : Floor Nat, s.Reachable ∧ s.closing = .returned true ∧ s.calls = [] ∧
    s.counts.live = 1 := by
  constructor
  · have opened := Workshop.Reachable.opened (J := Nat) (c := Workshop.sampleConfig 1) rfl
    have first := opened.submit 1 rfl rfl
    have begun := first.step (@Workshop.Step.begin _ _ 0 _ rfl rfl)
    have raised := begun.step (.raise rfl)
    have closed := raised.step (.close rfl)
    have collected := closed.step (.collect rfl rfl)
    have expired := collected.step (.expire rfl)
    have repeated := expired.step (.again rfl)
    exact ⟨_, repeated.floor, rfl, rfl, rfl, rfl⟩
  · have opened := Workshop.Reachable.opened (J := Nat) (c := Workshop.sampleConfig 2) rfl
    have first := opened.submit 1 rfl rfl
    have second := first.submit 2 rfl rfl
    have raised := second.step (.raise rfl)
    have closed := raised.step (.close rfl)
    have drained := closed.step (@Workshop.Step.drain _ _ 1 _ rfl rfl)
    have emptied := drained.step (@Workshop.Step.drain _ _ 2 _ rfl rfl)
    have collected := emptied.step (.collect rfl rfl)
    have retired := collected.step (@Workshop.Step.retire _ _ 0 _ rfl)
    have joined := retired.step (.join rfl (by decide))
    -- only now does the second call hand over what it has hired
    have registered := joined.step (@Workshop.Step.register _ _ [] [] 1 rfl)
    exact ⟨_, registered.floor, rfl, rfl, rfl⟩

end Timetable
