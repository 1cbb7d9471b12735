import Mathlib.Algebra.BigOperators.Group.List.Basic
import Mathlib.Algebra.GroupWithZero.Nat
import Timetable.Proofs.Floor

/-!
# What a pool counts

Every count of a pool that goes down as well as up is the number of threads that stand where they
are counted, and for the queued jobs also the length of the channel. An operation changes a count by
what it moves, so no count is lowered that is zero, and the live workers are the idle and the active
ones and those whose thread is between two operations.
-/
namespace Timetable

variable {J : Type}

/-! ## What is counted where -/

/-- How often a worker is counted by a count. -/
def Stance.weight : Stance J → Gauge → Nat
  | _, .live => 1
  | resting, .idle | received _, .idle | dequeued _, .idle | leaving, .idle => 1
  | executing _, .active | ended, .active => 1
  | received _, .queued => 1
  | _, _ => 0

/-- How often a call that submits a job is counted. -/
def Handing.weight : Handing J → Gauge → Nat
  | counted _, .queued => 1
  | reserved, .live | numbered _, .live | readied _, .live => 1
  | readied _, .idle => 1
  | _, _ => 0

/-- How often the call is counted that shuts the pool down. -/
def Winding.weight : Winding J → Gauge → Nat
  | drawn _, .queued => 1
  | _, _ => 0

/-- How often a live worker is counted neither as idle nor as active. -/
def Stance.between (x : Stance J) : Nat := x.weight .live - (x.weight .idle + x.weight .active)

/-- How often a place that a call has reserved is not counted as idle. -/
def Handing.between (x : Handing J) : Nat := x.weight .live - x.weight .idle

theorem Stance.weight_between (x : Stance J) :
    x.weight .idle + x.weight .active + x.between = x.weight .live := by
  cases x <;> rfl

theorem Handing.weight_between (x : Handing J) :
    x.weight .idle + x.weight .active + x.between = x.weight .live := by
  cases x <;> rfl

namespace Effect

/-- By how much an operation raises a count. -/
def raises (e : Effect) (g : Gauge) : Nat := if e = .raise g then 1 else 0

/-- By how much an operation lowers a count. -/
def lowers (e : Effect) (g : Gauge) : Nat := if e = .lower g then 1 else 0

end Effect

theorem PoolCounts.read_apply (c : PoolCounts) (e : Effect) (g : Gauge) :
    (c.apply e).read g = c.read g + e.raises g - e.lowers g := by
  cases e with
  | raise h => cases h <;> cases g <;> rfl
  | lower h => cases h <;> cases g <;> rfl
  | none | complete | abandon | submit => cases g <;> rfl

/-- A worker is counted after its operation as the operation changes the counts. -/
theorem Stance.Step.balance {isStopping : Bool} {x y : Stance J} {e : Effect}
    (h : x.Step isStopping e y)
    (g : Gauge) : y.weight g + e.lowers g = x.weight g + e.raises g := by
  cases h <;> cases g <;> rfl

namespace Floor

variable {s s' : Floor J} {e : Effect}

/-- So is a call. -/
theorem Proceeds.balance {x y : Handing J} (h : s.Proceeds x e y) (g : Gauge) :
    y.weight g + e.lowers g = x.weight g + e.raises g := by
  cases h <;> cases g <;> rfl

theorem Returns.balance {x : Handing J} (h : s.Returns x e) (g : Gauge) :
    e.lowers g = x.weight g + e.raises g := by
  cases h <;> cases g <;> rfl

/-- How many jobs in the channel are counted. -/
def stored (s : Floor J) : Gauge → Nat
  | .queued => s.waiting.length
  | _ => 0

/-- How many things there are that a count should count. -/
def weight (s : Floor J) (g : Gauge) : Nat :=
  (s.hands.map fun w => w.stance.weight g).sum + (s.calls.map fun c => c.weight g).sum +
    s.closing.weight g + s.stored g

/-- An operation changes what should be counted as it changes the counts. -/
theorem Step.balance (h : Step s e s') (hs : s.Staged) (g : Gauge) :
    s'.weight g + e.lowers g = s.weight g + e.raises g := by
  cases h with
  | offer job => cases g <;> simp [weight, stored, Handing.weight, Effect.raises, Effect.lowers]
  | proceed h hx | finish h hx | work h hx =>
    have := hx.balance g
    simp only [weight, stored, h, List.map_append, List.map_cons, List.sum_append, List.sum_cons]
    omega
  | hire h =>
    -- the worker takes over what was counted for the call
    cases g <;> simp [weight, stored, h, Handing.weight, Stance.weight, Effect.raises,
      Effect.lowers] <;> omega
  | number h | register h =>
    cases g <;> simp [weight, stored, h, Handing.weight, Effect.raises, Effect.lowers]
  | send h =>
    cases g <;> simp [weight, stored, h, Handing.weight, Effect.raises, Effect.lowers]
    omega
  | receive h hwait =>
    cases g <;> simp [weight, stored, h, hwait, Stance.weight, Effect.raises, Effect.lowers]
    omega
  | leave h =>
    cases g <;> simp [weight, stored, h, Stance.weight, Effect.raises, Effect.lowers]
  | depart h =>
    cases g <;> simp [weight, stored, h, Stance.weight, Effect.raises, Effect.lowers]
    omega
  | draw h hwait =>
    cases g <;> simp [weight, stored, h, hwait, Winding.weight, Effect.raises, Effect.lowers]
    omega
  | raise h =>
    cases g <;> simp [weight, stored, hs.uncalled h, Winding.weight, Effect.raises, Effect.lowers]
  | strike h | discard h | close h | collect h | join h | expire h =>
    cases g <;> simp [weight, stored, h, Winding.weight, Effect.raises, Effect.lowers] <;> omega
  | again h => rfl

theorem Step.counts_eq (h : Step s e s') : s'.counts = s.counts.apply e := by
  cases h <;> rfl

theorem Step.config_eq (h : Step s e s') : s'.config = s.config := by
  cases h <;> rfl

theorem Leads.config_eq (run : s.Leads s') : s'.config = s.config := by
  induction run with
  | refl => rfl
  | tail _ h ih =>
    obtain ⟨e, h⟩ := h
    exact h.config_eq.trans ih

/-- The counts are true. -/
def Counted (s : Floor J) : Prop := ∀ g, s.counts.read g = s.weight g

theorem Step.counted (h : Step s e s') (hs : s.Staged) (hc : s.Counted) : s'.Counted := by
  intro g
  have := h.balance hs g
  rw [h.counts_eq, PoolCounts.read_apply, hc g]
  omega

/-- A count that is lowered goes down by one. -/
theorem Step.lowered (h : Step s e s') (hs : s.Staged) (hc : s.Counted) {g : Gauge}
    (he : e = .lower g) :
    s'.counts.read g + 1 = s.counts.read g := by
  have hbalance := h.balance hs g
  rw [hc g, (h.counted hs hc) g]
  simpa [he, Effect.raises, Effect.lowers] using hbalance

/-- A place among the live workers is reserved only below the maximum. -/
theorem Step.live_le (h : Step s e s') (hlimit : s.counts.live ≤ s.config.maxSize.toNat) :
    s'.counts.live ≤ s'.config.maxSize.toNat := by
  have hroom : e = .raise .live → s.counts.live < s.config.maxSize.toNat := by
    rintro rfl
    cases h with
    | proceed _ hx =>
      cases hx with
      | reserve hroom => exact hroom
    | work _ hx => cases hx
    | finish _ hx => cases hx
  rw [h.config_eq, h.counts_eq]
  have hread := s.counts.read_apply e .live
  simp only [PoolCounts.read, Effect.raises] at hread
  split at hread
  · rename_i he
    have := hroom he
    omega
  · omega

/-! ## Idle, active, or between two operations -/

/-- How many live workers are counted neither as idle nor as active, because their thread, or the
call that is hiring them, is between two operations. -/
def between (s : Floor J) : Nat :=
  (s.hands.map fun w => w.stance.between).sum + (s.calls.map fun c => c.between).sum

/-- Every worker waits for a job or executes one, and no call has reserved a place for another. -/
structure Still (s : Floor J) : Prop where
  hands : ∀ w ∈ s.hands, w.stance = .resting ∨ ∃ job, w.stance = .executing job
  calls : ∀ c ∈ s.calls, c.weight .live = 0

theorem weight_between (s : Floor J) :
    s.weight .idle + s.weight .active + s.between = s.weight .live := by
  have hhands :
      (s.hands.map fun w => w.stance.weight .idle).sum +
        (s.hands.map fun w => w.stance.weight .active).sum +
        (s.hands.map fun w => w.stance.between).sum =
      (s.hands.map fun w => w.stance.weight .live).sum := by
    rw [← List.sum_map_add, ← List.sum_map_add]
    exact congrArg List.sum (List.map_congr_left fun w _ => w.stance.weight_between)
  have hcalls :
      (s.calls.map fun c => c.weight .idle).sum + (s.calls.map fun c => c.weight .active).sum +
      (s.calls.map fun c => c.between).sum = (s.calls.map fun c => c.weight .live).sum := by
    rw [← List.sum_map_add, ← List.sum_map_add]
    exact congrArg List.sum (List.map_congr_left fun c _ => c.weight_between)
  -- the channel and the shutdown hold jobs, no workers
  have hrest (g : Gauge) (hg : g ≠ .queued) : s.closing.weight g + s.stored g = 0 := by
    cases g with
    | queued => exact absurd rfl hg
    | live | idle | active => cases s.closing <;> rfl
  have := hrest .idle nofun
  have := hrest .active nofun
  have := hrest .live nofun
  rw [weight, weight, weight, between]
  omega

theorem Still.between_eq (h : s.Still) : s.between = 0 := by
  have hhands : ∀ w ∈ s.hands, w.stance.between = 0 := by
    intro w hw
    rcases h.hands w hw with hx | ⟨job, hx⟩ <;> rw [hx] <;> rfl
  have hcalls : ∀ c ∈ s.calls, c.between = 0 := fun c hc => by simp [Handing.between, h.calls c hc]
  simp [between, List.map_congr_left hhands, List.map_congr_left hcalls]

/-- Every worker is counted as live. -/
theorem length_hands_le (s : Floor J) : s.hands.length ≤ s.weight .live := by
  have hlive : (s.hands.map fun w => w.stance.weight .live).sum = s.hands.length := by
    simp [Stance.weight]
  rw [weight, hlive]
  omega

/-! ## A new pool -/

variable {c : PoolConfig} {p : Pool J}

theorem Counted.opened (h : Pool.create c = .ok p) : (Workshop.opened p).floor.Counted := by
  have hnew := Pool.create_new h
  have hrest : ∀ w ∈ p.workers, w.job.isNone = true := by
    simpa [Pool.activeJobs] using hnew.resting
  have hsum (g : Gauge) : ((p.workers.map Worker.hand).map fun w => w.stance.weight g).sum =
      p.workers.length * (Stance.resting : Stance J).weight g := by
    rw [List.map_map, List.map_congr_left (g := fun _ => (Stance.resting : Stance J).weight g)
      fun w hw => by simp [hand_of_create h hw]]
    simp
  have hweight (g : Gauge) : (Workshop.opened p).floor.weight g =
      p.workers.length * (Stance.resting : Stance J).weight g := by
    simp only [weight, Workshop.floor, Workshop.opened, hsum g, stored, hnew.waiting]
    cases g <;> rfl
  intro g
  rw [hweight g]
  show p.counts.read g = _
  cases g with
  | live => simpa [PoolCounts.read, Stance.weight] using hnew.live
  | idle =>
    simpa [PoolCounts.read, Stance.weight, Pool.idleWorkers, List.filter_eq_self.mpr hrest]
      using hnew.idle
  | active => simpa [PoolCounts.read, Stance.weight, hnew.resting] using hnew.active
  | queued => simpa [PoolCounts.read, Stance.weight, hnew.waiting] using hnew.queued

end Floor

/-- Between the steps of a workshop every worker waits or executes a job. -/
theorem Workshop.still_floor (s : Workshop J) : s.floor.Still where
  hands w hw := by
    obtain ⟨v, -, rfl⟩ := List.mem_map.mp hw
    cases hv : v.job with
    | none => exact .inl (by simp [Worker.hand, hv])
    | some job => exact .inr ⟨job, by simp [Worker.hand, hv]⟩
  calls c hc := by
    obtain ⟨x, -, rfl⟩ := List.mem_map.mp hc
    cases x <;> rfl

end Timetable
