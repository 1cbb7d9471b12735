import Mathlib.Logic.Relation
import Timetable.Proofs.Workshop

/-!
# A pool, one operation at a time

The pool of a workshop at a finer grain. Here a step is one operation of one thread that nothing can
come between: it raises or lowers one count, reads a count or the flag, sends a job or receives one.
A call that submits a job counts it before it sends it, reads two counts one after the other when it
checks whether the pool has to grow, and reserves a place among the live workers before it hires. A
worker lowers the counts of a job one by one after it has received it. While the lock of the channel
is held, no other call takes it.
-/
namespace Timetable

/-- The counts of a pool that go down as well as up. -/
inductive Gauge where
  | live
  | idle
  | active
  | queued
deriving DecidableEq, Repr

/-- What one operation does to the counts of a pool. -/
inductive Effect where
  | none
  | raise (g : Gauge)
  | lower (g : Gauge)
  | complete
  | abandon
  | submit
deriving DecidableEq, Repr

namespace PoolCounts

/-- The count of that name. -/
def read (c : PoolCounts) : Gauge → Nat
  | .live => c.live
  | .idle => c.idle
  | .active => c.active
  | .queued => c.queued

/-- The counts with one of them changed. -/
def alter (c : PoolCounts) (f : Nat → Nat) : Gauge → PoolCounts
  | .live => { c with live := f c.live }
  | .idle => { c with idle := f c.idle }
  | .active => { c with active := f c.active }
  | .queued => { c with queued := f c.queued }

/-- The counts after an operation. -/
def apply (c : PoolCounts) : Effect → PoolCounts
  | .none => c
  | .raise g => c.alter (· + 1) g
  | .lower g => c.alter (· - 1) g
  | .complete => { c with completed := c.completed + 1 }
  | .abandon => { c with abandoned := c.abandoned + 1 }
  | .submit => { c with submitted := c.submitted + 1 }

end PoolCounts

/-- A call that submits a job, by its last operation. -/
inductive Handing (J : Type) where
  | entered (job : J)
  /-- It has read the flag, which was not raised. -/
  | admitted (job : J)
  /-- The pool does not take the job. -/
  | refused (job : J)
  /-- It holds the lock and has counted the job. -/
  | counted (job : J)
  /-- It holds the lock and has sent the job. -/
  | sent
  | posted
  /-- It has read how many jobs are queued. -/
  | measured (queued : Nat)
  /-- It has found fewer workers idle than jobs queued. -/
  | pressed
  /-- It has reserved a place among the live workers. -/
  | reserved
  /-- It has a number for the new worker. -/
  | numbered (number : Nat)
  /-- It has counted the new worker as idle. -/
  | readied (number : Nat)
  /-- The worker runs, and its handle is still with the call. -/
  | hired (number : Nat)

/-- A worker, by its last operation. -/
inductive Stance (J : Type) where
  /-- It waits for a job. -/
  | resting
  | received (job : J)
  /-- The job is not counted as queued any more. -/
  | dequeued (job : J)
  /-- The worker is not counted as idle any more. -/
  | roused (job : J)
  /-- It has read the flag, which was raised. -/
  | declining (job : J)
  /-- It has read the flag, which was not raised. -/
  | starting (job : J)
  | executing (job : J)
  | ended
  /-- It is not counted as active any more. -/
  | released
  /-- It is done with the job, and not counted as idle again. -/
  | rejoining
  /-- It has given up waiting. -/
  | leaving
  /-- It is not counted as idle any more. -/
  | parting

/-- A worker at a pool. -/
structure Hand (J : Type) where
  number : Nat
  role : WorkerRole
  stance : Stance J

/-- How far the call has come that shuts the pool down. -/
inductive Winding (J : Type) where
  | uncalled
  | raised
  | closed
  /-- It has received a job from the channel. -/
  | drawn (job : J)
  /-- The job is not counted as queued any more. -/
  | struck (job : J)
  | joining (awaited : List Nat)
  | returned (graceful : Bool)

/-- A pool with the threads that are at work in it. -/
structure Floor (J : Type) where
  config : PoolConfig
  /-- Jobs in the channel, the oldest first. -/
  waiting : List J
  isOpen : Bool
  isStopping : Bool
  /-- The number of the next worker. -/
  hired : Nat
  counts : PoolCounts
  calls : List (Handing J) := []
  hands : List (Hand J)
  /-- The workers whose handles the pool holds. -/
  handles : List Nat
  closing : Winding J := .uncalled
  /-- What further calls to shut the pool down returned. -/
  repeats : List Bool := []

variable {J : Type}

/-- Whether the call holds the lock of the channel. -/
def Handing.holdsLock : Handing J → Bool
  | counted _ | sent => true
  | _ => false

/-- The workers waited for. -/
def Winding.awaited : Winding J → List Nat
  | joining awaited => awaited
  | _ => []

/-- A worker's next operation, from the job it has received to the next wait, or out of the pool. A
job ends by returning or by a panic, which is caught. -/
inductive Stance.Step (isStopping : Bool) : Stance J → Effect → Stance J → Prop
  | dequeue (job : J) : Step isStopping (.received job) (.lower .queued) (.dequeued job)
  | rouse (job : J) : Step isStopping (.dequeued job) (.lower .idle) (.roused job)
  | heed (job : J) (h : isStopping = true) : Step isStopping (.roused job) .none (.declining job)
  | proceed (job : J) (h : isStopping = false) : Step isStopping (.roused job) .none (.starting job)
  | decline (job : J) : Step isStopping (.declining job) .abandon .rejoining
  | start (job : J) : Step isStopping (.starting job) (.raise .active) (.executing job)
  | finish (job : J) : Step isStopping (.executing job) .none .ended
  | release : Step isStopping .ended (.lower .active) .released
  | complete : Step isStopping .released .complete .rejoining
  | rejoin : Step isStopping .rejoining (.raise .idle) .resting
  | withdraw : Step isStopping .leaving (.lower .idle) .parting

namespace Floor

/-- Nobody holds the lock of the channel. -/
def Unlocked (s : Floor J) : Prop := ∀ c ∈ s.calls, c.holdsLock = false

instance (s : Floor J) : Decidable s.Unlocked :=
  inferInstanceAs (Decidable (∀ c ∈ s.calls, c.holdsLock = false))

/-- The worker of that number has not left. -/
def Present (s : Floor J) (n : Nat) : Prop := n ∈ s.hands.map Hand.number

instance (s : Floor J) (n : Nat) : Decidable (s.Present n) :=
  inferInstanceAs (Decidable (n ∈ s.hands.map Hand.number))

/-- The next operation of a call that submits a job, if it leaves the channel and the
workers alone. -/
inductive Proceeds (s : Floor J) : Handing J → Effect → Handing J → Prop
  | pass (job : J) (h : s.isStopping = false) : Proceeds s (.entered job) .none (.admitted job)
  | refuse (job : J) (h : s.isStopping = true) : Proceeds s (.entered job) .none (.refused job)
  | count (job : J) (hlock : s.Unlocked) (h : s.isOpen = true) :
    Proceeds s (.admitted job) (.raise .queued) (.counted job)
  /-- The channel was closed after the flag had been read. -/
  | bounce (job : J) (hlock : s.Unlocked) (h : s.isOpen = false) :
    Proceeds s (.admitted job) .none (.refused job)
  | post : Proceeds s .sent .submit .posted
  | measure : Proceeds s .posted .none (.measured s.counts.queued)
  | press {queued : Nat} (h : s.counts.idle < queued) : Proceeds s (.measured queued) .none .pressed
  | reserve (h : s.counts.live < s.config.maxSize.toNat) :
    Proceeds s .pressed (.raise .live) .reserved
  | ready (n : Nat) : Proceeds s (.numbered n) (.raise .idle) (.readied n)

/-- The last operation of such a call, if it hires nobody. -/
inductive Returns (s : Floor J) : Handing J → Effect → Prop
  | handBack (job : J) : Returns s (.refused job) .abandon
  | content {queued : Nat} (h : queued ≤ s.counts.idle) : Returns s (.measured queued) .none
  | full (h : s.config.maxSize.toNat ≤ s.counts.live) : Returns s .pressed .none

/-- One operation. -/
inductive Step (s : Floor J) : Effect → Floor J → Prop
  | offer (job : J) : Step s .none { s with calls := s.calls ++ [.entered job] }
  | proceed {before after : List (Handing J)} {x y : Handing J} {e : Effect}
    (h : s.calls = before ++ x :: after) (hx : s.Proceeds x e y) :
    Step s e { s with counts := s.counts.apply e, calls := before ++ y :: after }
  | send {before after : List (Handing J)} {job : J}
    (h : s.calls = before ++ .counted job :: after) :
    Step s .none { s with waiting := s.waiting ++ [job], calls := before ++ .sent :: after }
  | finish {before after : List (Handing J)} {x : Handing J} {e : Effect}
    (h : s.calls = before ++ x :: after) (hx : s.Returns x e) :
    Step s e { s with counts := s.counts.apply e, calls := before ++ after }
  | number {before after : List (Handing J)} (h : s.calls = before ++ .reserved :: after) :
    Step s .none { s with hired := s.hired + 1, calls := before ++ .numbered s.hired :: after }
  | hire {before after : List (Handing J)} {n : Nat} (h : s.calls = before ++ .readied n :: after) :
    Step s .none { s with
      calls := before ++ .hired n :: after
      hands := s.hands ++ [{ number := n, role := .surplus, stance := .resting }] }
  /-- Handles of workers that have left are dropped when a handle comes in. -/
  | register {before after : List (Handing J)} {n : Nat}
    (h : s.calls = before ++ .hired n :: after) :
    Step s .none
      { s with calls := before ++ after, handles := (s.handles.filter (s.Present ·)) ++ [n] }
  | receive {before after : List (Hand J)} {n : Nat} {role : WorkerRole} {job : J} {rest : List J}
    (h : s.hands = before ++ ⟨n, role, .resting⟩ :: after) (hwait : s.waiting = job :: rest) :
    Step s .none { s with waiting := rest, hands := before ++ ⟨n, role, .received job⟩ :: after }
  | work {before after : List (Hand J)} {n : Nat} {role : WorkerRole} {x y : Stance J} {e : Effect}
    (h : s.hands = before ++ ⟨n, role, x⟩ :: after) (hx : x.Step s.isStopping e y) :
    Step s e { s with counts := s.counts.apply e, hands := before ++ ⟨n, role, y⟩ :: after }
  /-- A surplus worker has waited long enough for a job, or no job will come. -/
  | leave {before after : List (Hand J)} {n : Nat} {role : WorkerRole}
    (h : s.hands = before ++ ⟨n, role, .resting⟩ :: after) (hwait : s.waiting = [])
    (hrole : role = .surplus ∨ s.isOpen = false) :
    Step s .none { s with hands := before ++ ⟨n, role, .leaving⟩ :: after }
  | depart {before after : List (Hand J)} {n : Nat} {role : WorkerRole}
    (h : s.hands = before ++ ⟨n, role, .parting⟩ :: after) :
    Step s (.lower .live)
      { s with counts := s.counts.apply (.lower .live), hands := before ++ after }
  | raise (h : s.isStopping = false) :
    Step s .none { s with isStopping := true, closing := .raised }
  | close (h : s.closing = .raised) (hlock : s.Unlocked) :
    Step s .none { s with isOpen := false, closing := .closed }
  | draw {job : J} {rest : List J} (h : s.closing = .closed) (hwait : s.waiting = job :: rest) :
    Step s .none { s with waiting := rest, closing := .drawn job }
  | strike {job : J} (h : s.closing = .drawn job) :
    Step s (.lower .queued)
      { s with counts := s.counts.apply (.lower .queued), closing := .struck job }
  | discard {job : J} (h : s.closing = .struck job) :
    Step s .abandon { s with counts := s.counts.apply .abandon, closing := .closed }
  | collect (h : s.closing = .closed) (hempty : s.waiting = []) :
    Step s .none { s with closing := .joining s.handles, handles := [] }
  | join {awaited : List Nat} (h : s.closing = .joining awaited)
    (hgone : ∀ n ∈ awaited, ¬ s.Present n) :
    Step s .none { s with closing := .returned true }
  /-- The time is up, or no thread could be had to wait for the workers. -/
  | expire {awaited : List Nat} (h : s.closing = .joining awaited) :
    Step s .none { s with closing := .returned false }
  /-- A call that finds the flag raised returns at once. -/
  | again (h : s.isStopping = true) : Step s .none { s with repeats := s.repeats ++ [true] }

/-- What any number of operations leads to. -/
def Leads : Floor J → Floor J → Prop := Relation.ReflTransGen fun s s' => ∃ e, Step s e s'

/-- Another operation. -/
theorem Leads.step {s₀ s s' : Floor J} {e : Effect} (run : Leads s₀ s) (h : Step s e s') :
    Leads s₀ s' :=
  run.tail ⟨e, h⟩

end Floor

/-! ## A workshop's floor -/

/-- Where a worker of a pool is while it is in the middle of nothing. -/
def Worker.hand (w : Worker J) : Hand J where
  number := w.number
  role := w.role
  stance := match w.job with
    | none => .resting
    | some job => .executing job

/-- Where a call is that submits a job. -/
def Submission.handing : Submission J → Handing J
  | entered job => .entered job
  | admitted job => .admitted job
  | sent => .posted
  | hired n => .hired n

/-- Where the call is that shuts the pool down. -/
def Closing.winding : Closing → Winding J
  | uncalled => .uncalled
  | raised => .raised
  | closed => .closed
  | joining awaited => .joining awaited
  | returned graceful => .returned graceful

/-- The floor of a workshop: no thread is in the middle of a step. -/
def Workshop.floor (s : Workshop J) : Floor J where
  config := s.pool.config
  waiting := s.pool.waiting
  isOpen := s.pool.isOpen
  isStopping := s.pool.isStopping
  hired := s.pool.hired
  counts := s.pool.counts
  calls := s.calls.map Submission.handing
  hands := s.pool.workers.map Worker.hand
  handles := s.handles
  closing := s.closing.winding
  repeats := s.repeats

/-- What the floor of a new pool can get into. -/
def Floor.Reachable (s : Floor J) : Prop :=
  ∃ (c : PoolConfig) (p : Pool J), Pool.create c = .ok p ∧ (Workshop.opened p).floor.Leads s

/-- What holds of the floor of a new pool and is kept by every operation holds on every
reachable floor. -/
theorem Floor.Reachable.induction {motive : Floor J → Prop} {s : Floor J} (hs : s.Reachable)
    (opened : ∀ c p, Pool.create c = .ok p → motive (Workshop.opened p).floor)
    (step : ∀ s e s', Step s e s' → motive s → motive s') : motive s := by
  obtain ⟨c, p, hp, run⟩ := hs
  induction run with
  | refl => exact opened c p hp
  | tail _ h ih =>
    obtain ⟨e, h⟩ := h
    exact step _ e _ h ih

namespace Floor

variable {s s' : Floor J} {e : Effect} {c : PoolConfig} {p : Pool J}

/-- Nobody has a job in a new pool. -/
theorem hand_of_create (h : Pool.create c = .ok p) {w : Worker J} (hw : w ∈ p.workers) :
    w.hand = ⟨w.number, w.role, .resting⟩ := by
  have hrest : ∀ w ∈ p.workers, w.job = none := by
    simpa [Pool.activeJobs] using (Pool.create_new h).resting
  simp [Worker.hand, hrest w hw]

/-! ## Stages of a shutdown -/

/-- How far a shutdown has come. -/
structure Staged (s : Floor J) : Prop where
  uncalled : s.isStopping = false → s.closing = .uncalled
  called : s.isStopping = true → s.closing ≠ .uncalled
  shut : s.isOpen = false → s.isStopping = true

theorem Staged.opened {c : PoolConfig} {p : Pool J} (h : Pool.create c = .ok p) :
    (Workshop.opened p).floor.Staged where
  uncalled _ := rfl
  called hflag := by
    have := (Pool.create_new h).isStopping
    exact absurd (this.symm.trans hflag) (by decide)
  shut hopen := absurd ((Pool.create_new h).isOpen.symm.trans hopen) (by decide)

theorem Staged.stopping (hs : s.Staged) (h : s.closing ≠ .uncalled) : s.isStopping = true := by
  cases hflag : s.isStopping with
  | true => rfl
  | false => exact absurd (hs.uncalled hflag) h

theorem Step.staged (h : Step s e s') (hs : s.Staged) : s'.Staged := by
  cases h with
  | offer | proceed | send | finish | number | hire | register | receive | work | leave | depart
    | again =>
    exact ⟨hs.uncalled, hs.called, hs.shut⟩
  | raise h => exact ⟨nofun, nofun, fun _ => rfl⟩
  | close h | draw h | strike h | discard h | collect h | join h | expire h =>
    have hflag : s.isStopping = true := hs.stopping (by simp [h])
    exact ⟨fun e => absurd (hflag.symm.trans e) (by decide), nofun, fun _ => hflag⟩

end Floor

end Timetable
