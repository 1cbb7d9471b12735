import Timetable.Proofs.Conservation
import Timetable.Proofs.QueueOrder

/-!
# A scheduler with its pool

The scheduler and the pool it has started, and the jobs between the two. A tick claims jobs and
offers them to the pool one after the other. A worker that takes a job before the pool is told to
shut down begins an attempt in the same step; it records the attempt under the scheduler's lock and
then ends the job. A job that the pool does not take, or that is taken too late, is handed back
under the lock by the thread that holds it. The drain hands a job back before it takes the next one
out of the channel. Nothing keeps a stop, a tick, or a call from a hook from coming between any two
steps.
-/
namespace Timetable

variable {W : Type}

/-- The jobs that are out and have not begun. -/
def World.unbegun (w : World W) : List (Job W) :=
  (w.jobs.filter fun d => d.startedAt.isNone).map Dispatch.job

/-- The jobs whose attempt has begun and is not recorded. -/
def World.underway (w : World W) : List (Job W) :=
  (w.jobs.filter fun d => d.startedAt.isSome).map Dispatch.job

/-- Whether a deed is done by a caller, a hook or the delivery, and touches no job. -/
def Deed.isCall : Deed W → Bool
  | claim _ | attempt .. | finish .. | abandon .. => false
  | _ => true

theorem Deed.ne_claim {d : Deed W} (h : d.isCall) (now : Instant) : d ≠ .claim now := by
  rintro rfl
  cases h

namespace Motion

variable {J : Type}

/-- The jobs that a motion brings to the pool. -/
def offered : Motion J → List J
  | offer job => [job]
  | _ => []

/-- The jobs that a motion gives to the executor to be executed. -/
def begun : Motion J → List J
  | begin _ job => [job]
  | _ => []

/-- The jobs that a motion gives to the executor to be abandoned. -/
def abandoned : Motion J → List J
  | refuse job | bounce job | late _ job | drain job => [job]
  | _ => []

/-- The jobs that a motion takes out of the channel. -/
def taken : Motion J → List J
  | begin _ job | late _ job | drain job => [job]
  | _ => []

/-- Whether a motion neither brings a job, nor gives one to the executor, nor ends one. -/
def isQuiet : Motion J → Bool
  | offer _ | refuse _ | bounce _ | begin .. | late .. | complete .. | drain _ => false
  | _ => true

def isDrain : Motion J → Bool
  | drain _ => true
  | _ => false

end Motion

/-- A job on its way back from the pool. -/
structure Parting (W : Type) where
  job : Job W
  /-- Whether the drain has taken it out. -/
  byDrain : Bool

/-- A scheduler with its pool. -/
structure Plant (W : Type) where
  world : World W
  shop : Workshop (Job W)
  /-- The jobs claimed and not yet offered to the pool. -/
  claimed : List (Job W) := []
  parting : List (Parting W) := []
  /-- The workers that have recorded their attempt and not yet ended their job. -/
  recorded : List Nat := []
  /-- The jobs that the drain has handed back, in that order, whose tasks have not been
  claimed since. -/
  drained : List (Job W) := []

/-- What can happen in a plant. -/
inductive Act (W : Type) where
  | call (d : Deed W)
  | claim (now : Instant) (jobs : List (Job W))
  | offer (job : Job W)
  | move (m : Motion (Job W))
  | turnBack (m : Motion (Job W)) (job : Job W)
  | begin (number : Nat) (job : Job W) (startedAt : Instant)
  | handBack (job : Job W) (now : Instant)
  | record (number : Nat) (job : Job W) (work : W) (a : Attempt) (now : Instant)
  | complete (number : Nat) (job : Job W)

namespace Act

/-- What an act is to the scheduler. -/
def deed? : Act W → Option (Deed W)
  | call d => some d
  | claim now _ => some (.claim now)
  | begin _ job startedAt => some (.attempt job startedAt)
  | handBack job now => some (.abandon job now)
  | record _ job work a now => some (.finish job work a now)
  | _ => none

/-- The jobs that an act claims. -/
def claims : Act W → List (Job W)
  | claim _ jobs => jobs
  | _ => []

/-- The jobs that an act hands back. -/
def handsBack : Act W → List (Job W)
  | handBack job _ => [job]
  | _ => []

/-- The jobs whose attempt an act begins. -/
def begins : Act W → List (Job W)
  | begin _ job _ => [job]
  | _ => []

/-- The jobs whose attempt an act records. -/
def records : Act W → List (Job W)
  | record _ job _ _ _ => [job]
  | _ => []

end Act

namespace Plant

/-- The jobs on their way back that the drain has taken out. -/
def draining (p : Plant W) : List (Job W) := (p.parting.filter Parting.byDrain).map Parting.job

/-- One step. -/
inductive Step (p : Plant W) : Act W → Plant W → Prop
  | call {d : Deed W} {w : World W} (hd : d.isCall) (h : World.Step p.world d w) :
    Step p (.call d) { p with world := w }
  | claim {now : Instant} {w : World W} (h : World.Step p.world (.claim now) w) :
    Step p (.claim now (p.world.scheduler.claimDue now).1) { p with
      world := w
      claimed := p.claimed ++ (p.world.scheduler.claimDue now).1
      drained := p.drained.filter fun job =>
        job.id ∉ (p.world.scheduler.claimDue now).1.map Job.id }
  | offer {before after : List (Job W)} {job : Job W} {s : Workshop (Job W)}
    (h : p.claimed = before ++ job :: after) (hs : Workshop.Step p.shop (.offer job) s) :
    Step p (.offer job) { p with shop := s, claimed := before ++ after }
  /-- The handles are collected when the drain is over. -/
  | move {m : Motion (Job W)} {s : Workshop (Job W)} (hm : m.isQuiet)
    (hdrain : m = .collect → p.draining = []) (hs : Workshop.Step p.shop m s) :
    Step p (.move m) { p with shop := s }
  | turnBack {m : Motion (Job W)} {job : Job W} {s : Workshop (Job W)} (hm : m.abandoned = [job])
    (hdrain : m.isDrain → p.draining = []) (hs : Workshop.Step p.shop m s) :
    Step p (.turnBack m job) { p with shop := s, parting := p.parting ++ [⟨job, m.isDrain⟩] }
  | begin {n : Nat} {job : Job W} {startedAt : Instant} {w : World W} {s : Workshop (Job W)}
    (hs : Workshop.Step p.shop (.begin n job) s)
    (h : World.Step p.world (.attempt job startedAt) w) :
    Step p (.begin n job startedAt) { p with world := w, shop := s }
  | handBack {before after : List (Parting W)} {x : Parting W} {now : Instant} {w : World W}
    (hx : p.parting = before ++ x :: after) (h : World.Step p.world (.abandon x.job now) w) :
    Step p (.handBack x.job now) { p with
      world := w, parting := before ++ after
      drained := if x.byDrain then p.drained ++ [x.job] else p.drained }
  | record {n : Nat} {job : Job W} {work : W} {a : Attempt} {now : Instant} {w : World W}
    (hbusy : p.shop.pool.jobOf? n = some job) (hn : n ∉ p.recorded)
    (h : World.Step p.world (.finish job work a now) w) :
    Step p (.record n job work a now) { p with world := w, recorded := n :: p.recorded }
  | complete {n : Nat} {job : Job W} {s : Workshop (Job W)} (hn : n ∈ p.recorded)
    (hs : Workshop.Step p.shop (.complete n job) s) :
    Step p (.complete n job) { p with shop := s, recorded := p.recorded.filter fun m => m ≠ n }

/-- A run, step by step. -/
inductive Run : Plant W → List (Act W) → Plant W → Prop
  | refl (p : Plant W) : Run p [] p
  | step {p p₁ p₂ : Plant W} {acts : List (Act W)} {x : Act W} (run : Run p acts p₁)
    (h : Step p₁ x p₂) :
    Run p (acts ++ [x]) p₂

/-- A scheduler that is started with a new pool. Nothing has been claimed before the start. -/
inductive Opens : Plant W → Prop
  | start {w w' : World W} {now : Instant} {pool : Pool (Job W)} (hw : w.Reachable)
    (hcreated : w.scheduler.lifecycle = .created) (hidle : w.jobs = [])
    (h : World.Step w (.start now) w') (hpool : Pool.create w.scheduler.config.pool = .ok pool) :
    Opens { world := w', shop := Workshop.opened pool }

/-- What a scheduler can get into once it is started. -/
def Reachable (p : Plant W) : Prop := ∃ p₀ acts, Opens p₀ ∧ Run p₀ acts p

variable {p p' p'' : Plant W} {x : Act W} {acts : List (Act W)}

theorem Reachable.step (hp : p.Reachable) (h : Step p x p') : p'.Reachable := by
  obtain ⟨p₀, acts, hopens, run⟩ := hp
  exact ⟨p₀, acts ++ [x], hopens, run.step h⟩

theorem Reachable.run (hp : p.Reachable) (run : Run p acts p') : p'.Reachable := by
  induction run with
  | refl => exact hp
  | step _ h ih => exact ih.step h

/-- What holds at the start and is kept by every step holds in every reachable plant. -/
theorem Reachable.induction {motive : Plant W → Prop} (hp : p.Reachable)
    (opens : ∀ p, Opens p → motive p)
    (step : ∀ p x p', p.Reachable → Step p x p' → motive p → motive p') : motive p := by
  obtain ⟨p₀, acts, hopens, run⟩ := hp
  have hstart : p₀.Reachable := ⟨p₀, [], hopens, .refl _⟩
  induction run with
  | refl => exact opens p₀ hopens
  | step run h ih => exact step _ _ _ (hstart.run run) h ih

/-- An act is a deed of the scheduler or leaves it alone. -/
theorem Step.world (h : Step p x p') :
    (x.deed? = none ∧ p'.world = p.world) ∨ ∃ d, x.deed? = some d ∧
    World.Step p.world d p'.world := by
  cases h with
  | call _ h | claim h | begin _ h | handBack _ h | record _ _ h => exact .inr ⟨_, rfl, h⟩
  | offer | move | turnBack | complete => exact .inl ⟨rfl, rfl⟩

/-- An act is a motion of the pool or leaves it alone. -/
theorem Step.shop (h : Step p x p') : p'.shop = p.shop ∨ ∃ m, Workshop.Step p.shop m p'.shop := by
  cases h with
  | call | claim | handBack | record => exact .inl rfl
  | offer _ hs | move _ _ hs | turnBack _ _ hs | begin hs | complete _ hs => exact .inr ⟨_, hs⟩

theorem Reachable.world (hp : p.Reachable) : p.world.Reachable := by
  refine hp.induction (motive := fun p => p.world.Reachable) (fun p hopens => ?_)
    fun p x p' _ h ih => ?_
  · cases hopens with
    | start hw _ _ h => exact hw.step h
  · rcases h.world with ⟨-, heq⟩ | ⟨d, -, hd⟩
    · exact heq ▸ ih
    · exact ih.step hd

theorem Reachable.shop (hp : p.Reachable) : p.shop.Reachable := by
  refine hp.induction (motive := fun p => p.shop.Reachable) (fun p hopens => ?_)
    fun p x p' _ h ih => ?_
  · cases hopens with
    | start _ _ _ _ hpool => exact .opened hpool
  · rcases h.shop with heq | ⟨m, hm⟩
    · exact heq ▸ ih
    · exact ih.step hm

end Plant

end Timetable
