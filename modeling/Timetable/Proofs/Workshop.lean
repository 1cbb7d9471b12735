import Mathlib.Data.List.Perm.Basic
import Timetable.Proofs.Workers

/-!
# A pool at work

A pool together with the calls that submit jobs to it, the call that shuts it down, and a record of
what became of every job. A step is what a thread does to the pool without interruption. A call that
submits a job reads the flag, sends the job under the lock of the channel, checks whether the pool
has to grow, and registers the handle of the worker it has hired. A call that shuts the pool down
raises the flag, closes the channel, hands back what waits, takes the handles out of the pool, and
waits for those workers until its time is up. Steps of all calls and of the workers come in any
order.
-/
namespace Timetable

/-- What stands beside an element stays when others take its place. -/
theorem mem_of_replaced {α : Type} {l before after : List α} {a b : α}
    (h : l = before ++ a :: after) (hb : b ∈ l)
    (hne : b ≠ a) (rest : List α) : b ∈ before ++ (rest ++ after) := by
  rw [h] at hb
  rcases List.mem_append.mp hb with hb | hb
  · exact List.mem_append_left _ hb
  · have hafter := (List.mem_cons.mp hb).resolve_left hne
    exact List.mem_append_right _ (List.mem_append_right _ hafter)

/-- A call that submits a job, by what it has done so far. -/
inductive Submission (J : Type) where
  | entered (job : J)
  /-- It has read the flag, which was not raised. -/
  | admitted (job : J)
  | sent
  /-- It has hired a worker, and the worker's handle is still with it. -/
  | hired (number : Nat)

/-- How far the call has come that shuts the pool down. -/
inductive Closing where
  | uncalled
  | raised
  | closed
  /-- It waits for the workers whose handles it has taken. -/
  | joining (awaited : List Nat)
  | returned (graceful : Bool)
deriving DecidableEq

/-- What a thread can do at a pool. -/
inductive Motion (J : Type) where
  | offer (job : J)
  | pass (job : J)
  | refuse (job : J)
  | post (job : J)
  | bounce (job : J)
  | grow
  | register (number : Nat)
  | begin (number : Nat) (job : J)
  | late (number : Nat) (job : J)
  | complete (number : Nat) (job : J)
  | retire (number : Nat)
  | raise
  | close
  | drain (job : J)
  | collect
  | join
  | expire
  | again

/-- A pool at work. -/
structure Workshop (J : Type) where
  pool : Pool J
  /-- The calls under way that submit jobs. -/
  calls : List (Submission J) := []
  /-- The workers whose handles the pool holds. -/
  handles : List Nat := []
  closing : Closing := .uncalled
  /-- What further calls to shut the pool down returned. -/
  repeats : List Bool := []
  /-- The jobs passed to the pool so far. -/
  offered : List J := []
  /-- The jobs sent to the channel so far. -/
  accepted : List J := []
  /-- The jobs whose call returned an error. -/
  rejected : List J := []
  /-- The jobs given to the executor to be executed. -/
  begun : List J := []
  /-- Those of them whose execution has ended. -/
  executed : List J := []
  /-- The jobs given to the executor to be abandoned. -/
  abandoned : List J := []

variable {J : Type}

/-- The job that a call still holds. -/
def Submission.job? : Submission J → Option J
  | entered job | admitted job => some job
  | sent | hired _ => none

/-- What is left to do after a check for growth: a new worker's handle has to be registered. -/
def Submission.grown (p : Pool J) : List (Submission J) :=
  if p.grow.hired = p.hired then [] else [.hired p.hired]

/-- How many stages that call has gone through. -/
def Closing.stage : Closing → Nat
  | uncalled => 0
  | raised => 1
  | closed => 2
  | joining _ => 3
  | returned _ => 4

/-- The workers waited for. -/
def Closing.awaited : Closing → List Nat
  | joining awaited => awaited
  | _ => []

namespace Workshop

/-- A new pool, with the handles of its core workers. -/
def opened (p : Pool J) : Workshop J := { pool := p, handles := p.numbers }

/-- The workshop after a job was handed back to the call that offered it. -/
def turnAway (s : Workshop J) (calls : List (Submission J)) (job : J) : Workshop J :=
  { s with
    pool := s.pool.reject
    calls := calls
    rejected := s.rejected ++ [job]
    abandoned := s.abandoned ++ [job] }

/-- One step. -/
inductive Step (s : Workshop J) : Motion J → Workshop J → Prop
  | offer (job : J) :
    Step s (.offer job) { s with calls := s.calls ++ [.entered job], offered := s.offered ++ [job] }
  | pass {before after : List (Submission J)} {job : J}
    (h : s.calls = before ++ .entered job :: after) (hflag : s.pool.isStopping = false) :
    Step s (.pass job) { s with calls := before ++ .admitted job :: after }
  | refuse {before after : List (Submission J)} {job : J}
    (h : s.calls = before ++ .entered job :: after)
    (hflag : s.pool.isStopping = true) : Step s (.refuse job) (s.turnAway (before ++ after) job)
  | post {before after : List (Submission J)} {job : J} {p : Pool J}
    (h : s.calls = before ++ .admitted job :: after) (hp : s.pool.post? job = some p) :
    Step s (.post job) { s with
      pool := p, calls := before ++ .sent :: after, accepted := s.accepted ++ [job] }
  /-- The channel was closed after the flag had been read. -/
  | bounce {before after : List (Submission J)} {job : J}
    (h : s.calls = before ++ .admitted job :: after)
    (hp : s.pool.post? job = none) : Step s (.bounce job) (s.turnAway (before ++ after) job)
  | grow {before after : List (Submission J)} (h : s.calls = before ++ .sent :: after) :
    Step s .grow
      { s with pool := s.pool.grow, calls := before ++ (Submission.grown s.pool ++ after) }
  /-- Handles of workers that have left are dropped when a handle comes in. -/
  | register {before after : List (Submission J)} {n : Nat}
    (h : s.calls = before ++ .hired n :: after) :
    Step s (.register n) { s with
      calls := before ++ after
      handles := (s.handles.filter fun m => (s.pool.worker? m).isSome) ++ [n] }
  | begin {n : Nat} {k : Pickup J} (h : s.pool.take? n = some k) (hb : k.begins = true) :
    Step s (.begin n k.job) { s with pool := k.pool, begun := s.begun ++ [k.job] }
  | late {n : Nat} {k : Pickup J} (h : s.pool.take? n = some k) (hb : k.begins = false) :
    Step s (.late n k.job) { s with pool := k.pool, abandoned := s.abandoned ++ [k.job] }
  /-- A job has returned or panicked, which is caught. -/
  | complete {n : Nat} {job : J} {p : Pool J} (hbusy : s.pool.jobOf? n = some job)
    (h : s.pool.complete? n = some p) :
    Step s (.complete n job) { s with pool := p, executed := s.executed ++ [job] }
  | retire {n : Nat} {p : Pool J} (h : s.pool.retire? n = some p) :
    Step s (.retire n) { s with pool := p }
  | raise (h : s.pool.isStopping = false) :
    Step s .raise { s with pool := s.pool.raiseFlag, closing := .raised }
  | close (h : s.closing = .raised) :
    Step s .close { s with pool := s.pool.close, closing := .closed }
  | drain {job : J} {p : Pool J} (h : s.closing = .closed) (hp : s.pool.drain? = some (job, p)) :
    Step s (.drain job) { s with pool := p, abandoned := s.abandoned ++ [job] }
  | collect (h : s.closing = .closed) (hempty : s.pool.waiting = []) :
    Step s .collect { s with closing := .joining s.handles, handles := [] }
  | join {awaited : List Nat} (h : s.closing = .joining awaited)
    (hgone : ∀ n ∈ awaited, s.pool.worker? n = none) :
    Step s .join { s with closing := .returned true }
  /-- The time is up, or no thread could be had to wait for the workers. -/
  | expire {awaited : List Nat} (h : s.closing = .joining awaited) :
    Step s .expire { s with closing := .returned false }
  /-- A call that finds the flag raised returns at once. -/
  | again (h : s.pool.isStopping = true) : Step s .again { s with repeats := s.repeats ++ [true] }

/-- A run, step by step. -/
inductive Run : Workshop J → List (Motion J) → Workshop J → Prop
  | refl (s : Workshop J) : Run s [] s
  | step {s s₁ s₂ : Workshop J} {motions : List (Motion J)} {m : Motion J} (run : Run s motions s₁)
    (h : Step s₁ m s₂) : Run s (motions ++ [m]) s₂

/-- What a new pool can get into. -/
def Reachable (s : Workshop J) : Prop :=
  ∃ (c : PoolConfig) (p : Pool J) (motions : List (Motion J)),
    Pool.create c = .ok p ∧ Run (opened p) motions s

theorem Reachable.opened {c : PoolConfig} {p : Pool J} (h : Pool.create c = .ok p) :
    (Workshop.opened p).Reachable := ⟨c, p, [], h, .refl _⟩

theorem Reachable.step {s s' : Workshop J} {m : Motion J} (hs : s.Reachable) (h : Step s m s') :
    s'.Reachable := by
  obtain ⟨c, p, motions, hp, run⟩ := hs
  exact ⟨c, p, motions ++ [m], hp, run.step h⟩

/-- What holds of a new pool and is kept by every step holds in every reachable workshop. -/
theorem Reachable.induction {motive : Workshop J → Prop} {s : Workshop J} (hs : s.Reachable)
    (opened : ∀ c p, Pool.create c = .ok p → motive (Workshop.opened p))
    (step : ∀ s m s', Step s m s' → motive s → motive s') : motive s := by
  obtain ⟨c, p, motions, hp, run⟩ := hs
  induction run with
  | refl => exact opened c p hp
  | step _ h ih => exact step _ _ _ h ih

end Workshop

end Timetable
