import Mathlib.Algebra.GroupWithZero.Nat
import Timetable.Proofs.DrainOrder
import Timetable.Proofs.Rehearsal

/-!
# A plant winds down

Once the pool is told to shut down, no attempt begins. Every job that has not begun, and every job
that a tick still claims, is handed back once, whatever comes between; the attempts that had begun
go on and are recorded. How far the jobs are from being handed back is measured by a load, which
nothing raises but a claim, and which some thread can lower for as long as a job is out that has not
begun.
-/
namespace Timetable

variable {W : Type}

/-! ## The load -/

/-- How much is left to do for the job of a call. -/
def Submission.load {J : Type} : Submission J → Nat
  | entered _ => 4
  | admitted _ => 3
  | sent | hired _ => 0

/-- How much is left to do to close the channel. -/
def Closing.load : Closing → Nat
  | raised => 1
  | _ => 0

namespace Workshop

variable {J : Type} {s s' : Workshop J} {m : Motion J}

/-- How much is left to do for the jobs inside, and for the channel to be closed. -/
def load (s : Workshop J) : Nat :=
  (s.calls.map Submission.load).sum + 2 * s.pool.waiting.length + s.closing.load

/-- The load of the calls under way, one of which is that one. -/
theorem load_of_calls {before after : List (Submission J)} {c : Submission J}
    (h : s.calls = before ++ c :: after) :
    (s.calls.map Submission.load).sum = c.load + ((before ++ after).map Submission.load).sum := by
  rw [h, List.map_append, List.map_cons, List.sum_append, List.sum_cons, List.map_append,
    List.sum_append]
  omega

/-- Nothing raises the load but a job that comes in; a job that goes out to be
abandoned lowers it. -/
theorem Step.load_le (h : Step s m s') (hs : s.Reachable) (hflag : s.pool.isStopping = true) :
    s'.load + 2 * m.abandoned.length ≤ s.load + 4 * m.offered.length := by
  have hp := hs.sound.1.pool
  have hup : s.pool.isStopping ≠ false := by rw [hflag]; decide
  cases h with
  | offer job =>
    simp only [Workshop.load, Motion.offered, Motion.abandoned, Submission.load, List.map_append,
      List.sum_append, List.map_cons, List.map_nil, List.sum_cons, List.sum_nil, List.length_cons,
      List.length_nil]
    omega
  | pass _ hdown => exact absurd hdown hup
  | refuse h =>
    have hcalls := load_of_calls h
    simp only [Workshop.load, Motion.offered, Motion.abandoned, Submission.load,
      turnAway, Pool.reject, List.length_cons, List.length_nil] at hcalls ⊢
    omega
  | bounce h =>
    have hcalls := load_of_calls h
    simp only [Workshop.load, Motion.offered, Motion.abandoned, Submission.load,
      turnAway, Pool.reject, List.length_cons, List.length_nil] at hcalls ⊢
    omega
  | @post before after job p h hpost =>
    obtain ⟨-, rfl⟩ := Pool.post?_eq_some hpost
    have hcalls := load_of_calls h
    simp only [Workshop.load, Motion.offered, Motion.abandoned, Submission.load, List.map_append,
      List.map_cons, List.sum_append, List.sum_cons, List.length_append, List.length_cons,
      List.length_nil] at hcalls ⊢
    omega
  | @grow before after h =>
    have hcalls := load_of_calls h
    have hwait : s.pool.grow.waiting = s.pool.waiting := by
      rcases s.pool.grow_cases with hg | hg <;> rw [hg]
      rfl
    have hgrown :
        ((Submission.grown s.pool : List (Submission J)).map Submission.load).sum = 0 := by
      rw [Submission.grown]
      split <;> rfl
    simp only [Workshop.load, Motion.offered, Motion.abandoned, Submission.load, hwait, hgrown,
      List.map_append, List.sum_append, List.length_nil] at hcalls ⊢
    omega
  | register h =>
    have hcalls := load_of_calls h
    simp only [Workshop.load, Motion.offered, Motion.abandoned, Submission.load,
      List.length_nil] at hcalls ⊢
    omega
  | begin h hb =>
    obtain ⟨hdown, -⟩ := hp.take?_begins h hb
    exact absurd hdown hup
  | late h hb =>
    obtain ⟨-, rest, hwait, hk⟩ := Pool.take?_late h hb
    simp only [Workshop.load, Motion.offered, Motion.abandoned, hk, hwait, List.length_cons,
      List.length_nil]
    omega
  | complete _ h =>
    obtain ⟨_, _, _, _, -, -, -, -, rfl⟩ := hp.complete?_eq_some h
    exact Nat.le_refl _
  | retire h =>
    obtain ⟨_, _, _, -, -, -, rfl⟩ := hp.retire?_eq_some h
    exact Nat.le_refl _
  | raise hdown => exact absurd hdown hup
  | close h =>
    simp only [Workshop.load, Closing.load, Motion.offered, Motion.abandoned, Pool.close, h,
      List.length_nil]
    omega
  | drain h hd =>
    obtain ⟨rest, hwait, rfl⟩ := Pool.drain?_eq_some hd
    simp only [Workshop.load, Motion.offered, Motion.abandoned, hwait, List.length_cons,
      List.length_nil]
    omega
  | collect h | join h | expire h =>
    simp only [Workshop.load, Closing.load, Motion.offered, Motion.abandoned, h, List.length_nil]
    omega
  | again => exact Nat.le_refl _

/-- The flag stays raised. -/
theorem Step.stays_stopping (h : Step s m s') (hs : s.Reachable)
    (hflag : s.pool.isStopping = true) :
    s'.pool.isStopping = true := by
  have hp := hs.sound.1.pool
  cases h with
  | post _ hpost =>
    obtain ⟨-, rfl⟩ := Pool.post?_eq_some hpost
    exact hflag
  | grow =>
    rcases s.pool.grow_cases with hg | hg <;> rw [hg] <;> exact hflag
  | begin h hb =>
    obtain ⟨hdown, -⟩ := hp.take?_begins h hb
    exact absurd (hflag.symm.trans hdown) (by decide)
  | late h hb =>
    obtain ⟨-, rest, -, hk⟩ := Pool.take?_late h hb
    rw [hk]
    exact hflag
  | complete _ h =>
    obtain ⟨_, _, _, _, -, -, -, -, rfl⟩ := hp.complete?_eq_some h
    exact hflag
  | retire h =>
    obtain ⟨_, _, _, -, -, -, rfl⟩ := hp.retire?_eq_some h
    exact hflag
  | drain _ hd =>
    obtain ⟨rest, -, rfl⟩ := Pool.drain?_eq_some hd
    exact hflag
  | raise => rfl
  | _ => exact hflag

/-- A motion that gives a job to the executor to be abandoned, or comes nearer to it. -/
def Helps (s : Workshop J) (m : Motion J) (s' : Workshop J) : Prop :=
  (∃ job, m.abandoned = [job]) ∨ (m.isQuiet ∧ m ≠ .collect ∧ s'.load < s.load)

/-- The call that holds a job can go on. -/
theorem progress_of_call (hflag : s.pool.isStopping = true) {c : Submission J} (hc : c ∈ s.calls)
    {job : J} (hjob : c.job? = some job) : ∃ m s', Step s m s' ∧ s.Helps m s' := by
  obtain ⟨before, after, hcalls⟩ := List.append_of_mem hc
  cases c with
  | entered job => exact ⟨_, _, .refuse hcalls hflag, .inl ⟨job, rfl⟩⟩
  | admitted job =>
    cases hpost : s.pool.post? job with
    | none => exact ⟨_, _, .bounce hcalls hpost, .inl ⟨job, rfl⟩⟩
    | some p =>
      refine ⟨_, _, .post hcalls hpost, .inr ⟨rfl, by simp, ?_⟩⟩
      obtain ⟨-, rfl⟩ := Pool.post?_eq_some hpost
      have hload := load_of_calls hcalls
      simp only [Workshop.load, Submission.load, List.map_append, List.map_cons, List.sum_append,
        List.sum_cons, List.length_append, List.length_cons, List.length_nil] at hload ⊢
      omega
  | sent | hired => cases hjob

/-- The call that shuts the pool down can go on while jobs wait in the channel. -/
theorem Reachable.progress_of_waiting (hs : s.Reachable) (hflag : s.pool.isStopping = true)
    (hwait : s.pool.waiting ≠ []) : ∃ m s', Step s m s' ∧ s.Helps m s' := by
  have hstaged := hs.sound.2
  have hraised : 1 ≤ s.closing.stage := hstaged.flag.mp hflag
  have hdrained : ¬3 ≤ s.closing.stage := fun hstage => hwait (hstaged.drained hstage)
  cases hc : s.closing with
  | raised =>
    refine ⟨_, _, .close hc, .inr ⟨rfl, by simp, ?_⟩⟩
    simp [Workshop.load, Closing.load, Pool.close, hc]
  | closed =>
    obtain ⟨job, rest, hsplit⟩ := List.exists_cons_of_ne_nil hwait
    have hdrain : ∃ p, s.pool.drain? = some (job, p) := by simp [Pool.drain?, hsplit]
    obtain ⟨p, hp⟩ := hdrain
    exact ⟨_, _, .drain hc hp, .inl ⟨job, rfl⟩⟩
  | uncalled | joining | returned => simp [hc, Closing.stage] at hraised hdrained

end Workshop

namespace Plant

variable {p p' : Plant W} {x : Act W} {acts : List (Act W)}

/-- Whether the pool has been told to shut down. -/
def Stopping (p : Plant W) : Prop := p.shop.pool.isStopping = true

/-- How far the jobs that have not begun are from being handed back. -/
def load (p : Plant W) : Nat := 5 * p.claimed.length + p.shop.load + p.parting.length

/-! ## One step -/

theorem Step.stopping (h : Step p x p') (hp : p.Reachable) (hs : p.Stopping) : p'.Stopping := by
  rcases h.shop with heq | ⟨m, hm⟩
  · rw [Stopping, heq]
    exact hs
  · exact hm.stays_stopping hp.shop hs

theorem Step.begins_nothing (h : Step p x p') (hp : p.Reachable) (hs : p.Stopping) :
    x.begins = [] := by
  cases h with
  | begin hbegin =>
    cases hbegin with
    | begin ht hb =>
      obtain ⟨hdown, -⟩ := hp.shop.sound.1.pool.take?_begins ht hb
      exact absurd (hs.symm.trans hdown) (by decide)
  | _ => rfl

/-- A job that has not begun begins or is handed back, and a job under way is recorded. -/
theorem Step.jobs (h : Step p x p') :
    (p.world.unbegun ++ x.claims).Perm (x.handsBack ++ x.begins ++ p'.world.unbegun) ∧
      (p.world.underway ++ x.begins).Perm (x.records ++ p'.world.underway) := by
  cases h with
  | call hd h =>
    have hjobs := h.jobs_of_call hd
    simp only [World.unbegun, World.underway, hjobs, Act.claims, Act.handsBack,
      Act.begins, Act.records, List.append_nil, List.nil_append]
    exact ⟨.refl _, .refl _⟩
  | claim h =>
    obtain ⟨hunbegun, hunderway⟩ := h.unbegun_of_claim
    rw [hunbegun, hunderway]
    simp only [Act.claims, Act.handsBack, Act.begins, Act.records, List.append_nil, List.nil_append]
    exact ⟨.refl _, .refl _⟩
  | begin _ h =>
    obtain ⟨hunbegun, hunderway⟩ := h.unbegun_of_attempt
    simp only [Act.claims, Act.handsBack, Act.begins, Act.records, List.append_nil, List.nil_append]
    exact ⟨hunbegun, (List.perm_append_singleton _ _).trans hunderway.symm⟩
  | handBack _ h =>
    obtain ⟨hunbegun, hunderway⟩ := h.unbegun_of_abandon
    rw [hunderway]
    simp only [Act.claims, Act.handsBack, Act.begins, Act.records, List.append_nil, List.nil_append]
    exact ⟨hunbegun, .refl _⟩
  | record _ _ h =>
    obtain ⟨hunbegun, hunderway⟩ := h.underway_of_finish
    rw [hunbegun]
    simp only [Act.claims, Act.handsBack, Act.begins, Act.records, List.append_nil, List.nil_append]
    exact ⟨.refl _, hunderway⟩
  | offer | move | turnBack | complete =>
    simp only [Act.claims, Act.handsBack, Act.begins, Act.records, List.append_nil, List.nil_append]
    exact ⟨.refl _, .refl _⟩

/-- Only a claim raises the load. -/
theorem Step.load_le (h : Step p x p') (hp : p.Reachable) (hs : p.Stopping) :
    p'.load ≤ p.load + 5 * x.claims.length := by
  have hmotion {m : Motion (Job W)} {s : Workshop (Job W)} (hm : Workshop.Step p.shop m s) :=
    hm.load_le hp.shop hs
  cases h with
  | call | record => exact Nat.le_add_right _ _
  | claim =>
    simp only [load, Act.claims, List.length_append]
    omega
  | offer h hm =>
    have hshop := hmotion hm
    simp only [load, Act.claims, Motion.offered, Motion.abandoned, h, List.length_append,
      List.length_cons, List.length_nil] at hshop ⊢
    omega
  | move hq _ hm =>
    obtain ⟨hoffered, -⟩ := Motion.of_isQuiet hq
    have hshop := hmotion hm
    simp only [load, Act.claims, hoffered, List.length_nil] at hshop ⊢
    omega
  | turnBack hm _ hs =>
    obtain ⟨hoffered, -⟩ := Motion.of_abandoned hm
    have hshop := hmotion hs
    simp only [load, Act.claims, hoffered, hm, List.length_append, List.length_cons,
      List.length_nil] at hshop ⊢
    omega
  | begin hm h =>
    have hshop := hmotion hm
    simp only [load, Act.claims, Motion.offered, Motion.abandoned, List.length_nil] at hshop ⊢
    omega
  | handBack hy =>
    simp only [load, Act.claims, hy, List.length_append, List.length_cons, List.length_nil]
    omega
  | complete _ hm =>
    have hshop := hmotion hm
    simp only [load, Act.claims, Motion.offered, Motion.abandoned, List.length_nil] at hshop ⊢
    omega

/-- While a job is out that has not begun, a step of a thread that holds one lowers the load. -/
theorem Reachable.progress (hp : p.Reachable) (hs : p.Stopping) (hout : p.world.unbegun ≠ []) :
    ∃ x p', Step p x p' ∧ x.claims = [] ∧ p'.load < p.load := by
  have hparts := hp.tallied.unbegun
  -- the last place that holds a job is the one to look at: the drain may be waiting for what is
  -- parting
  cases hparting : p.parting with
  | cons y after =>
    have hmem : y.job ∈ p.world.unbegun := hparts.mem_iff.mpr (by simp [hparting])
    obtain ⟨front, back, hjobs⟩ := List.append_of_mem (World.mem_unbegun.mp hmem)
    refine ⟨_, _, .handBack (show p.parting = [] ++ y :: after from hparting)
      (.abandon hjobs .epoch), rfl, ?_⟩
    simp [load, hparting]
  | nil =>
    cases hclaimed : p.claimed with
    | cons job after =>
      refine ⟨_, _, .offer (show p.claimed = [] ++ job :: after from hclaimed) (.offer job), rfl,
        ?_⟩
      simp only [load, Workshop.load, Submission.load, hclaimed, List.length_append,
        List.length_cons, List.length_nil, List.map_append, List.sum_append, List.map_cons,
        List.map_nil, List.sum_cons, List.sum_nil]
      omega
    | nil =>
      have hinside : p.shop.inside ≠ [] := by
        rintro hnone
        rw [hclaimed, hnone, hparting] at hparts
        exact hout hparts.eq_nil
      have hmotion : ∃ m s', Workshop.Step p.shop m s' ∧ p.shop.Helps m s' := by
        by_cases hwait : p.shop.pool.waiting = []
        · obtain ⟨job, hjob⟩ := List.exists_mem_of_ne_nil _ hinside
          rw [Workshop.inside, hwait, List.append_nil] at hjob
          obtain ⟨c, hc, hcjob⟩ := List.mem_filterMap.mp hjob
          exact Workshop.progress_of_call hs hc hcjob
        · exact hp.shop.progress_of_waiting hs hwait
      have hdraining : p.draining = [] := by simp [draining, hparting]
      obtain ⟨m, s', hstep, ⟨job, hm⟩ | ⟨hquiet, hne, hlt⟩⟩ := hmotion
      · refine ⟨_, _, .turnBack hm (fun _ => hdraining) hstep, rfl, ?_⟩
        obtain ⟨hoffered, -⟩ := Motion.of_abandoned hm
        have hle := hstep.load_le hp.shop hs
        simp only [load, hm, hoffered, List.length_append, List.length_cons,
          List.length_nil] at hle ⊢
        omega
      · refine ⟨_, _, .move hquiet (fun e => absurd e hne) hstep, rfl, ?_⟩
        show 5 * p.claimed.length + s'.load + p.parting.length < p.load
        rw [load]
        omega

/-- An attempt under way can be recorded, whatever its outcome. -/
theorem Reachable.recordable (hp : p.Reachable) {job : Job W} (hjob : job ∈ p.world.underway) :
    ∃ n startedAt, ∀ work duration outcome now, ∃ p',
      Step p (.record n job work ⟨startedAt, duration, outcome⟩ now) p' ∧
      p'.world.scheduler = p.world.scheduler.finish { job with work }
        ⟨startedAt, duration, outcome⟩ now := by
  have hbusy : job ∈ p.busy := hp.tallied.underway.mem_iff.mp hjob
  obtain ⟨⟨n, job'⟩, hmem, rfl⟩ := List.mem_map.mp hbusy
  obtain ⟨hengaged, hn⟩ := List.mem_filter.mp hmem
  have hjobOf := hp.shop.sound.1.pool.jobOf?_eq_some.mpr hengaged
  obtain ⟨⟨job, begun⟩, hd, rfl⟩ := List.mem_map.mp hjob
  obtain ⟨hout, hbegun⟩ := List.mem_filter.mp hd
  obtain ⟨startedAt, rfl⟩ := Option.isSome_iff_exists.mp hbegun
  obtain ⟨front, back, hjobs⟩ := List.append_of_mem hout
  refine ⟨n, startedAt, fun work duration outcome now => ⟨_, .record hjobOf (of_decide_eq_true hn)
    (.finish hjobs work now), rfl⟩⟩

/-! ## A run -/

/-- A run goes through every one of its acts. -/
theorem Run.split (run : Run p acts p') {first rest : List (Act W)}
    (h : acts = first ++ x :: rest) :
    ∃ p₁ p₂, Run p first p₁ ∧ Step p₁ x p₂ ∧ Run p₂ rest p' := by
  induction run generalizing rest with
  | refl => simp at h
  | @step p₁ p₂ acts y run hstep ih =>
    rcases rest.eq_nil_or_concat with rfl | ⟨rest, z, rfl⟩
    · obtain ⟨rfl, heq⟩ := List.append_inj' h rfl
      obtain rfl := List.singleton_inj.mp heq
      exact ⟨_, _, run, hstep, .refl _⟩
    · rw [List.concat_eq_append, ← List.cons_append, ← List.append_assoc] at h
      obtain ⟨hacts, heq⟩ := List.append_inj' h rfl
      obtain rfl := List.singleton_inj.mp heq
      obtain ⟨q, q', hfirst, hx, hrest⟩ := ih hacts
      exact ⟨q, q', hfirst, hx, by simpa using hrest.step hstep⟩

theorem Run.cons {p₁ : Plant W} (h : Step p x p₁) (run : Run p₁ acts p') :
    Run p (x :: acts) p' := by
  induction run with
  | refl => exact (Run.refl p).step h
  | step _ hlast ih => exact ih.step hlast

theorem Run.stopping (run : Run p acts p') (hp : p.Reachable) (hs : p.Stopping) : p'.Stopping := by
  induction run with
  | refl => exact hs
  | step run h ih => exact h.stopping (hp.run run) ih

theorem Run.begins_nothing (run : Run p acts p') (hp : p.Reachable) (hs : p.Stopping) :
    acts.flatMap Act.begins = [] := by
  induction run with
  | refl => rfl
  | step run h ih =>
    have hlast := h.begins_nothing (hp.run run) (run.stopping hp hs)
    rw [List.flatMap_append, ih, List.flatMap_singleton, hlast, List.append_nil]

/-- Every job that was out at first or is claimed on the way begins, is handed back, or is still
out, and every attempt under way is recorded once, or is still under way. -/
theorem Run.jobs (run : Run p acts p') :
    (p.world.unbegun ++ acts.flatMap Act.claims).Perm
        (acts.flatMap Act.handsBack ++ acts.flatMap Act.begins ++ p'.world.unbegun) ∧
      (p.world.underway ++ acts.flatMap Act.begins).Perm
        (acts.flatMap Act.records ++ p'.world.underway) := by
  induction run with
  | refl => simp
  | step run h ih =>
    -- a job may be claimed and handed back many times in one run, so occurrences are counted
    obtain ⟨hunbegun, hunderway⟩ := ih
    obtain ⟨hunbegun', hunderway'⟩ := h.jobs
    classical
    simp only [List.perm_iff_count, List.flatMap_append, List.flatMap_singleton,
      List.count_append] at *
    constructor
    · intro a
      have := hunbegun a
      have := hunbegun' a
      omega
    · intro a
      have := hunderway a
      have := hunderway' a
      omega

theorem Run.load_le (run : Run p acts p') (hp : p.Reachable) (hs : p.Stopping) :
    p'.load ≤ p.load + 5 * (acts.flatMap Act.claims).length := by
  induction run with
  | refl => exact Nat.le_refl _
  | step run h ih =>
    have hlast := h.load_le (hp.run run) (run.stopping hp hs)
    simp only [List.flatMap_append, List.flatMap_singleton, List.length_append]
    omega

/-- All that is out can be handed back without another claim. -/
theorem Reachable.finishes (hp : p.Reachable) (hs : p.Stopping) :
    ∃ acts p', Run p acts p' ∧ acts.flatMap Act.claims = [] ∧ p'.world.unbegun = [] := by
  -- on the load, which the step that `progress` gives lowers
  induction hload : p.load using Nat.strong_induction_on generalizing p with
  | h n ih =>
    by_cases hout : p.world.unbegun = []
    · exact ⟨[], p, .refl p, rfl, hout⟩
    · obtain ⟨x, p₁, h, hx, hlt⟩ := hp.progress hs hout
      obtain ⟨more, p', run, hmore, hnone⟩ :=
        ih p₁.load (hload ▸ hlt) (hp.step h) (h.stopping hp hs) rfl
      refine ⟨x :: more, p', .cons h run, ?_, hnone⟩
      rw [List.flatMap_cons, hx, hmore, List.append_nil]

/-- What happens in a plant that has been told to shut down. -/
structure WindsDown (p : Plant W) (acts : List (Act W)) (p' : Plant W) : Prop where
  /-- No attempt begins. -/
  begins : acts.flatMap Act.begins = []
  /-- Every job that had not begun, and every job that is still claimed, is handed back once or
  is still out. -/
  unbegun : (p.world.unbegun ++ acts.flatMap Act.claims).Perm
    (acts.flatMap Act.handsBack ++ p'.world.unbegun)
  /-- As long as such a job is out, some thread can bring it nearer to being handed back, -/
  progress : p'.world.unbegun ≠ [] → ∃ x p'', Step p' x p'' ∧ x.claims = [] ∧ p''.load < p'.load
  /-- and nothing but a claim takes one further away from it. -/
  wanes : p'.load ≤ p.load + 5 * (acts.flatMap Act.claims).length
  /-- So they can all be handed back in the end. -/
  finishes : ∃ more p'', Run p' more p'' ∧ more.flatMap Act.claims = [] ∧ p''.world.unbegun = []
  /-- A job is handed back to what its task was just before its claim. -/
  restored : ∀ first job now rest, acts = first ++ .handBack job now :: rest →
    ∃ p₁ p₂, Run p first p₁ ∧ Step p₁ (.handBack job now) p₂ ∧ Run p₂ rest p' ∧
      (∃ w₀ t deeds, World.Dispatched w₀ t job deeds p₁.world) ∧
      ∀ w₀ t deeds, World.Dispatched w₀ t job deeds p₁.world → World.Restored t job deeds p₂.world
  /-- What the drain has handed back is listed in the order in which it was sent to the pool, where
  it waits alike. -/
  sent : p'.drained.Sublist p'.shop.accepted
  listed : p'.drained.Pairwise fun i j => ∀ t u,
    p'.world.scheduler.task? i.id = some t → p'.world.scheduler.task? j.id = some u →
    t.status = .scheduled → u.status = .scheduled → t.priority = u.priority →
    t.nextExecution = u.nextExecution →
    [t.toSnapshot, u.toSnapshot].Sublist p'.world.scheduler.listPending
  /-- Every attempt that had begun is recorded once, or is still under way. -/
  underway : p.world.underway.Perm (acts.flatMap Act.records ++ p'.world.underway)
  /-- It can be recorded at any time, whatever its outcome, as without a shutdown. -/
  recordable : ∀ job ∈ p'.world.underway, ∃ n startedAt, ∀ work duration outcome now, ∃ p'',
    Step p' (.record n job work ⟨startedAt, duration, outcome⟩ now) p'' ∧ p''.world.scheduler =
      p'.world.scheduler.finish { job with work } ⟨startedAt, duration, outcome⟩ now

/-- Whatever is out when the pool is told to shut down, none of it begins, all of it can be handed
back once and as it was, and what had begun is recorded. -/
theorem Reachable.winds_down (hp : p.Reachable) (hs : p.Stopping) (run : Run p acts p') :
    WindsDown p acts p' := by
  have hp' := hp.run run
  have hs' := run.stopping hp hs
  have hbegins := run.begins_nothing hp hs
  obtain ⟨hunbegun, hunderway⟩ := run.jobs
  rw [hbegins, List.append_nil] at hunbegun hunderway
  have hdrained := hp'.drainedInOrder
  refine {
    begins := hbegins, unbegun := hunbegun, progress := hp'.progress hs',
    wanes := run.load_le hp hs, finishes := hp'.finishes hs', restored := ?_, sent := ?_,
    listed := ?_, underway := hunderway, recordable := fun job hjob => hp'.recordable hjob }
  · intro first job now rest hacts
    obtain ⟨p₁, p₂, hfirst, hback, hrest⟩ := run.split hacts
    have hworld := (hp.run hfirst).world
    have hdeed : World.Step p₁.world (.abandon job now) p₂.world := by
      cases hback with
      | handBack _ h => exact h
    have hout : { job } ∈ p₁.world.jobs :=
      World.mem_unbegun.mp (hdeed.unbegun_of_abandon.1.mem_iff.mpr (List.mem_cons_self ..))
    exact ⟨p₁, p₂, hfirst, hback, hrest, hworld.dispatched hout, fun w₀ t deeds h =>
      h.restored hdeed⟩
  · have hprefix := (List.sublist_append_left p'.drained p'.draining).trans
      (List.sublist_append_left _ p'.shop.pool.waiting)
    exact hprefix.trans hdrained.sent
  · exact hdrained.queued.imp fun hb t u ht hu hts hus hp hn =>
      hp'.world.sublist_listPending hb ht hu hts hus hp hn

/-! ## A shutdown to the end -/

/-- A tick that nothing comes between submits the first of its jobs. -/
theorem Reachable.submit (hp : p.Reachable) {job : Job W} {after : List (Job W)} {q : Pool (Job W)}
    (hclaimed : p.claimed = job :: after) (hcalls : p.shop.calls = [])
    (h : p.shop.pool.send? job = some q) :
    Reachable { p with
      claimed := after
      shop := { p.shop with
        pool := q.grow, calls := Submission.grown q
        offered := p.shop.offered ++ [job], accepted := p.shop.accepted ++ [job] } } := by
  rw [Pool.send?] at h
  split at h
  · cases h
  · rename_i hflag
    have offered :=
      hp.step (.offer (show p.claimed = [] ++ job :: after from hclaimed) (.offer job))
    rw [hcalls] at offered
    have passed :=
      offered.step
        (.move rfl (by simp) (@Workshop.Step.pass _ _ [] [] job rfl (by simpa using hflag)))
    have posted := passed.step (.move rfl (by simp) (@Workshop.Step.post _ _ [] [] job q rfl h))
    have grown := posted.step (.move rfl (by simp) (@Workshop.Step.grow _ _ [] [] rfl))
    rwa [List.append_nil, List.nil_append] at grown

/-- Tasks and their jobs, by number. -/
def sampleTask (n : Nat) : Task Nat := { Task.sample with id := .ofNat n }

def sampleJob (n : Nat) : Job Nat := { id := .ofNat n, work := 0 }

/-- A scheduler with one worker. -/
def sampleConfig : Config := { corePoolSize := 1, maxPoolSize := 1 }

/-- A pool that is told to shut down while it executes one job and another one waits. -/
def sampleShop : Workshop (Job Nat) where
  pool := {
    config := sampleConfig.pool
    waiting := [sampleJob 2]
    isStopping := true
    workers := [{ number := 0, role := .core, job := some (sampleJob 1) }]
    hired := 1
    counts := { live := 1, active := 1, queued := 1, submitted := 2 } }
  handles := [0]
  closing := .raised
  offered := [sampleJob 1, sampleJob 2]
  accepted := [sampleJob 1, sampleJob 2]
  begun := [sampleJob 1]

/-- It is told so while a third job is still to be offered. -/
theorem exists_stopping : ∃ w : World Nat,
    Reachable { world := w, shop := sampleShop, claimed := [sampleJob 3] } ∧
    w.jobs = [⟨sampleJob 1, some .epoch⟩, { job := sampleJob 2 }, { job := sampleJob 3 }] := by
  obtain ⟨w₀, hplay, hcreated, hidle, hconfig, w₁, hstart, hnone, hdue⟩ :
      ∃ w₀ ∈ (World.fresh ({ config := sampleConfig } : Scheduler Nat)).play?
        [.accept .dueNow (sampleTask 1) .epoch .epoch, .accept .dueNow (sampleTask 2) .epoch .epoch,
          .accept .dueNow (sampleTask 3) .epoch .epoch],
        w₀.scheduler.lifecycle = .created ∧ w₀.jobs = [] ∧ w₀.scheduler.config = sampleConfig ∧
        ∃ w₁ ∈ w₀.step? (.start .epoch), w₁.jobs = [] ∧
        (w₁.scheduler.claimDue .epoch).1 = [sampleJob 1, sampleJob 2, sampleJob 3] :=
    ⟨_, rfl, rfl, rfl, rfl, _, rfl, rfl, rfl⟩
  have hw₀ : w₀.Reachable := ⟨sampleConfig, _, _, rfl, .of_play? hplay⟩
  have opened : Reachable _ :=
    ⟨_, _, .start hw₀ hcreated hidle (.of_step? hstart) (by rw [hconfig]; rfl), .refl _⟩
  have claimed := opened.step (.claim (.claim w₁ .epoch))
  simp only [hdue, hnone, List.nil_append, List.map_cons, List.map_nil] at claimed
  have first := claimed.submit rfl rfl rfl
  have begun :=
    first.step (.begin (.begin (n := 0) rfl rfl) (@World.Step.attempt _ _ [] _ _ rfl .epoch))
  have second := begun.submit rfl rfl rfl
  have raised := second.step (.move rfl (by simp) (.raise rfl))
  exact ⟨_, raised, rfl⟩

/-- The shutdown goes to its end: the job in the channel is drained, the last one is refused, and
the attempt is recorded. -/
theorem winds_down_to_the_end : ∃ (p p' : Plant Nat) (acts : List (Act Nat)), Run p acts p' ∧
    p.world.underway = [sampleJob 1] ∧ p.world.unbegun = [sampleJob 2, sampleJob 3] ∧
    acts.flatMap Act.handsBack = [sampleJob 2, sampleJob 3] ∧
    acts.flatMap Act.records = [sampleJob 1] ∧
    p'.drained = [sampleJob 2] ∧ p'.world.jobs = [] ∧ WindsDown p acts p' := by
  obtain ⟨w, hp, hjobs⟩ := exists_stopping
  have starts : Run { world := w, shop := sampleShop, claimed := [sampleJob 3] } [] _ := .refl _
  have closed := starts.step (.move rfl (by simp) (.close rfl))
  have drained :=
    closed.step (.turnBack (m := .drain (sampleJob 2)) rfl (fun _ => rfl) (.drain rfl rfl))
  have back :=
    drained.step (@Step.handBack _ _ [] _ _ _ _ rfl (@World.Step.abandon _ _ [_] _ _ hjobs .epoch))
  have offered := back.step (@Step.offer _ _ [] _ _ _ rfl (.offer _))
  have refused :=
    offered.step (.turnBack rfl (fun _ => rfl) (@Workshop.Step.refuse _ _ [] _ _ rfl rfl))
  have handed :=
    refused.step (@Step.handBack _ _ [] _ _ _ _ rfl (@World.Step.abandon _ _ [_] _ _ rfl .epoch))
  have recorded := handed.step (@Step.record _ _ 0 (sampleJob 1) _ .successSample _ _ rfl (by simp)
    (@World.Step.finish _ _ [] _ _ _ rfl 0 .epoch))
  exact ⟨_, _, _, recorded, by simp [World.underway, hjobs], by simp [World.unbegun, hjobs], rfl,
    rfl, rfl, rfl, hp.winds_down rfl recorded⟩

end Plant

end Timetable
