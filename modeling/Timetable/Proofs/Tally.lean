import Timetable.Proofs.Plant

/-!
# Where a claimed job is

In a reachable plant a job that has not begun is with the tick that claimed it, with a call that
offers it, in the channel, or on its way back; and a job that has begun is with one worker.
-/
namespace Timetable

/-! ## What a motion does with jobs -/

namespace Motion

variable {J : Type} {m : Motion J} {job : J}

/-- The worker that a motion makes busy, with its job. -/
def engages : Motion J → List (Nat × J)
  | begin n job => [(n, job)]
  | _ => []

/-- The worker whose job a motion ends. -/
def ends : Motion J → List (Nat × J)
  | complete n job => [(n, job)]
  | _ => []

theorem of_isQuiet (h : m.isQuiet) :
    m.offered = [] ∧ m.begun = [] ∧ m.abandoned = [] ∧ m.taken = [] ∧
    m.engages = [] ∧ m.ends = [] := by
  cases m <;> first | exact ⟨rfl, rfl, rfl, rfl, rfl, rfl⟩ | cases h

theorem of_abandoned (h : m.abandoned = [job]) :
    m.offered = [] ∧ m.begun = [] ∧ m.engages = [] ∧ m.ends = [] ∧
    (m.isDrain → m.taken = [job]) := by
  cases m <;> simp_all [abandoned, offered, begun, engages, ends, isDrain, taken]

end Motion

namespace Workshop

variable {J : Type} {s s' : Workshop J} {m : Motion J}

/-- The jobs in the pool that have not begun. -/
def inside (s : Workshop J) : List J := s.calls.filterMap Submission.job? ++ s.pool.waiting

theorem Step.records (h : Step s m s') : s'.offered = s.offered ++ m.offered ∧
    s'.begun = s.begun ++ m.begun ∧ s'.abandoned = s.abandoned ++ m.abandoned := by
  cases h <;> simp [Motion.offered, Motion.begun, Motion.abandoned, turnAway]

/-- What comes in is inside until it is given to the executor. -/
theorem Step.inside (h : Step s m s') (hs : s.Reachable) :
    (s.inside ++ m.offered).Perm (s'.inside ++ m.begun ++ m.abandoned) := by
  obtain ⟨hoffered, hbegun, habandoned⟩ := h.records
  have hbefore := hs.sound.1.offered
  have hafter := (hs.step h).sound.1.offered
  rw [hoffered, hbegun, habandoned] at hafter
  classical
  refine List.perm_iff_count.mpr fun a => ?_
  have hb := hbefore.count_eq a
  have ha := hafter.count_eq a
  simp only [Workshop.inside, List.count_append] at hb ha ⊢
  omega

/-- Jobs leave the channel at its front. -/
theorem Step.channel (h : Step s m s') (hp : s.pool.Sound) : ∃ posted,
    s'.accepted = s.accepted ++ posted ∧ s.pool.waiting ++ posted = m.taken ++ s'.pool.waiting := by
  cases h with
  | @post before after job p h hp =>
    obtain ⟨-, rfl⟩ := Pool.post?_eq_some hp
    exact ⟨[job], rfl, rfl⟩
  | grow =>
    refine ⟨[], by simp, ?_⟩
    rcases s.pool.grow_cases with hg | hg <;> simp [hg, Motion.taken, Pool.hire]
  | begin h hb =>
    obtain ⟨-, rest, before, w, after, hwait, -, -, -, hk⟩ := hp.take?_begins h hb
    exact ⟨[], by simp, by simp [hwait, hk, Motion.taken]⟩
  | late h hb =>
    obtain ⟨-, rest, hwait, hk⟩ := Pool.take?_late h hb
    exact ⟨[], by simp, by simp [hwait, hk, Motion.taken]⟩
  | drain _ hd =>
    obtain ⟨rest, hwait, rfl⟩ := Pool.drain?_eq_some hd
    exact ⟨[], by simp, by simp [hwait, Motion.taken]⟩
  | complete _ h =>
    obtain ⟨_, _, _, _, -, -, -, -, rfl⟩ := hp.complete?_eq_some h
    exact ⟨[], by simp, by simp [Motion.taken]⟩
  | retire h =>
    obtain ⟨_, _, _, -, -, -, rfl⟩ := hp.retire?_eq_some h
    exact ⟨[], by simp, by simp [Motion.taken]⟩
  | _ =>
    exact ⟨[], by simp [turnAway],
      by simp [Motion.taken, turnAway, Pool.reject, Pool.raiseFlag, Pool.close]⟩

/-- Workers become busy and idle one at a time. -/
theorem Step.engaged (h : Step s m s') (hp : s.pool.Sound) :
    (s.pool.engaged ++ m.engages).Perm (s'.pool.engaged ++ m.ends) := by
  cases h with
  | post _ hpost =>
    obtain ⟨-, rfl⟩ := Pool.post?_eq_some hpost
    exact List.Perm.refl _
  | grow =>
    rcases s.pool.grow_cases with hg | hg
    · simp only [hg, Pool.engaged_hire]
      exact List.Perm.refl _
    · simp only [hg]
      exact List.Perm.refl _
  | begin h hb =>
    have hengaged := hp.engaged_begins h hb
    simp only [Motion.engages, Motion.ends, List.append_nil]
    exact (List.perm_append_singleton _ _).trans hengaged.symm
  | late h hb =>
    obtain ⟨-, rest, -, hk⟩ := Pool.take?_late h hb
    simp only [hk]
    exact List.Perm.refl _
  | drain _ hd =>
    obtain ⟨rest, -, rfl⟩ := Pool.drain?_eq_some hd
    exact List.Perm.refl _
  | complete hbusy h =>
    simp only [Motion.engages, Motion.ends, List.append_nil]
    exact (hp.engaged_completes h hbusy).trans (List.perm_append_singleton _ _).symm
  | retire h =>
    simp only [hp.engaged_retires h]
    exact List.Perm.refl _
  | _ => exact List.Perm.refl _

end Workshop

/-! ## What a deed does with jobs -/

namespace World

variable {W : Type} {w w' : World W} {job : Job W}

theorem mem_unbegun : job ∈ w.unbegun ↔ { job } ∈ w.jobs := by
  simp only [unbegun, List.mem_map, List.mem_filter, Option.isNone_iff_eq_none]
  constructor
  · rintro ⟨⟨j, startedAt⟩, ⟨hmem, hnone⟩, rfl⟩
    obtain rfl : startedAt = none := hnone
    exact hmem
  · exact fun h => ⟨_, ⟨h, rfl⟩, rfl⟩

/-- A job that is out has begun or not. -/
theorem jobs_perm (w : World W) : (w.jobs.map Dispatch.job).Perm (w.unbegun ++ w.underway) := by
  have hsplit := List.filter_append_perm (fun d => d.startedAt.isNone) w.jobs
  simp only [Option.not_isNone] at hsplit
  rw [unbegun, underway, ← List.map_append]
  exact (hsplit.map _).symm

theorem Step.jobs_of_call {d : Deed W} (h : Step w d w') (hd : d.isCall) : w'.jobs = w.jobs := by
  cases h with
  | claim | attempt | finish | abandon => cases hd
  | _ => rfl

theorem Step.unbegun_of_claim {now : Instant} (h : Step w (.claim now) w') :
    w'.unbegun = w.unbegun ++ (w.scheduler.claimDue now).1 ∧ w'.underway = w.underway := by
  cases h with
  | claim => constructor <;> simp [unbegun, underway, List.filter_map, Function.comp_def]

theorem Step.unbegun_of_attempt {startedAt : Instant} (h : Step w (.attempt job startedAt) w') :
    w.unbegun.Perm (job :: w'.unbegun) ∧ w'.underway.Perm (job :: w.underway) := by
  cases h with
  | attempt hjobs =>
    constructor
    · simp [unbegun, hjobs]
    · simp [underway, hjobs]

theorem Step.underway_of_finish {work : W} {a : Attempt} {now : Instant}
    (h : Step w (.finish job work a now) w') :
    w'.unbegun = w.unbegun ∧ w.underway.Perm (job :: w'.underway) := by
  cases h with
  | finish hjobs =>
    constructor
    · simp [unbegun, hjobs]
    · simp [underway, hjobs]

theorem Step.unbegun_of_abandon {now : Instant} (h : Step w (.abandon job now) w') :
    w.unbegun.Perm (job :: w'.unbegun) ∧ w'.underway = w.underway := by
  cases h with
  | abandon hjobs =>
    constructor
    · simp [unbegun, hjobs]
    · simp [underway, hjobs]

end World

/-! ## In a reachable plant -/

namespace Plant

variable {W : Type} {p p' : Plant W} {x : Act W}

/-- The jobs with workers that have not recorded their attempt. -/
def busy (p : Plant W) : List (Job W) :=
  (p.shop.pool.engaged.filter fun e => e.1 ∉ p.recorded).map Prod.snd

/-- Scheduler and pool tell one story of the jobs that are out. -/
structure Tallied (p : Plant W) : Prop where
  unbegun : p.world.unbegun.Perm (p.claimed ++ p.shop.inside ++ p.parting.map Parting.job)
  underway : p.world.underway.Perm p.busy
  recorded : p.recorded ⊆ p.shop.pool.engaged.map Prod.fst

theorem Tallied.opens (h : Opens p) : p.Tallied := by
  cases h with
  | @start w w' now pool hw hcreated hidle h hpool =>
    have hjobs : w'.jobs = [] := (h.jobs_of_call rfl).trans hidle
    have hp := Pool.create_new hpool
    refine ⟨?_, ?_, ?_⟩
    · simp [World.unbegun, hjobs, Workshop.inside, Workshop.opened, hp.waiting]
    · simp [World.underway, hjobs, busy, Workshop.opened, hp.engaged]
    · simp

/-- A motion that begins and ends no job. What it brings leaves the tick, and what it gives to the
executor to be abandoned is on its way back. -/
theorem Tallied.moved (ht : p.Tallied) (hp : p.Reachable) {m : Motion (Job W)}
    (hs : Workshop.Step p.shop m p'.shop) (hm : m.begun = [] ∧ m.engages = [] ∧ m.ends = [])
    (hw : p'.world = p.world) (hrecorded : p'.recorded = p.recorded)
    (hjobs : (p.claimed ++ m.abandoned ++ p.parting.map Parting.job).Perm
      (p'.claimed ++ m.offered ++ p'.parting.map Parting.job)) : p'.Tallied := by
  obtain ⟨hbegun, hengages, hends⟩ := hm
  have hengaged := hs.engaged hp.shop.sound.1.pool
  rw [hengages, hends, List.append_nil, List.append_nil] at hengaged
  have hinside := hs.inside hp.shop
  rw [hbegun, List.append_nil] at hinside
  refine ⟨?_, ?_, ?_⟩
  · classical
    refine List.perm_iff_count.mpr fun a => ?_
    have hunbegun := ht.unbegun.count_eq a
    have hmoved := hinside.count_eq a
    have hparts := hjobs.count_eq a
    simp only [hw, List.count_append] at *
    omega
  · rw [hw]
    refine ht.underway.trans ?_
    rw [busy, busy, hrecorded]
    exact (hengaged.filter _).map _
  · rw [hrecorded]
    exact fun n hn => (hengaged.map Prod.fst).mem_iff.mp (ht.recorded hn)

section Engaged

variable {engaged rest : List (Nat × Job W)} {n : Nat} {job : Job W} {recorded : List Nat}

theorem busy_cons (hn : n ∉ recorded) :
    ((((n, job) :: rest).filter fun e => e.1 ∉ recorded).map Prod.snd) =
      job :: ((rest.filter fun e => e.1 ∉ recorded).map Prod.snd) := by
  simp [hn]

theorem ne_of_nodup (h : engaged.Perm ((n, job) :: rest)) (hnodup : (engaged.map Prod.fst).Nodup) :
    ∀ e ∈ rest, e.1 ≠ n := by
  have hnodup' := ((h.map Prod.fst).nodup_iff).mp hnodup
  exact fun e he heq => (List.nodup_cons.mp hnodup').1 (List.mem_map.mpr ⟨e, he, heq⟩)

/-- A worker that has recorded its attempt is left out. -/
theorem busy_record (h : engaged.Perm ((n, job) :: rest)) (hnodup : (engaged.map Prod.fst).Nodup)
    (hn : n ∉ recorded) : ((engaged.filter fun e => e.1 ∉ recorded).map Prod.snd).Perm
      (job :: (engaged.filter fun e => e.1 ∉ n :: recorded).map Prod.snd) := by
  have hrest : (rest.filter fun e => e.1 ∉ n :: recorded) = rest.filter fun e => e.1 ∉ recorded :=
    List.filter_congr fun e he => by simp [ne_of_nodup h hnodup e he]
  have hafter := (h.filter fun e => e.1 ∉ n :: recorded).map Prod.snd
  rw [List.filter_cons_of_neg (by simp), hrest] at hafter
  have hbefore := (h.filter fun e => e.1 ∉ recorded).map Prod.snd
  rw [busy_cons hn] at hbefore
  exact hbefore.trans (hafter.symm.cons job)

/-- It was left out already when it ends its job. -/
theorem busy_complete (h : engaged.Perm ((n, job) :: rest)) (hnodup : (engaged.map Prod.fst).Nodup)
    (hn : n ∈ recorded) : ((engaged.filter fun e => e.1 ∉ recorded).map Prod.snd).Perm
      ((rest.filter fun e => e.1 ∉ recorded.filter fun m => m ≠ n).map Prod.snd) := by
  have hrest : (rest.filter fun e => e.1 ∉ recorded.filter fun m => m ≠ n) =
      rest.filter fun e => e.1 ∉ recorded :=
    List.filter_congr fun e he => by simp [ne_of_nodup h hnodup e he]
  have hbefore := (h.filter fun e => e.1 ∉ recorded).map Prod.snd
  rwa [List.filter_cons_of_neg (by simpa using hn), ← hrest] at hbefore

end Engaged

section Workers

variable {n : Nat} {job : Job W} {w : World W} {s : Workshop (Job W)}

/-- A job that a worker begins leaves the channel, and the worker is among the busy ones. -/
theorem Tallied.begin (ht : p.Tallied) (hp : p.Reachable) {startedAt : Instant}
    (hs : Workshop.Step p.shop (.begin n job) s)
    (h : World.Step p.world (.attempt job startedAt) w) :
    Tallied { p with world := w, shop := s } := by
  obtain ⟨hunbegun, hunderway⟩ := h.unbegun_of_attempt
  have hinside := hs.inside hp.shop
  have hengaged := hs.engaged hp.shop.sound.1.pool
  simp only [Motion.offered, Motion.begun, Motion.abandoned, Motion.engages, Motion.ends,
    List.append_nil] at hinside hengaged
  have hengaged' := (List.perm_append_singleton _ _).symm.trans hengaged
  -- who has recorded an attempt is busy, and this worker was idle
  have hfree : n ∉ p.recorded := fun hn => by
    have hnodup :=
      ((hengaged'.map Prod.fst).nodup_iff).mpr (hp.shop.step hs).sound.1.pool.nodup_engaged
    exact (List.nodup_cons.mp hnodup).1 (ht.recorded hn)
  refine ⟨?_, ?_, ?_⟩
  · classical
    refine List.perm_iff_count.mpr fun a => ?_
    have hall := ht.unbegun.count_eq a
    have hout := hunbegun.count_eq a
    have hin := hinside.count_eq a
    simp only [List.count_append, List.count_cons, List.count_nil] at *
    omega
  · refine hunderway.trans ((ht.underway.cons job).trans ?_)
    rw [busy, ← busy_cons hfree]
    exact (hengaged'.filter _).map _
  · intro m hm
    exact (hengaged'.map Prod.fst).mem_iff.mp (List.mem_cons_of_mem _ (ht.recorded hm))

/-- A worker that records its attempt is busy for the pool only. -/
theorem Tallied.record (ht : p.Tallied) (hp : p.Reachable) {work : W} {a : Attempt} {now : Instant}
    (hbusy : p.shop.pool.jobOf? n = some job) (hn : n ∉ p.recorded)
    (h : World.Step p.world (.finish job work a now) w) :
    Tallied { p with world := w, recorded := n :: p.recorded } := by
  have hsound := hp.shop.sound.1.pool
  obtain ⟨hunbegun, hunderway⟩ := h.underway_of_finish
  have hmem := hsound.jobOf?_eq_some.mp hbusy
  refine ⟨by rw [hunbegun]; exact ht.unbegun, ?_, ?_⟩
  · obtain ⟨before, after, hsplit⟩ := List.append_of_mem hmem
    have hbusy' := busy_record (hsplit ▸ List.perm_middle) hsound.nodup_engaged hn
    exact (List.perm_cons job).mp (hunderway.symm.trans (ht.underway.trans hbusy'))
  · rintro m hm
    rcases List.mem_cons.mp hm with rfl | hm
    · exact List.mem_map_of_mem hmem
    · exact ht.recorded hm

/-- A worker that ends its job has recorded it. -/
theorem Tallied.complete (ht : p.Tallied) (hp : p.Reachable) (hn : n ∈ p.recorded)
    (hs : Workshop.Step p.shop (.complete n job) s) :
    Tallied { p with shop := s, recorded := p.recorded.filter fun m => m ≠ n } := by
  have hsound := hp.shop.sound.1.pool
  have hinside := hs.inside hp.shop
  have hengaged := hs.engaged hsound
  simp only [Motion.offered, Motion.begun, Motion.abandoned, Motion.engages, Motion.ends,
    List.append_nil] at hinside hengaged
  have hengaged' := hengaged.trans (List.perm_append_singleton _ _)
  refine ⟨?_, ?_, ?_⟩
  · exact ht.unbegun.trans ((hinside.append_left _).append_right _)
  · exact ht.underway.trans (busy_complete hengaged' hsound.nodup_engaged hn)
  · intro m hm
    obtain ⟨hm, hne⟩ := List.mem_filter.mp hm
    have hmem := (hengaged'.map Prod.fst).mem_iff.mp (ht.recorded hm)
    exact (List.mem_cons.mp hmem).resolve_left (by simpa using hne)

end Workers

theorem Step.tallied (h : Step p x p') (hp : p.Reachable) (ht : p.Tallied) : p'.Tallied := by
  cases h with
  | call hd h =>
    have hjobs := h.jobs_of_call hd
    refine ⟨?_, ?_, ht.recorded⟩
    · rw [World.unbegun, hjobs]
      exact ht.unbegun
    · rw [World.underway, hjobs]
      exact ht.underway
  | claim h =>
    obtain ⟨hunbegun, hunderway⟩ := h.unbegun_of_claim
    refine ⟨?_, by rw [hunderway]; exact ht.underway, ht.recorded⟩
    classical
    refine List.perm_iff_count.mpr fun a => ?_
    have := ht.unbegun.count_eq a
    simp only [hunbegun, List.count_append] at *
    omega
  | @offer before after job s h hs =>
    refine ht.moved hp hs ⟨rfl, rfl, rfl⟩ rfl rfl ?_
    simp only [h, Motion.offered, Motion.abandoned, List.append_nil]
    refine List.Perm.append_right _ ?_
    exact List.perm_middle.trans (List.perm_append_singleton _ _).symm
  | move hm _ hs =>
    obtain ⟨hoffered, hbegun, habandoned, -, hengages, hends⟩ := Motion.of_isQuiet hm
    refine ht.moved hp hs ⟨hbegun, hengages, hends⟩ rfl rfl ?_
    rw [hoffered, habandoned]
  | turnBack hm _ hs =>
    obtain ⟨hoffered, hbegun, hengages, hends, -⟩ := Motion.of_abandoned hm
    refine ht.moved hp hs ⟨hbegun, hengages, hends⟩ rfl rfl ?_
    simp only [hoffered, hm, List.map_append, List.append_assoc, List.nil_append]
    exact List.perm_append_comm.append_left _
  | begin hs h => exact ht.begin hp hs h
  | @handBack before after y now w hy h =>
    obtain ⟨hunbegun, hunderway⟩ := h.unbegun_of_abandon
    refine ⟨?_, by rw [hunderway]; exact ht.underway, ht.recorded⟩
    classical
    refine List.perm_iff_count.mpr fun a => ?_
    have hall := ht.unbegun.count_eq a
    have hout := hunbegun.count_eq a
    simp only [hy, List.map_append, List.map_cons, List.count_append, List.count_cons] at *
    omega
  | record hbusy hn h => exact ht.record hp hbusy hn h
  | complete hn hs => exact ht.complete hp hn hs

theorem Reachable.tallied (hp : p.Reachable) : p.Tallied :=
  hp.induction (fun _ => Tallied.opens) fun _ _ _ hp h ih => h.tallied hp ih

end Plant

end Timetable
