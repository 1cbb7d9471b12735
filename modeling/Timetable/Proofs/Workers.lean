import Mathlib.Data.List.Nodup
import Timetable.Pool
import Timetable.Proofs.ReadyQueue

/-!
# The workers of a pool

No two workers of a pool have one number, and the counts that a pool keeps of itself are those of
its workers and of its channel. What a step does to the pool is said by one lemma for each step.
-/
namespace Timetable

namespace Pool

variable {J : Type} {p p' : Pool J} {n : Nat} {job : J}

/-- The numbers of the workers. -/
def numbers (p : Pool J) : List Nat := p.workers.map Worker.number

/-- The counts are true, and every worker has a number of its own. -/
structure Sound (p : Pool J) : Prop where
  distinct : p.numbers.Nodup
  known : ∀ m ∈ p.numbers, m < p.hired
  live : p.counts.live = p.workers.length
  idle : p.counts.idle = p.idleWorkers.length
  active : p.counts.active = p.activeJobs.length
  queued : p.counts.queued = p.waiting.length

theorem worker?_eq_some {w : Worker J} (h : p.worker? n = some w) :
    w.number = n ∧ ∃ before after, p.workers = before ++ w :: after := by
  obtain ⟨hn, before, after, hsplit, -⟩ := List.find?_eq_some_iff_append.mp h
  exact ⟨by simpa using hn, before, after, hsplit⟩

theorem worker?_eq_none : p.worker? n = none ↔ n ∉ p.numbers := by
  simp [worker?, numbers]

theorem Sound.number_ne (h : p.Sound) {before after : List (Worker J)} {w v : Worker J}
    (hw : p.workers = before ++ w :: after) (hv : v ∈ before ++ after) : v.number ≠ w.number := by
  have hdistinct := h.distinct
  rw [numbers, hw, List.map_append, List.map_cons] at hdistinct
  have hmiddle := List.nodup_middle.mp hdistinct
  rw [← List.map_append] at hmiddle
  intro e
  exact (List.nodup_cons.mp hmiddle).1 (e ▸ List.mem_map_of_mem hv)

/-- A job given to a worker, or taken from it, changes that worker alone. -/
theorem Sound.assign_eq (h : p.Sound) {before after : List (Worker J)} {w : Worker J}
    (hw : p.workers = before ++ w :: after) (job : Option J) :
    p.assign w.number job = before ++ { w with job := job } :: after := by
  have hsame (l : List (Worker J)) (hl : ∀ v ∈ l, v.number ≠ w.number) :
      (l.map fun v => if v.number = w.number then { v with job := job } else v) = l :=
    (List.map_congr_left fun v hv => if_neg (hl v hv)).trans (List.map_id l)
  rw [assign, hw, List.map_append, List.map_cons, if_pos rfl,
    hsame before fun v hv => h.number_ne hw (List.mem_append_left _ hv),
    hsame after fun v hv => h.number_ne hw (List.mem_append_right _ hv)]

/-! ## Sending -/

theorem post?_eq_some (h : p.post? job = some p') : p.isOpen = true ∧ p' = { p with
    waiting := p.waiting ++ [job]
    counts :=
      { p.counts with queued := p.counts.queued + 1, submitted := p.counts.submitted + 1 } } := by
  rw [post?] at h
  split at h
  · rename_i ho
    exact ⟨ho, (Option.some.inj h).symm⟩
  · cases h

theorem Sound.post? (hp : p.Sound) (h : p.post? job = some p') : p'.Sound := by
  obtain ⟨-, rfl⟩ := post?_eq_some h
  exact ⟨hp.distinct, hp.known, hp.live, hp.idle, hp.active, by simp [hp.queued]⟩

theorem Sound.reject (hp : p.Sound) : p.reject.Sound :=
  ⟨hp.distinct, hp.known, hp.live, hp.idle, hp.active, hp.queued⟩

/-! ## Hiring -/

theorem numbers_hire (p : Pool J) (role : WorkerRole) :
    (p.hire role).numbers = p.numbers ++ [p.hired] := by
  simp [numbers, hire]

theorem activeJobs_hire (p : Pool J) (role : WorkerRole) :
    (p.hire role).activeJobs = p.activeJobs := by
  simp [activeJobs, hire]

theorem Sound.hire (hp : p.Sound) (role : WorkerRole) : (p.hire role).Sound where
  distinct := by
    rw [numbers_hire]
    refine hp.distinct.append (List.nodup_singleton _) fun m hm he => ?_
    obtain rfl := List.mem_singleton.mp he
    exact Nat.lt_irrefl _ (hp.known _ hm)
  known m hm := by
    rw [numbers_hire] at hm
    show m < p.hired + 1
    rcases List.mem_append.mp hm with hm | hm
    · have := hp.known m hm
      omega
    · rw [List.mem_singleton.mp hm]
      omega
  live := by simp [Pool.hire, hp.live]
  idle := by simp [Pool.hire, idleWorkers, hp.idle]
  active := by
    rw [activeJobs_hire]
    exact hp.active
  queued := hp.queued

/-- A check for growth hires one worker or leaves the pool alone. -/
theorem grow_cases (p : Pool J) : p.grow = p.hire .surplus ∨ p.grow = p := by
  rw [grow]
  split
  · exact .inl rfl
  · exact .inr rfl

/-- A pool that no job has been sent to. -/
structure New (p : Pool J) : Prop extends p.Sound where
  waiting : p.waiting = []
  isOpen : p.isOpen = true
  isStopping : p.isStopping = false
  resting : p.activeJobs = []
  counts : p.counts = { live := p.counts.live, idle := p.counts.idle }

theorem New.hire (hp : p.New) (role : WorkerRole) : (p.hire role).New where
  toSound := hp.toSound.hire role
  waiting := hp.waiting
  isOpen := hp.isOpen
  isStopping := hp.isStopping
  resting := (activeJobs_hire p role).trans hp.resting
  counts := by
    have hcounts := hp.counts
    simp only [Pool.hire]
    rw [hcounts]

theorem New.hireCore (hp : p.New) (n : Nat) : (p.hireCore n).New := by
  induction n generalizing p with
  | zero => exact hp
  | succ n ih => exact ih (hp.hire .core)

theorem create_new {c : PoolConfig} (h : create c = .ok p) : p.New := by
  unfold create at h
  split at h
  · cases h
  · have hempty : ({ config := c } : Pool J).New :=
      { distinct := List.nodup_nil, known := by simp [numbers], live := rfl, idle := rfl,
        active := rfl, queued := rfl, waiting := rfl, isOpen := rfl, isStopping := rfl,
        resting := rfl, counts := rfl }
    obtain rfl := Except.ok.inj h
    exact hempty.hireCore _

/-! ## Working -/

/-- A worker that takes a job before the pool is told to shut down begins it. -/
theorem Sound.take?_begins (hp : p.Sound) {k : Pickup J} (h : p.take? n = some k)
    (hb : k.begins = true) :
    p.isStopping = false ∧ ∃ rest before w after, p.waiting = k.job :: rest ∧
      p.workers = before ++ w :: after ∧ w.number = n ∧ w.job = none ∧ k.pool = { p with
        waiting := rest
        workers := before ++ { w with job := some k.job } :: after
        counts := { p.counts with
          queued := p.counts.queued - 1
          idle := p.counts.idle - 1
          active := p.counts.active + 1 } } := by
  unfold take? at h
  split at h
  · rename_i number role job rest hw hwait
    obtain ⟨hn, before, after, hsplit⟩ := worker?_eq_some hw
    obtain rfl : number = n := hn
    split at h
    · obtain rfl := Option.some.inj h
      cases hb
    · rename_i hflag
      obtain rfl := Option.some.inj h
      refine ⟨by simpa using hflag, rest, before, _, after, hwait, hsplit, rfl, rfl, ?_⟩
      rw [← hp.assign_eq hsplit]
  · cases h

/-- A worker that takes a job afterwards hands it back. -/
theorem take?_late {k : Pickup J} (h : p.take? n = some k) (hb : k.begins = false) :
    p.isStopping = true ∧ ∃ rest, p.waiting = k.job :: rest ∧ k.pool = { p with
      waiting := rest
      counts := { p.counts with
        queued := p.counts.queued - 1
        abandoned := p.counts.abandoned + 1 } } := by
  unfold take? at h
  split at h
  · rename_i hwait
    split at h
    · rename_i hflag
      obtain rfl := Option.some.inj h
      exact ⟨hflag, _, hwait, rfl⟩
    · obtain rfl := Option.some.inj h
      cases hb
  · cases h

theorem Sound.begins (hp : p.Sound) {k : Pickup J} (h : p.take? n = some k) (hb : k.begins = true) :
    k.pool.Sound ∧ k.pool.numbers = p.numbers ∧ k.pool.activeJobs.Perm (k.job :: p.activeJobs) := by
  obtain ⟨-, rest, before, w, after, hwait, hsplit, -, hidle, hk⟩ := hp.take?_begins h hb
  have hnumbers : k.pool.numbers = p.numbers := by simp [hk, numbers, hsplit]
  have hactive : k.pool.activeJobs.Perm (k.job :: p.activeJobs) := by
    simp only [hk, activeJobs, hsplit, List.filterMap_append, List.filterMap_cons, hidle]
    exact List.perm_middle
  refine ⟨⟨?_, ?_, ?_, ?_, ?_, ?_⟩, hnumbers, hactive⟩
  · exact hnumbers ▸ hp.distinct
  · rw [hnumbers, hk]
    exact hp.known
  · simp [hk, hp.live, hsplit]
  · have := hp.idle
    simp only [hk, idleWorkers, hsplit, List.filter_append, List.filter_cons, hidle] at this ⊢
    simp only [List.map_append, List.length_append, Option.isNone_none, if_true, List.map_cons,
      List.length_cons, Option.isNone_some, Bool.false_eq_true, if_false] at this ⊢
    omega
  · rw [hactive.length_eq, hk]
    simp [hp.active]
  · simp [hk, hp.queued, hwait]

theorem Sound.late (hp : p.Sound) {k : Pickup J} (h : p.take? n = some k) (hb : k.begins = false) :
    k.pool.Sound := by
  obtain ⟨-, rest, hwait, hk⟩ := take?_late h hb
  rw [hk]
  exact ⟨hp.distinct, hp.known, hp.live, hp.idle, hp.active, by simp [hp.queued, hwait]⟩

/-- The job of the worker of that number. -/
def jobOf? (p : Pool J) (n : Nat) : Option J := (p.worker? n).bind Worker.job

/-- A busy worker ends its job and is idle again. -/
theorem Sound.complete?_eq_some (hp : p.Sound) (h : p.complete? n = some p') :
    ∃ before w after job, p.workers = before ++ w :: after ∧ w.number = n ∧ w.job = some job ∧
      p.jobOf? n = some job ∧ p' = { p with
        workers := before ++ { w with job := none } :: after
        counts := { p.counts with
          active := p.counts.active - 1
          completed := p.counts.completed + 1
          idle := p.counts.idle + 1 } } := by
  unfold complete? at h
  split at h
  · rename_i number role job hw
    obtain ⟨hn, before, after, hsplit⟩ := worker?_eq_some hw
    obtain rfl : number = n := hn
    obtain rfl := Option.some.inj h
    refine ⟨before, _, after, job, hsplit, rfl, rfl, by simp [jobOf?, hw], ?_⟩
    rw [← hp.assign_eq hsplit]
  · cases h

theorem Sound.completes (hp : p.Sound) (h : p.complete? n = some p') :
    p'.Sound ∧ p'.numbers = p.numbers ∧
      ∃ job, p.jobOf? n = some job ∧ p.activeJobs.Perm (job :: p'.activeJobs) := by
  obtain ⟨before, w, after, job, hsplit, -, hjob, hbusy, hp'⟩ := hp.complete?_eq_some h
  have hnumbers : p'.numbers = p.numbers := by simp [hp', numbers, hsplit]
  have hactive : p.activeJobs.Perm (job :: p'.activeJobs) := by
    simp only [hp', activeJobs, hsplit, List.filterMap_append, List.filterMap_cons, hjob]
    exact List.perm_middle
  refine ⟨⟨?_, ?_, ?_, ?_, ?_, ?_⟩, hnumbers, job, hbusy, hactive⟩
  · exact hnumbers ▸ hp.distinct
  · rw [hnumbers, hp']
    exact hp.known
  · simp [hp', hp.live, hsplit]
  · have := hp.idle
    simp only [hp', idleWorkers, hsplit, List.filter_append, List.filter_cons, hjob] at this ⊢
    simp only [List.map_append, List.length_append, Option.isNone_none, if_true, List.map_cons,
      List.length_cons, Option.isNone_some, Bool.false_eq_true, if_false] at this ⊢
    omega
  · have := hactive.length_eq
    rw [List.length_cons] at this
    have hold := hp.active
    simp only [hp'] at this ⊢
    omega
  · rw [hp']
    exact hp.queued

/-- A worker leaves that is idle while no job waits. -/
theorem Sound.retire?_eq_some (hp : p.Sound) (h : p.retire? n = some p') :
    ∃ before w after, p.workers = before ++ w :: after ∧ w.number = n ∧ w.job = none ∧ p' = { p with
      workers := before ++ after
      counts := { p.counts with live := p.counts.live - 1, idle := p.counts.idle - 1 } } := by
  unfold retire? at h
  split at h
  · rename_i number role hw
    obtain ⟨hn, before, after, hsplit⟩ := worker?_eq_some hw
    obtain rfl : number = n := hn
    split at h
    · have hkeep : ∀ v ∈ before ++ after, decide (v.number ≠ number) = true := fun v hv =>
        decide_eq_true (hp.number_ne hsplit hv)
      have hrest : (p.workers.filter fun v => v.number ≠ number) = before ++ after := by
        rw [← List.filter_eq_self.mpr hkeep, hsplit]
        simp
      refine ⟨before, _, after, hsplit, rfl, rfl, ?_⟩
      rw [← hrest]
      exact (Option.some.inj h).symm
    · cases h
  · cases h

theorem Sound.retires (hp : p.Sound) (h : p.retire? n = some p') :
    p'.Sound ∧ p'.numbers.Sublist p.numbers ∧ p'.activeJobs = p.activeJobs := by
  obtain ⟨before, w, after, hsplit, -, hidle, rfl⟩ := hp.retire?_eq_some h
  have hsub : ((before ++ after).map Worker.number).Sublist p.numbers := by
    rw [numbers, hsplit]
    exact ((List.sublist_cons_self w after).append_left before).map _
  refine ⟨⟨?_, ?_, ?_, ?_, ?_, ?_⟩, hsub, ?_⟩
  · exact hp.distinct.sublist hsub
  · intro m hm
    exact hp.known m (hsub.subset hm)
  · simp [hp.live, hsplit]
  · simp [hp.idle, idleWorkers, hsplit, hidle, List.filter_append]
  · simp [hp.active, activeJobs, hsplit, hidle]
  · exact hp.queued
  · simp [activeJobs, hsplit, hidle]

/-! ## Who does what -/

/-- The busy workers with their jobs. -/
def engaged (p : Pool J) : List (Nat × J) :=
  p.workers.filterMap fun w => w.job.map fun job => (w.number, job)

theorem New.engaged (hp : p.New) : p.engaged = [] := by
  have hjobs : ∀ w ∈ p.workers, w.job = none := by simpa [activeJobs] using hp.resting
  exact List.filterMap_eq_nil_iff.mpr fun w hw => by simp [hjobs w hw]

theorem mem_engaged {p : Pool J} :
    (n, job) ∈ p.engaged ↔ ∃ w ∈ p.workers, w.number = n ∧ w.job = some job := by
  simp [engaged, and_comm]

theorem Sound.nodup_engaged (hp : p.Sound) : (p.engaged.map Prod.fst).Nodup := by
  have hsub (l : List (Worker J)) :
      ((l.filterMap fun w => w.job.map fun job => (w.number, job)).map Prod.fst).Sublist
        (l.map Worker.number) := by
    induction l with
    | nil => exact List.Sublist.refl _
    | cons w l ih =>
      cases hw : w.job with
      | none => simpa [hw] using ih.cons w.number
      | some job => simpa [hw] using ih
  exact hp.distinct.sublist (hsub p.workers)

theorem Sound.jobOf?_eq_some (hp : p.Sound) : p.jobOf? n = some job ↔ (n, job) ∈ p.engaged := by
  rw [mem_engaged]
  constructor
  · intro h
    obtain ⟨w, hw, hjob⟩ := Option.bind_eq_some_iff.mp h
    exact ⟨w, List.mem_of_find?_eq_some hw, (worker?_eq_some hw).1, hjob⟩
  · rintro ⟨w, hw, hn, hjob⟩
    have hfind : p.worker? n = some w := (find?_of_nodup hp.distinct).mpr ⟨hw, hn⟩
    rw [jobOf?, hfind, Option.bind_some, hjob]

theorem engaged_hire (p : Pool J) (role : WorkerRole) : (p.hire role).engaged = p.engaged := by
  simp [engaged, hire]

theorem Sound.engaged_begins (hp : p.Sound) {k : Pickup J} (h : p.take? n = some k)
    (hb : k.begins = true) :
    k.pool.engaged.Perm ((n, k.job) :: p.engaged) := by
  obtain ⟨-, rest, before, w, after, -, hsplit, hn, hidle, hk⟩ := hp.take?_begins h hb
  simp only [hk, engaged, hsplit, List.filterMap_append, List.filterMap_cons, hidle, hn,
    Option.map_none, Option.map_some]
  exact List.perm_middle

theorem Sound.engaged_completes (hp : p.Sound) (h : p.complete? n = some p')
    (hjob : p.jobOf? n = some job) :
    p.engaged.Perm ((n, job) :: p'.engaged) := by
  obtain ⟨before, w, after, job', hsplit, hn, hw, hbusy, rfl⟩ := hp.complete?_eq_some h
  obtain rfl := Option.some.inj (hjob.symm.trans hbusy)
  simp only [engaged, hsplit, List.filterMap_append, List.filterMap_cons, hw, hn, Option.map_none,
    Option.map_some]
  exact List.perm_middle

theorem Sound.engaged_retires (hp : p.Sound) (h : p.retire? n = some p') :
    p'.engaged = p.engaged := by
  obtain ⟨before, w, after, hsplit, -, hidle, rfl⟩ := hp.retire?_eq_some h
  simp [engaged, hsplit, hidle]

/-! ## Shutting down -/

theorem Sound.raiseFlag (hp : p.Sound) : p.raiseFlag.Sound :=
  ⟨hp.distinct, hp.known, hp.live, hp.idle, hp.active, hp.queued⟩

theorem Sound.close (hp : p.Sound) : p.close.Sound :=
  ⟨hp.distinct, hp.known, hp.live, hp.idle, hp.active, hp.queued⟩

theorem drain?_eq_some (h : p.drain? = some (job, p')) :
    ∃ rest, p.waiting = job :: rest ∧ p' = { p with
    waiting := rest
    counts := { p.counts with
      queued := p.counts.queued - 1
      abandoned := p.counts.abandoned + 1 } } := by
  unfold drain? at h
  split at h
  · cases h
  · rename_i hwait
    obtain ⟨rfl, rfl⟩ := Prod.mk.inj (Option.some.inj h)
    exact ⟨_, hwait, rfl⟩

theorem Sound.drain? (hp : p.Sound) (h : p.drain? = some (job, p')) : p'.Sound := by
  obtain ⟨rest, hwait, rfl⟩ := drain?_eq_some h
  exact ⟨hp.distinct, hp.known, hp.live, hp.idle, hp.active, by simp [hp.queued, hwait]⟩

end Pool

end Timetable
