import Timetable.Proofs.Workshop

/-!
# Conservation of jobs

Every job passed to a pool is in one place at any moment: with its call, in the channel, with the
executor to be executed, or with the executor to be abandoned. The counts of the pool say how many
are where.
-/
namespace Timetable

namespace Workshop

variable {J : Type}

/-! ## Where the jobs are -/

/-- Every job is in one place, and jobs begin in the order in which they were sent. -/
structure Accounted (s : Workshop J) : Prop where
  pool : s.pool.Sound
  offered :
    s.offered.Perm (s.calls.filterMap Submission.job? ++ s.pool.waiting ++ s.begun ++ s.abandoned)
  begun : s.begun.Perm (s.pool.activeJobs ++ s.executed)
  /-- Jobs sent and then handed back come after all that have begun. -/
  accepted : ∃ late, s.accepted = s.begun ++ late ++ s.pool.waiting ∧
    s.abandoned.Perm (s.rejected ++ late) ∧ (s.pool.isStopping = false → late = [])
  submitted : s.pool.counts.submitted = s.accepted.length
  completed : s.pool.counts.completed = s.executed.length
  abandoned : s.pool.counts.abandoned = s.abandoned.length

variable {s s' : Workshop J} {m : Motion J}

theorem Accounted.opened {c : PoolConfig} {p : Pool J} (h : Pool.create c = .ok p) :
    (Workshop.opened p).Accounted := by
  have hp := Pool.create_new h
  have hcounts := hp.counts
  refine ⟨hp.toSound, ?_, ?_, ⟨[], ?_, List.Perm.refl _, fun _ => rfl⟩, ?_, ?_, ?_⟩
  · simp [Workshop.opened, hp.waiting]
  · simp [Workshop.opened, hp.resting]
  · simp [Workshop.opened, hp.waiting]
  all_goals
    show _ = 0
    rw [Workshop.opened, hcounts]

/-- The jobs of the calls under way, one of which holds that job. -/
theorem calls_perm {before after : List (Submission J)} {c : Submission J} {job : J}
    (h : s.calls = before ++ c :: after) (hc : c.job? = some job) :
    (s.calls.filterMap Submission.job?).Perm
      (job :: (before ++ after).filterMap Submission.job?) := by
  rw [h, List.filterMap_append, List.filterMap_cons, hc, List.filterMap_append]
  exact List.perm_middle

/-- The jobs of the calls under way, one of which holds none. -/
theorem calls_eq {before after : List (Submission J)} {c : Submission J}
    (h : s.calls = before ++ c :: after) (hc : c.job? = none) :
    s.calls.filterMap Submission.job? = (before ++ after).filterMap Submission.job? := by
  rw [h, List.filterMap_append, List.filterMap_cons, hc, List.filterMap_append]

theorem Accounted.turnAway (hs : s.Accounted) {before after : List (Submission J)}
    {c : Submission J} {job : J} (h : s.calls = before ++ c :: after) (hc : c.job? = some job) :
    (s.turnAway (before ++ after) job).Accounted where
  pool := hs.pool.reject
  offered := by
    classical
    refine List.perm_iff_count.mpr fun a => ?_
    have hoffered := hs.offered.count_eq a
    have hcalls := (calls_perm h hc).count_eq a
    simp only [Workshop.turnAway, Pool.reject, List.count_append, List.count_cons,
      List.count_nil] at *
    omega
  begun := hs.begun
  accepted := by
    obtain ⟨late, haccepted, habandoned, hlate⟩ := hs.accepted
    refine ⟨late, haccepted, ?_, hlate⟩
    show (s.abandoned ++ [job]).Perm (s.rejected ++ [job] ++ late)
    classical
    refine List.perm_iff_count.mpr fun a => ?_
    have := habandoned.count_eq a
    simp only [List.count_append] at *
    omega
  submitted := hs.submitted
  completed := hs.completed
  abandoned := by simp [Workshop.turnAway, Pool.reject, hs.abandoned]

/-- A job that leaves the channel to be abandoned. -/
theorem Accounted.drop (hs : s.Accounted) {job : J} {rest : List J} {p : Pool J} (hp : p.Sound)
    (hflag : s.pool.isStopping = true) (hwait : s.pool.waiting = job :: rest)
    (h : p = { s.pool with
      waiting := rest
      counts := { s.pool.counts with
        queued := s.pool.counts.queued - 1
        abandoned := s.pool.counts.abandoned + 1 } }) :
    Accounted { s with pool := p, abandoned := s.abandoned ++ [job] } where
  pool := hp
  offered := by
    classical
    refine List.perm_iff_count.mpr fun a => ?_
    have := hs.offered.count_eq a
    simp only [h, hwait, List.count_append, List.count_cons, List.count_nil] at *
    omega
  begun := by
    rw [h]
    exact hs.begun
  accepted := by
    obtain ⟨late, haccepted, habandoned, -⟩ := hs.accepted
    refine ⟨late ++ [job], ?_, ?_, fun e => ?_⟩
    · simp [h, haccepted, hwait]
    · rw [← List.append_assoc]
      exact habandoned.append_right [job]
    · rw [h] at e
      exact absurd (hflag.symm.trans e) (by decide)
  submitted := by
    rw [h]
    exact hs.submitted
  completed := by
    rw [h]
    exact hs.completed
  abandoned := by simp [h, hs.abandoned]

/-- A job that its call sends. -/
theorem Accounted.post (hs : s.Accounted) {before after : List (Submission J)}
    {job : J} {p : Pool J}
    (h : s.calls = before ++ .admitted job :: after) (hp : s.pool.post? job = some p) :
    Accounted { s with
      pool := p, calls := before ++ .sent :: after, accepted := s.accepted ++ [job] } := by
  obtain ⟨late, haccepted, habandoned, hlate⟩ := hs.accepted
  have hsound := hs.pool.post? hp
  obtain ⟨-, rfl⟩ := Pool.post?_eq_some hp
  refine ⟨hsound, ?_, hs.begun, ⟨late, ?_, habandoned, hlate⟩, ?_, hs.completed, hs.abandoned⟩
  · classical
    refine List.perm_iff_count.mpr fun a => ?_
    have hoffered := hs.offered.count_eq a
    have hcalls := (calls_perm h rfl).count_eq a
    simp only [List.filterMap_append, List.filterMap_cons, Submission.job?, List.count_append,
      List.count_cons, List.count_nil] at *
    omega
  · simp [haccepted]
  · simp [hs.submitted]

/-- A job that a worker begins. -/
theorem Accounted.begin (hs : s.Accounted) {n : Nat} {k : Pickup J} (h : s.pool.take? n = some k)
    (hb : k.begins = true) : Accounted { s with pool := k.pool, begun := s.begun ++ [k.job] } := by
  obtain ⟨late, haccepted, habandoned, hlate⟩ := hs.accepted
  obtain ⟨hsound, -, hactive⟩ := hs.pool.begins h hb
  obtain ⟨hflag, rest, before, w, after, hwait, -, -, -, hk⟩ := hs.pool.take?_begins h hb
  -- before the flag is raised nothing leaves the channel but to begin
  obtain rfl := hlate hflag
  refine ⟨hsound, ?_, ?_, ⟨[], ?_, habandoned, fun _ => rfl⟩, ?_, ?_, ?_⟩
  · classical
    refine List.perm_iff_count.mpr fun a => ?_
    have := hs.offered.count_eq a
    simp only [hk, hwait, List.count_append, List.count_cons, List.count_nil] at *
    omega
  · refine (List.perm_append_singleton _ _).trans ((hs.begun.cons _).trans ?_)
    exact hactive.symm.append_right _
  · simp [hk, haccepted, hwait]
  · rw [hk]
    exact hs.submitted
  · rw [hk]
    exact hs.completed
  · rw [hk]
    exact hs.abandoned

/-- A job that has returned or panicked. -/
theorem Accounted.complete (hs : s.Accounted) {n : Nat} {job : J} {p : Pool J}
    (hbusy : s.pool.jobOf? n = some job) (h : s.pool.complete? n = some p) :
    Accounted { s with pool := p, executed := s.executed ++ [job] } := by
  obtain ⟨hsound, -, job', hbusy', hactive⟩ := hs.pool.completes h
  obtain rfl := Option.some.inj (hbusy.symm.trans hbusy')
  obtain ⟨before, w, after, -, -, -, -, -, rfl⟩ := hs.pool.complete?_eq_some h
  refine ⟨hsound, hs.offered, ?_, hs.accepted, hs.submitted, ?_, hs.abandoned⟩
  · refine hs.begun.trans ((hactive.append_right _).trans ?_)
    classical
    refine List.perm_iff_count.mpr fun a => ?_
    simp only [List.count_append, List.count_cons, List.count_nil, List.cons_append]
    omega
  · simp [hs.completed]

theorem Step.accounted (h : Step s m s') (hs : s.Accounted)
    (hflag : s.closing = .closed → s.pool.isStopping) :
    s'.Accounted := by
  obtain ⟨late, haccepted, habandoned, hlate⟩ := hs.accepted
  cases h with
  | offer job =>
    refine { hs with offered := ?_ }
    classical
    refine List.perm_iff_count.mpr fun a => ?_
    have := hs.offered.count_eq a
    simp only [List.filterMap_append, List.filterMap_cons, List.filterMap_nil, Submission.job?,
      List.count_append] at *
    omega
  | @pass before after job h hflag =>
    refine { hs with offered := ?_ }
    have hcalls : s.calls.filterMap Submission.job? =
        (before ++ .admitted job :: after).filterMap Submission.job? := by
      simp [h, Submission.job?]
    exact hcalls ▸ hs.offered
  | refuse h => exact hs.turnAway h rfl
  | bounce h => exact hs.turnAway h rfl
  | post h hp => exact hs.post h hp
  | @grow before after h =>
    have hcalls : s.calls.filterMap Submission.job? =
        (before ++ (Submission.grown s.pool ++ after)).filterMap Submission.job? := by
      rw [calls_eq h rfl, List.filterMap_append, List.filterMap_append, List.filterMap_append,
        Submission.grown]
      split <;> rfl
    rcases s.pool.grow_cases with hg | hg
    · rw [hg]
      exact ⟨hs.pool.hire _, hcalls ▸ hs.offered, (Pool.activeJobs_hire _ _).symm ▸ hs.begun,
        hs.accepted, hs.submitted, hs.completed, hs.abandoned⟩
    · rw [hg]
      exact { hs with offered := hcalls ▸ hs.offered }
  | register h => exact { hs with offered := calls_eq h rfl ▸ hs.offered }
  | begin h hb => exact hs.begin h hb
  | late h hb =>
    obtain ⟨hflag, rest, hwait, hk⟩ := Pool.take?_late h hb
    exact hs.drop (hs.pool.late h hb) hflag hwait hk
  | complete hbusy h => exact hs.complete hbusy h
  | retire h =>
    obtain ⟨hsound, -, hactive⟩ := hs.pool.retires h
    obtain ⟨_, _, _, -, -, -, rfl⟩ := hs.pool.retire?_eq_some h
    exact { hs with pool := hsound, begun := hactive.symm ▸ hs.begun }
  | raise h =>
    refine { hs with pool := hs.pool.raiseFlag,
                     accepted := ⟨late, haccepted, habandoned, fun e => ?_⟩ }
    cases e
  | close h => exact { hs with pool := hs.pool.close }
  | drain h hp =>
    obtain ⟨rest, hwait, hk⟩ := Pool.drain?_eq_some hp
    exact hs.drop (hs.pool.drain? hp) (hflag h) hwait hk
  | collect | join | expire | again => exact { hs with }

/-! ## How far the shutdown has come -/

/-- What each stage of the shutdown leaves behind. -/
structure Staged (s : Workshop J) : Prop where
  flag : s.pool.isStopping = true ↔ 1 ≤ s.closing.stage
  shut : 2 ≤ s.closing.stage → s.pool.isOpen = false
  drained : 3 ≤ s.closing.stage → s.pool.waiting = []
  /-- Until the call gives up, every worker's handle is somewhere. -/
  held : s.closing ≠ .returned false → ∀ n ∈ s.pool.numbers,
    n ∈ s.handles ∨ n ∈ s.closing.awaited ∨ .hired n ∈ s.calls

theorem Staged.opened {c : PoolConfig} {p : Pool J} (h : Pool.create c = .ok p) :
    (Workshop.opened p).Staged where
  flag := by simp [Workshop.opened, Closing.stage, (Pool.create_new h).isStopping]
  shut hstage := by cases hstage
  drained hstage := by cases hstage
  held _ n hn := .inl hn

/-- Where a worker's handle is, if the call has not given up. -/
def Held (s : Workshop J) (n : Nat) : Prop :=
  n ∈ s.handles ∨ n ∈ s.closing.awaited ∨ .hired n ∈ s.calls

/-- A step that is not one of the shutdown. -/
theorem Staged.keep (hs : s.Staged) (hclosing : s'.closing = s.closing)
    (hflag : s'.pool.isStopping = s.pool.isStopping) (hopen : s'.pool.isOpen = s.pool.isOpen)
    (hwait : s.pool.isOpen = false → s.pool.waiting = [] → s'.pool.waiting = [])
    (hheld : ∀ n ∈ s'.pool.numbers, (n ∈ s.pool.numbers → s.Held n) → s'.Held n) : s'.Staged where
  flag := by
    rw [hflag, hclosing]
    exact hs.flag
  shut := by
    rw [hopen, hclosing]
    exact hs.shut
  drained hstage := by
    rw [hclosing] at hstage
    exact hwait (hs.shut (by omega)) (hs.drained hstage)
  held hne n hn := hheld n hn (hs.held (hclosing ▸ hne) n)

/-- A job that is taken out of the channel had not been drained before. -/
theorem Staged.taken (hs : s.Staged) {job : J} {rest : List J}
    (hwait : s.pool.waiting = job :: rest) (hclosing : s'.closing = s.closing)
    (hflag : s'.pool.isStopping = s.pool.isStopping) (hopen : s'.pool.isOpen = s.pool.isOpen)
    (hheld : ∀ n ∈ s'.pool.numbers, (n ∈ s.pool.numbers → s.Held n) → s'.Held n) : s'.Staged :=
  hs.keep hclosing hflag hopen (fun _ e => by rw [hwait] at e; cases e) hheld

/-- A step that touches the calls only in one that has hired nobody. -/
theorem Held.of_calls {n : Nat} (h : s.Held n) {before after : List (Submission J)}
    {c : Submission J}
    (hcalls : s.calls = before ++ c :: after) (hc : ∀ n, c ≠ .hired n) (rest : List (Submission J))
    (hcalls' : s'.calls = before ++ (rest ++ after)) (hhandles : s'.handles = s.handles)
    (hclosing : s'.closing = s.closing) : s'.Held n := by
  rw [Held, hhandles, hclosing, hcalls']
  exact h.imp_right (Or.imp_right fun hmem => mem_of_replaced hcalls hmem (hc n).symm rest)

/-- The handle of a worker that has just been hired is with the call that has hired it. -/
theorem Staged.grow (hs : s.Staged) {before after : List (Submission J)}
    (h : s.calls = before ++ .sent :: after) :
    Staged
      { s with pool := s.pool.grow, calls := before ++ (Submission.grown s.pool ++ after) } := by
  rcases s.pool.grow_cases with hg | hg
  · have hgrown : Submission.grown s.pool = [.hired s.pool.hired] := by
      simp [Submission.grown, hg, Pool.hire]
    rw [hg, hgrown]
    refine hs.keep rfl rfl rfl (fun _ e => e) fun n hn hold => ?_
    rw [Pool.numbers_hire] at hn
    rcases List.mem_append.mp hn with hn | hn
    · exact (hold hn).of_calls h (by simp) [.hired s.pool.hired] rfl rfl rfl
    · rw [List.mem_singleton.mp hn]
      exact .inr (.inr (by simp))
  · have hgrown : (Submission.grown s.pool : List (Submission J)) = [] := by
      simp [Submission.grown, hg]
    rw [hg, hgrown]
    exact hs.keep rfl rfl rfl (fun _ e => e) fun n hn hold =>
      (hold hn).of_calls h (by simp) [] rfl rfl rfl

theorem Step.staged (h : Step s m s') (hp : s.pool.Sound) (hs : s.Staged) : s'.Staged := by
  cases h with
  | offer job =>
    exact hs.keep rfl rfl rfl (fun _ e => e) fun n hn hold =>
      (hold hn).imp_right (Or.imp_right (List.mem_append_left _))
  | @pass before after job h hflag =>
    exact hs.keep rfl rfl rfl (fun _ e => e) fun n hn hold =>
      (hold hn).of_calls h (by simp) [.admitted job] rfl rfl rfl
  | @refuse before after job h =>
    exact hs.keep rfl rfl rfl (fun _ e => e) fun n hn hold =>
      (hold hn).of_calls h (by simp) [] rfl rfl rfl
  | @bounce before after job h =>
    exact hs.keep rfl rfl rfl (fun _ e => e) fun n hn hold =>
      (hold hn).of_calls h (by simp) [] rfl rfl rfl
  | @post before after job p h hpost =>
    obtain ⟨hopen, rfl⟩ := Pool.post?_eq_some hpost
    exact hs.keep rfl rfl rfl (fun e => absurd (hopen.symm.trans e) (by decide)) fun n hn hold =>
      (hold hn).of_calls h (by simp) [.sent] rfl rfl rfl
  | grow h => exact hs.grow h
  | @register before after n h =>
    refine hs.keep rfl rfl rfl (fun _ e => e) fun m hm hold => ?_
    rcases hold hm with hhandle | hawaited | hcall
    · have hlive : (s.pool.worker? m).isSome = true := by
        rw [Option.isSome_iff_ne_none, ne_eq, Pool.worker?_eq_none]
        exact fun hgone => hgone hm
      exact .inl (List.mem_append_left _ (List.mem_filter.mpr ⟨hhandle, hlive⟩))
    · exact .inr (.inl hawaited)
    · by_cases e : m = n
      · exact .inl (by simp [e])
      · exact .inr (.inr (by simpa [h, e] using hcall))
  | @begin n k h hb =>
    obtain ⟨-, hnumbers, -⟩ := hp.begins h hb
    obtain ⟨-, rest, before, w, after, hwait, -, -, -, hk⟩ := hp.take?_begins h hb
    exact hs.taken hwait rfl (by rw [hk]) (by rw [hk]) fun m hm hold => hold (hnumbers ▸ hm)
  | late h hb =>
    obtain ⟨-, rest, hwait, hk⟩ := Pool.take?_late h hb
    exact hs.taken hwait rfl (by rw [hk]) (by rw [hk]) fun m hm hold => hold (by rwa [hk] at hm)
  | @complete n job p hbusy h =>
    obtain ⟨-, hnumbers, -⟩ := hp.completes h
    obtain ⟨before, w, after, -, -, -, -, -, hp'⟩ := hp.complete?_eq_some h
    exact hs.keep rfl (by rw [hp']) (by rw [hp']) (fun _ e => by rw [hp']; exact e) fun m hm hold =>
      hold (hnumbers ▸ hm)
  | retire h =>
    obtain ⟨-, hnumbers, -⟩ := hp.retires h
    obtain ⟨before, w, after, -, -, -, hp'⟩ := hp.retire?_eq_some h
    exact hs.keep rfl (by rw [hp']) (by rw [hp']) (fun _ e => by rw [hp']; exact e) fun m hm hold =>
      hold (hnumbers.subset hm)
  | drain h hdrain =>
    obtain ⟨rest, hwait, hk⟩ := Pool.drain?_eq_some hdrain
    exact hs.taken hwait rfl (by rw [hk]) (by rw [hk]) fun m hm hold => hold (by rwa [hk] at hm)
  | again => exact hs.keep rfl rfl rfl (fun _ e => e) fun n hn hold => hold hn
  | raise h =>
    have hstage : s.closing.stage = 0 := by
      have := hs.flag
      rw [h] at this
      simpa using this
    have huncalled : s.closing = .uncalled := by
      cases hc : s.closing <;> simp [hc, Closing.stage] at hstage ⊢
    refine ⟨by simp [Pool.raiseFlag, Closing.stage], by simp [Closing.stage],
      by simp [Closing.stage], fun _ n hn => ?_⟩
    have hheld := hs.held (by simp [huncalled]) n hn
    rwa [huncalled] at hheld
  | close h =>
    have hflag : s.pool.isStopping = true := hs.flag.mpr (by simp [h, Closing.stage])
    refine ⟨by simp [Pool.close, Closing.stage, hflag], fun _ => rfl, by simp [Closing.stage],
      fun _ n hn => ?_⟩
    have hheld := hs.held (by simp [h]) n hn
    rwa [h] at hheld
  | collect h hempty =>
    have hflag : s.pool.isStopping = true := hs.flag.mpr (by simp [h, Closing.stage])
    refine ⟨by simp [Closing.stage, hflag], fun _ => hs.shut (by simp [h, Closing.stage]),
      fun _ => hempty, fun _ n hn => ?_⟩
    rcases hs.held (by simp [h]) n hn with hhandle | hawaited | hcall
    · exact .inr (.inl hhandle)
    · simp [h, Closing.awaited] at hawaited
    · exact .inr (.inr hcall)
  | @join awaited h hgone =>
    have hflag : s.pool.isStopping = true := hs.flag.mpr (by simp [h, Closing.stage])
    refine ⟨by simp [Closing.stage, hflag], fun _ => hs.shut (by simp [h, Closing.stage]),
      fun _ => hs.drained (by simp [h, Closing.stage]), fun _ n hn => ?_⟩
    rcases hs.held (by simp [h]) n hn with hhandle | hawaited | hcall
    · exact .inl hhandle
    · rw [h] at hawaited
      exact absurd hn (Pool.worker?_eq_none.mp (hgone n hawaited))
    · exact .inr (.inr hcall)
  | expire h =>
    have hflag : s.pool.isStopping = true := hs.flag.mpr (by simp [h, Closing.stage])
    exact ⟨by simp [Closing.stage, hflag], fun _ => hs.shut (by simp [h, Closing.stage]),
      fun _ => hs.drained (by simp [h, Closing.stage]), fun hne => absurd rfl hne⟩

/-! ## Conservation -/

theorem Reachable.sound (hs : s.Reachable) : s.Accounted ∧ s.Staged := by
  refine hs.induction (motive := fun s => s.Accounted ∧ s.Staged)
    (fun c p hp => ⟨.opened hp, .opened hp⟩) fun s m s' h ih => ?_
  · obtain ⟨haccounted, hstaged⟩ := ih
    have hflag (hc : s.closing = .closed) : s.pool.isStopping :=
      hstaged.flag.mpr (by simp [hc, Closing.stage])
    exact ⟨h.accounted haccounted hflag, h.staged haccounted.pool hstaged⟩

/-- What becomes of the jobs passed to a pool. -/
structure Conserved (s : Workshop J) : Prop where
  /-- Each is still with its call, or waits, or was given to the executor once, either to be
  executed or to be abandoned. -/
  offered :
    s.offered.Perm (s.calls.filterMap Submission.job? ++ s.pool.waiting ++ s.begun ++ s.abandoned)
  begun : s.begun.Perm (s.pool.activeJobs ++ s.executed)
  /-- They begin in the order in which they were sent. -/
  inOrder : s.begun <+: s.accepted
  active : s.pool.counts.active = s.pool.activeJobs.length
  queued : s.pool.counts.queued = s.pool.waiting.length
  completed : s.pool.counts.completed = s.executed.length
  abandoned : s.pool.counts.abandoned = s.abandoned.length
  submitted : s.pool.counts.submitted = s.accepted.length
  balance : s.pool.counts.submitted + s.rejected.length =
    s.pool.counts.completed + s.pool.counts.active + s.pool.counts.queued + s.pool.counts.abandoned
  /-- When the shutdown has succeeded and no call is under way, nothing waits. -/
  ended : s.closing = .returned true → s.calls = [] →
    s.pool.counts.queued = 0 ∧ s.offered.Perm (s.begun ++ s.abandoned)
  /-- If no handle has come in that the shutdown has not waited for, nothing is executed either. -/
  rested : s.closing = .returned true → s.calls = [] → s.handles = [] →
    s.pool.counts.active = 0 ∧ s.offered.Perm (s.executed ++ s.abandoned)

/-- Jobs are conserved at every moment of every run, with a shutdown at any time. -/
theorem Reachable.jobs_conserved (hs : s.Reachable) : s.Conserved := by
  obtain ⟨ha, hst⟩ := hs.sound
  obtain ⟨late, haccepted, habandoned, -⟩ := ha.accepted
  have hended (hc : s.closing = .returned true) (hcalls : s.calls = []) :
      s.pool.waiting = [] ∧ s.offered.Perm (s.begun ++ s.abandoned) := by
    have hwait := hst.drained (by simp [hc, Closing.stage])
    have hoffered := ha.offered
    rw [hcalls, hwait] at hoffered
    exact ⟨hwait, hoffered⟩
  have hrested (hc : s.closing = .returned true) (hcalls : s.calls = [])
    (hhandles : s.handles = []) :
      s.pool.activeJobs = [] := by
    have hnobody : s.pool.numbers = [] := List.eq_nil_iff_forall_not_mem.mpr fun n hn => by
      rcases hst.held (by simp [hc]) n hn with h | h | h
      · simp [hhandles] at h
      · simp [hc, Closing.awaited] at h
      · simp [hcalls] at h
    simp [Pool.activeJobs, List.map_eq_nil_iff.mp hnobody]
  refine {
    offered := ha.offered, begun := ha.begun, inOrder := ⟨late ++ s.pool.waiting, ?_⟩,
    active := ha.pool.active, queued := ha.pool.queued, completed := ha.completed,
    abandoned := ha.abandoned, submitted := ha.submitted, balance := ?_, ended := ?_, rested := ?_ }
  · rw [haccepted, List.append_assoc]
  · have hlate := habandoned.length_eq
    have hbegun := ha.begun.length_eq
    rw [ha.submitted, ha.completed, ha.abandoned, ha.pool.active, ha.pool.queued, haccepted]
    simp only [List.length_append] at hlate hbegun ⊢
    omega
  · intro hc hcalls
    obtain ⟨hwait, hoffered⟩ := hended hc hcalls
    exact ⟨by rw [ha.pool.queued, hwait]; rfl, hoffered⟩
  · intro hc hcalls hhandles
    have hactive := hrested hc hcalls hhandles
    have hbegun := ha.begun
    rw [hactive, List.nil_append] at hbegun
    exact ⟨by rw [ha.pool.active, hactive]; rfl, (hended hc hcalls).2.trans (hbegun.append_right _)⟩

/-! ## Runs to the end -/

/-- A call that nothing comes between sends its job and checks for growth. -/
theorem Reachable.submit (hs : s.Reachable) (job : J) {p : Pool J} (hcalls : s.calls = [])
    (h : s.pool.send? job = some p) :
    Reachable { s with
      pool := p.grow, calls := Submission.grown p
      offered := s.offered ++ [job], accepted := s.accepted ++ [job] } := by
  rw [Pool.send?] at h
  split at h
  · cases h
  · rename_i hflag
    have offered := hs.step (.offer job)
    rw [hcalls] at offered
    have passed := offered.step (@Step.pass _ _ [] [] job rfl (by simpa using hflag))
    have posted := passed.step (@Step.post _ _ [] [] job p rfl h)
    have grown := posted.step (@Step.grow _ _ [] [] rfl)
    rwa [List.append_nil, List.nil_append] at grown

/-- A pool with one worker, which can grow to that many. -/
def sampleConfig (maxSize : UInt64) : PoolConfig := { coreSize := 1, maxSize }

/-- A shutdown that succeeds after a job has been executed, one handed back out of the channel, and
one refused. -/
theorem jobs_conserved_to_the_end : ∃ s : Workshop Nat, s.Reachable ∧ s.closing = .returned true ∧
    s.calls = [] ∧ s.handles = [] ∧ s.executed = [1] ∧ s.abandoned = [3, 2] ∧ s.Conserved := by
  have opened := Reachable.opened (J := Nat) (c := sampleConfig 1) rfl
  have first := opened.submit 1 rfl rfl
  have begun := first.step (@Step.begin _ _ 0 _ rfl rfl)
  have second := begun.submit 2 rfl rfl
  have raised := second.step (.raise rfl)
  have third := raised.step (.offer 3)
  have refused := third.step (@Step.refuse _ _ [] [] 3 rfl rfl)
  have closed := refused.step (.close rfl)
  have drained := closed.step (@Step.drain _ _ 2 _ rfl rfl)
  have completed := drained.step (@Step.complete _ _ 0 1 _ rfl rfl)
  have retired := completed.step (@Step.retire _ _ 0 _ rfl)
  have collected := retired.step (.collect rfl rfl)
  have joined := collected.step (.join rfl (by decide))
  exact ⟨_, joined, rfl, rfl, rfl, rfl, rfl, joined.jobs_conserved⟩

/-- A call to shut the pool down that finds the flag raised says that it has succeeded, whatever
is being executed. So does the call that raised the flag when a worker's handle comes in too
late for it. -/
theorem shutdown_succeeds_while_active :
    (∃ s : Workshop Nat, s.Reachable ∧ s.closing = .returned false ∧ s.repeats = [true] ∧
      s.calls = [] ∧ s.pool.counts.active = 1) ∧
    ∃ s : Workshop Nat, s.Reachable ∧ s.closing = .returned true ∧ s.calls = [] ∧
    s.pool.counts.active = 1 := by
  constructor
  · have opened := Reachable.opened (J := Nat) (c := sampleConfig 1) rfl
    have first := opened.submit 1 rfl rfl
    have begun := first.step (@Step.begin _ _ 0 _ rfl rfl)
    have raised := begun.step (.raise rfl)
    have closed := raised.step (.close rfl)
    have collected := closed.step (.collect rfl rfl)
    have expired := collected.step (.expire rfl)
    have repeated := expired.step (.again rfl)
    exact ⟨_, repeated, rfl, rfl, rfl, rfl⟩
  · have opened := Reachable.opened (J := Nat) (c := sampleConfig 2) rfl
    have first := opened.submit 1 rfl rfl
    have begun := first.step (@Step.begin _ _ 0 _ rfl rfl)
    have second := begun.submit 2 rfl rfl
    have taken := second.step (@Step.begin _ _ 1 _ rfl rfl)
    have raised := taken.step (.raise rfl)
    have closed := raised.step (.close rfl)
    have collected := closed.step (.collect rfl rfl)
    have completed := collected.step (@Step.complete _ _ 0 1 _ rfl rfl)
    have retired := completed.step (@Step.retire _ _ 0 _ rfl)
    have joined := retired.step (.join rfl (by decide))
    -- only now does the second call hand over what it has hired
    have registered := joined.step (@Step.register _ _ [] [] 1 rfl)
    exact ⟨_, registered, rfl, rfl, rfl⟩

end Workshop

end Timetable
