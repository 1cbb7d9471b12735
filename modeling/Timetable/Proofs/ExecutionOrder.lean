import Timetable.Proofs.Line
import Timetable.Proofs.Rehearsal

/-!
# The order of execution

With one worker and one tick at a time, attempts begin in the order in which their starts are
published, and a tick publishes starts in dispatch order. So of two tasks that are due at a tick the
more urgent begins first, whatever has happened to them before.
-/
namespace Timetable

variable {W : Type}

/-- What comes into a sequence after a front part that it has not got comes right
after that part. -/
theorem eq_append_of_prefix {α : Type} {front rest new : List α} {b : α}
    (h : new <+: front ++ b :: rest)
    (hb : b ∉ front) (hnew : b ∈ new) : ∃ after, new = front ++ b :: after := by
  by_cases hle : new.length ≤ front.length
  · have hshort : new <+: front := List.prefix_of_prefix_length_le h (List.prefix_append _ _) hle
    exact absurd (hshort.subset hnew) hb
  · have hlong : front ++ [b] <+: front ++ b :: rest := ⟨rest, by simp⟩
    obtain ⟨after, rfl⟩ := List.prefix_of_prefix_length_le hlong h (by simpa using by omega)
    exact ⟨after, by simp⟩

namespace World

variable {w : World W}

/-- Of two due tasks the more urgent comes before the other among what a claim takes out. -/
theorem Reachable.dueEntries_split (hw : w.Reachable) {now : Instant} {t u : Task W}
    (ht : w.scheduler.task? t.id = some t) (hu : w.scheduler.task? u.id = some u)
    (htdue : t.due?.any fun d => d ≤ now) (hudue : u.due?.any fun d => d ≤ now)
    (hurgent : u.priority.rank < t.priority.rank) :
    ∃ before after, (w.scheduler.claimDue now).1.map Job.id = before ++ u.id :: after ∧
      u.id ∉ before ∧ t.id ∈ before := by
  have hsound := hw.sound
  have hentry (v : Task W) (hv : w.scheduler.task? v.id = some v)
    (hdue : v.due?.any fun d => d ≤ now) :
      ∃ e ∈ w.scheduler.queue.dueEntries now, e.id = v.id ∧ e.priority = v.priority := by
    have hstatus : v.status = .scheduled := by
      by_contra hne
      simp [Task.due?, hne] at hdue
    obtain ⟨e, he, hid, hpriority, hd⟩ := hsound.entry hv hstatus
    refine ⟨e, List.mem_filter.mpr ⟨he, ?_⟩, hid, hpriority⟩
    rwa [QueueEntry.isDue, hd, ← show v.due? = v.nextExecution by rw [Task.due?, if_pos hstatus]]
  obtain ⟨e, he, hte, hep⟩ := hentry t ht htdue
  obtain ⟨f, hf, huf, hfp⟩ := hentry u hu hudue
  have hplace : e.place < f.place := by
    refine Prod.Lex.toLex_lt_toLex.mpr (.inl (Prod.Lex.toLex_lt_toLex.mpr (.inl ?_)))
    simpa [QueueEntry.waiting, hep, hfp] using hurgent
  have hids := hsound.coherent.claimed_ids hsound.armed now
  rw [hw.ordered.extracted_eq] at hids
  have hnodup := hsound.coherent.views.nodup_extractDue now
  rw [hw.ordered.extracted_eq] at hnodup
  have hordered := hw.ordered.dueEntries now
  rw [hids]
  obtain ⟨before, after, hsplit⟩ := List.append_of_mem hf
  rw [ReadyQueue.dueEntries] at hsplit he hordered
  rw [hsplit] at hnodup he hordered ⊢
  refine ⟨before.map QueueEntry.id, after.map QueueEntry.id, by simp [huf], ?_, ?_⟩
  · rw [List.map_append, List.map_cons] at hnodup
    have hapart := List.disjoint_of_nodup_append hnodup
    exact fun hmem => hapart hmem (by simp [huf])
  · rcases List.mem_append.mp he with hmem | hmem
    · exact hte ▸ List.mem_map_of_mem hmem
    · rcases List.mem_cons.mp hmem with heq | hmem
      · exact absurd hplace (heq ▸ lt_irrefl _)
      · have hafter := (List.pairwise_cons.mp (List.pairwise_append.mp hordered).2.1).1 e hmem
        exact absurd hplace hafter.asymm

end World

namespace Plant

variable {p p' : Plant W} {x : Act W}

theorem Step.begun (h : Step p x p') : p'.shop.begun = p.shop.begun ++ x.begins := by
  cases h with
  | call | claim | handBack | record => exact (List.append_nil _).symm
  | offer _ hs | begin hs | complete _ hs => exact hs.records.2.1
  | move hm _ hs =>
    obtain ⟨-, hbegun, -⟩ := hs.records
    rwa [(Motion.of_isQuiet hm).2.1] at hbegun
  | turnBack hm _ hs =>
    obtain ⟨-, hbegun, -⟩ := hs.records
    rwa [(Motion.of_abandoned hm).2.1] at hbegun

/-- A task that waits has no job anywhere. -/
theorem Reachable.not_out (hp : p.Reachable) {t : Task W}
    (ht : p.world.scheduler.task? t.id = some t)
    (hs : t.status = .scheduled) {job : Job W} (hjob : job ∈ p.shop.inside ∨ job ∈ p.busy) :
    job.id ≠ t.id := by
  have hmem : job ∈ p.world.unbegun ++ p.world.underway := by
    rcases hjob with hjob | hjob
    · exact List.mem_append_left _ (hp.tallied.unbegun.mem_iff.mpr (by simp [hjob]))
    · exact List.mem_append_right _ (hp.tallied.underway.mem_iff.mpr hjob)
  obtain ⟨d, hd, rfl⟩ := List.mem_map.mp (p.world.jobs_perm.mem_iff.mpr hmem)
  intro hid
  have hlife := hp.world.sound.lives t.id
  have hnone := (hlife.held t ht).mp ((hlife.standing t ht).resting (.inl hs))
  exact List.filter_eq_nil_iff.mp hnone d hd (decide_eq_true hid)

end Plant

namespace Line

variable {c : Config} {l l' l₁ l₂ : Line W} {x : Moment W} {p : Plant W}

theorem Kept.executed (hk : l.Kept p) (hp : p.Reachable) :
    l.attempts.map Job.id <+: p.world.startedIds := by
  have hbegun : l.attempts <+: p.shop.begun := ⟨_, hk.begun⟩
  have haccepted : p.shop.accepted <+: p.shop.offered :=
    (List.prefix_append _ _).trans hk.serial.sent
  obtain ⟨late, htaken, -⟩ := hp.shop.sound.1.accepted
  have hinOrder : p.shop.begun <+: p.shop.accepted :=
    ⟨late ++ p.shop.pool.waiting, by rw [htaken, List.append_assoc]⟩
  rw [hk.offers]
  exact ((hbegun.trans hinOrder).trans (haccepted.trans (List.prefix_append _ _))).map _

/-- Between two ticks, and before a shutdown, the starts whose attempts have not begun are those of
the jobs in hand and in the channel. -/
theorem Kept.startedIds_eq (hk : l.Kept p) (hp : p.Reachable) (hclaimed : p.claimed = [])
    (hcalls : p.shop.calls = []) (hgoing : p.shop.pool.isStopping = false) :
    p.world.startedIds = l.attempts.map Job.id ++
      (l.inHand.map Prod.snd ++ p.shop.pool.waiting).map Job.id := by
  obtain ⟨late, haccepted, -, hlate⟩ := hp.shop.sound.1.accepted
  have hoffered := hk.serial.all hgoing
  rw [hcalls, List.filterMap_nil, List.append_nil, haccepted, hlate hgoing, List.append_nil,
    ← hk.begun] at hoffered
  rw [hk.offers, hclaimed, List.append_nil, hoffered, List.append_assoc, List.map_append]

/-- The job in hand is with a worker that has not recorded it. -/
theorem Kept.busy (hk : l.Kept p) {job : Job W} (hjob : job ∈ l.inHand.map Prod.snd) :
    job ∈ p.busy := by
  obtain ⟨e, he, rfl⟩ := List.mem_map.mp hjob
  obtain ⟨hengaged, hrecorded⟩ := hk.held e he
  exact List.mem_map_of_mem (List.mem_filter.mpr ⟨hengaged, decide_eq_true hrecorded⟩)

/-- Once the pool has been told to shut down no worker takes a job to execute it. -/
theorem Leads.of_stopping (run : l.Leads l') (hl : l.Reachable c) (hone : c.maxPoolSize = 1)
    (hsite : l.site = .opened p) (hstopping : p.Stopping) :
    ∃ p', l'.site = .opened p' ∧ p'.Stopping ∧ p'.shop.begun = p.shop.begun := by
  induction run with
  | refl => exact ⟨p, hsite, hstopping, rfl⟩
  | @tail m l' run h ih =>
    obtain ⟨x, h⟩ := h
    obtain ⟨q, hq, hstill, hbegun⟩ := ih
    have hlegal := ((hl.leads run).sound hone).legal
    cases h with
    | early hearly => cases hearly.symm.trans hq
    | @act q₁ q' y hact h hx =>
      obtain rfl := Site.opened.inj (hact.symm.trans hq)
      rw [hact] at hlegal
      refine ⟨q', rfl, h.stopping hlegal hstill, ?_⟩
      rw [h.begun, h.begins_nothing hlegal hstill, List.append_nil, hbegun]
    | begin => exact ⟨q, hq, hstill, hbegun⟩

/-- Attempts begin in the order in which their starts are published, and the starts are published in
dispatch order. -/
structure InOrder (l : Line W) : Prop where
  executed : l.attempts.map Job.id <+: l.world.startedIds
  /-- Only a tick publishes starts. -/
  quiet : ∀ x l', Step l x l' → (∀ now jobs, x ≠ .act (.claim now jobs)) →
    l'.world.started = l.world.started
  /-- A tick publishes the starts of the due entries: the more urgent first, then the earlier due,
  then the earlier inserted. -/
  ticks : ∀ now jobs l', Step l (.act (.claim now jobs)) l' → ∃ notices,
    l'.world.started = l.world.started ++ notices ∧
      List.Forall₂ QueueEntry.Starts (l.world.scheduler.queue.dueEntries now) notices ∧
        (l.world.scheduler.queue.dueEntries now).Pairwise fun a b => a.place < b.place
  /-- Of two tasks that are due at a tick the more urgent begins first. -/
  urgent : ∀ now jobs l₁ l₂, Step l (.act (.claim now jobs)) l₁ → l₁.Leads l₂ →
    ∃ begun, l₂.attempts = l.attempts ++ begun ∧ ∀ t u : Task W,
      l.world.scheduler.task? t.id = some t → l.world.scheduler.task? u.id = some u →
        (t.due?.any fun d => d ≤ now) → (u.due?.any fun d => d ≤ now) →
          u.priority.rank < t.priority.rank →
          u.id ∈ begun.map Job.id → ∃ before after, begun.map Job.id = before ++ u.id :: after ∧
            u.id ∉ before ∧ t.id ∈ before

theorem Sound.executed (hs : l.Sound c) : l.attempts.map Job.id <+: l.world.startedIds := by
  cases hsite : l.site with
  | unopened w =>
    rw [(hs.early w hsite).2.2]
    exact List.nil_prefix
  | opened p =>
    have hlegal := hs.legal
    rw [hsite] at hlegal
    rw [world, hsite]
    exact (hs.late p hsite).executed hlegal

/-- A tick with the plant that it happens in. -/
theorem Step.of_claim {now : Instant} {jobs : List (Job W)}
    (h : Step l (.act (.claim now jobs)) l') :
    ∃ p, l.site = .opened p ∧ p.claimed = [] ∧ p.shop.calls = [] ∧
    World.Step l.world (.claim now) l'.world ∧
      jobs = (l.world.scheduler.claimDue now).1 := by
  cases h with
  | act hsite h hx =>
    cases h with
    | claim h =>
      simp only [world, hsite]
      exact ⟨_, rfl, hx.1, hx.2, h, rfl⟩

/-- No step but a tick is a claim to the scheduler. -/
theorem Step.started_eq (h : Step l x l') (hx : ∀ now jobs, x ≠ .act (.claim now jobs)) :
    l'.world.started = l.world.started := by
  cases h with
  | early hsite h =>
    simp only [world, hsite]
    refine h.world.started_eq fun now e => ?_
    subst e
    cases h with
    | call hd => cases hd
  | act hsite h hturn =>
    simp only [world, hsite]
    cases h with
    | claim => exact absurd rfl (hx _ _)
    | call hd h => exact h.started_eq (Deed.ne_claim hd)
    | begin _ h | handBack _ h | record _ _ h => exact h.started_eq (by simp)
    | offer | move | turnBack | complete => rfl
  | begin => rfl

theorem Sound.urgent (hs : l.Sound c) (hl : l.Reachable c) (hone : c.maxPoolSize = 1)
    {now : Instant}
    {jobs : List (Job W)} (h : Step l (.act (.claim now jobs)) l₁) (run : l₁.Leads l₂)
    {begun : List (Job W)} (hbegun : l₂.attempts = l.attempts ++ begun) {t u : Task W}
    (ht : l.world.scheduler.task? t.id = some t)
    (hu : l.world.scheduler.task? u.id = some u) (htdue : t.due?.any fun d => d ≤ now)
    (hudue : u.due?.any fun d => d ≤ now) (hurgent : u.priority.rank < t.priority.rank)
    (hmem : u.id ∈ begun.map Job.id) :
    ∃ before after, begun.map Job.id = before ++ u.id :: after ∧ u.id ∉ before ∧ t.id ∈ before := by
  obtain ⟨p, hsite, hclaimed, hcalls, hclaim, -⟩ := h.of_claim
  have hp : p.Reachable := by
    have hlegal := hs.legal
    rwa [hsite] at hlegal
  have hworld : l.world = p.world := by rw [world, hsite]; rfl
  have hk := hs.late p hsite
  have hl₂ := (hl.step h).leads run
  have hwaits : u.status = .scheduled := by
    by_contra hne
    simp [Task.due?, hne] at hudue
  rw [hworld] at ht hu hclaim
  -- nothing of the task that waits is out
  have hout : u.id ∉ (l.inHand.map Prod.snd ++ p.shop.pool.waiting).map Job.id := fun hin => by
    obtain ⟨job, hjob, hid⟩ := List.mem_map.mp hin
    refine absurd hid (hp.not_out hu hwaits ?_)
    rcases List.mem_append.mp hjob with hjob | hjob
    · exact .inr (hk.busy hjob)
    · exact .inl (List.mem_append_right _ hjob)
  cases hflag : p.shop.pool.isStopping with
  | true =>
    -- only what was in hand can still have begun
    obtain ⟨q, hq, -, hsame⟩ := Leads.of_stopping (.head ⟨_, h⟩ run) hl hone hsite hflag
    have hafter := ((hl₂.sound hone).late q hq).begun
    rw [hsame, ← hk.begun, hbegun, List.append_assoc] at hafter
    have hheld : begun <+: l.inHand.map Prod.snd := ⟨_, List.append_cancel_left hafter⟩
    refine absurd ((hheld.map Job.id).subset hmem) fun hin => hout ?_
    rw [List.map_append]
    exact List.mem_append_left _ hin
  | false =>
    obtain ⟨before, after, hsplit, hnot, hin⟩ := hp.world.dueEntries_split ht hu htdue hudue hurgent
    have hstarted := hclaim.startedIds_of_claim hp.world
    rw [hk.startedIds_eq hp hclaimed hcalls hflag, hsplit] at hstarted
    obtain ⟨more, hmore⟩ := run.grows.1
    have hexecuted := (hl₂.sound hone).executed
    rw [World.startedIds, hmore, List.map_append, ← World.startedIds, hstarted, hbegun,
      List.map_append, List.append_assoc, List.append_assoc,
      List.prefix_append_right_inj] at hexecuted
    generalize (l.inHand.map Prod.snd ++ p.shop.pool.waiting).map Job.id = pending at hexecuted hout
    rw [List.append_assoc, ← List.append_assoc pending, List.cons_append] at hexecuted
    obtain ⟨rest, hrest⟩ := eq_append_of_prefix hexecuted (by simp [hout, hnot]) hmem
    exact ⟨pending ++ before, rest, hrest, by simp [hout, hnot], List.mem_append_right _ hin⟩

/-- With one worker and one tick at a time the order of dispatch is the order of execution. -/
theorem Reachable.executes_in_order (hl : l.Reachable c)
    (hone : c.corePoolSize = 1 ∧ c.maxPoolSize = 1) :
    l.InOrder where
  executed := (hl.sound hone.2).executed
  quiet _ _ h hx := h.started_eq hx
  ticks now jobs l' h := by
    have hworld := (hl.sound hone.2).legal.world
    obtain ⟨p, -, -, -, hclaim, -⟩ := h.of_claim
    obtain ⟨notices, hstarted, hall⟩ := hclaim.started_of_claim hworld
    exact ⟨notices, hstarted, hall, hworld.ordered.dueEntries now⟩
  urgent now jobs l₁ l₂ h run := by
    obtain ⟨first, hfirst⟩ := h.grows.2
    obtain ⟨later, hlater⟩ := run.grows.2
    refine ⟨first ++ later, by rw [hlater, hfirst, List.append_assoc],
      fun t u ht hu htdue hudue hurgent hmem => ?_⟩
    exact (hl.sound hone.2).urgent hl hone.2 h run (by rw [hlater, hfirst, List.append_assoc]) ht
      hu htdue hudue hurgent hmem

/-! ## A tick with two tasks -/

/-- A tick that nothing comes between submits the first of its jobs. -/
theorem Leads.submit (run : l.Leads l') {job : Job W} {rest : List (Job W)} {q : Pool (Job W)}
    (hsite : l'.site = .opened p) (hclaimed : p.claimed = job :: rest) (hcalls : p.shop.calls = [])
    (h : p.shop.pool.send? job = some q) : l.Leads { l' with
      site := .opened { p with
        claimed := rest
        shop := { p.shop with
          pool := q.grow, calls := Submission.grown q
          offered := p.shop.offered ++ [job], accepted := p.shop.accepted ++ [job] } } } := by
  rw [Pool.send?] at h
  split at h
  · cases h
  · rename_i hflag
    have offered :=
      run.step (.act hsite (.offer (show p.claimed = [] ++ job :: rest from hclaimed) (.offer job))
      ⟨hclaimed, hcalls⟩)
    rw [hcalls] at offered
    have passed := offered.step (.act rfl
      (.move rfl (by simp) (@Workshop.Step.pass _ _ [] [] job rfl (by simpa using hflag))) trivial)
    have posted :=
      passed.step
        (.act rfl (.move rfl (by simp) (@Workshop.Step.post _ _ [] [] job q rfl h)) trivial)
    have grown :=
      posted.step (.act rfl (.move rfl (by simp) (@Workshop.Step.grow _ _ [] [] rfl)) trivial)
    simpa [Act.takes] using grown

/-- A task that is taken in later and is more urgent. -/
def urgentSample : Task Nat := { Plant.sampleTask 2 with priority := .critical }

/-- The one worker takes up the more urgent task first, records that its attempt has failed, and
goes on with the other. -/
theorem executes_the_urgent_first :
    Plant.sampleConfig.corePoolSize = 1 ∧ Plant.sampleConfig.maxPoolSize = 1 ∧
    ∃ l l₁ l₂ : Line Nat, l.Reachable Plant.sampleConfig ∧
      Step l (.act (.claim .epoch [Plant.sampleJob 2, Plant.sampleJob 1])) l₁ ∧ l₁.Leads l₂ ∧
        l₂.attempts = [Plant.sampleJob 2, Plant.sampleJob 1] ∧ l.InOrder ∧ l₂.InOrder := by
  have ticks {l : Line Nat} {p : Plant Nat} (hl : l.Reachable Plant.sampleConfig)
    (hsite : l.site = .opened p)
      (hclaimed : p.claimed = []) (hcalls : p.shop.calls = []) (now : Instant) :=
    And.intro hl (@Step.act _ l p _ _ hsite (.claim (.claim p.world now)) ⟨hclaimed, hcalls⟩)
  have fresh : Reachable Plant.sampleConfig
      { site := .unopened (.fresh ({ config := Plant.sampleConfig } : Scheduler Nat)) } :=
        ⟨_, rfl, .refl⟩
  have first := fresh.step (.early rfl (.call rfl (by simp)
    (.of_step? (d := .accept .dueNow (Plant.sampleTask 1) .epoch .epoch) rfl)))
  have second := first.step (.early rfl (.call rfl (by simp)
    (.of_step? (d := .accept .dueNow urgentSample .epoch .epoch) rfl)))
  have started := second.step (.early rfl (.start rfl (.of_step? (d := .start .epoch) rfl) rfl))
  obtain ⟨hl, tick⟩ := ticks started rfl rfl rfl .epoch
  have ticked {l l₁ : Line Nat} {x : Moment Nat} (_ : Step l x l₁) : l₁.Leads l₁ := .refl
  have submitted := (ticked tick).submit rfl rfl rfl rfl
  have taken := submitted.step (.act rfl
    (.begin (.begin (n := 0) rfl rfl) (@World.Step.attempt _ _ [] _ _ rfl .epoch)) trivial)
  have begun := taken.step (@Step.begin _ _ [] [] 0 _ rfl)
  have submitted := begun.submit rfl rfl rfl rfl
  have recorded :=
    submitted.step (.act rfl (@Plant.Step.record _ _ 0 (Plant.sampleJob 2) _ .failureSample _ _ rfl
    (by simp) (@World.Step.finish _ _ [] _ _ _ rfl 0 .epoch)) (by simp [InTurn]))
  have ended :=
    recorded.step
      (.act rfl (.complete (n := 0) (List.mem_singleton_self 0) (.complete rfl rfl)) trivial)
  have taken := ended.step (.act rfl
    (.begin (.begin (n := 0) rfl rfl) (@World.Step.attempt _ _ [] _ _ rfl .epoch)) trivial)
  have begun := taken.step (@Step.begin _ _ [] [] 0 _ rfl)
  exact ⟨rfl, rfl, _, _, _, hl, tick, begun, rfl, hl.executes_in_order ⟨rfl, rfl⟩,
    ((hl.step tick).leads begun).executes_in_order ⟨rfl, rfl⟩⟩

end Line

end Timetable
