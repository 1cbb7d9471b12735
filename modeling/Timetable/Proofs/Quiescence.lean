import Timetable.Proofs.Exclusion
import Timetable.Proofs.Firm
import Timetable.Proofs.Rehearsal
import Timetable.Proofs.Return

/-!
# When nothing is left to do

The scheduler is settled exactly when no job is out and every notice published has been delivered. A
call that waits for this returns that it is so only where no task is running, every task in the
index has its unit of work, and every notice has reached the listeners.
-/
namespace Timetable

variable {W : Type}

/-- When everything published is credited, everything is announced. -/
theorem Crew.Sound.notified_eq {c : Crew} (hs : c.Sound)
    (h : c.outbox.delivered = c.outbox.published) :
    c.notified = c.published := by
  have hcount := hs.count
  have hle := hs.delivered_le
  exact hs.notified_prefix.eq_of_length_le (by omega)

/-- Whether a deed takes a job out of flight. -/
def Deed.lands : Deed W → Bool
  | finish .. | abandon .. => true
  | _ => false

namespace World

variable {w w' : World W} {d : Deed W}

theorem Step.jobs_of_lands (h : Step w d w') (hd : d.lands = true) :
    w'.jobs.length + 1 = w.jobs.length := by
  cases h with
  | finish h | abandon h =>
    simp only [h, List.length_append, List.length_cons]
    omega
  | _ => cases hd

/-- When no job is out, every task in the index has its unit of work and none is running. -/
theorem Sound.resting (hw : w.Sound) (hjobs : w.jobs = []) :
    ∀ t ∈ w.scheduler.tasks, t.status ≠ .running ∧ t.work.isSome := by
  intro t ht
  have htask : w.scheduler.task? t.id = some t := (find?_of_nodup hw.coherent.once).mpr ⟨ht, rfl⟩
  have hwork : t.work.isSome := by
    rcases hw.held htask with ⟨hsome, -⟩ | ⟨-, d, hd⟩
    · exact hsome
    · simp [jobsOf, hjobs] at hd
  refine ⟨fun hrunning => ?_, hwork⟩
  rw [((hw.lives t.id).standing t htask).running hrunning] at hwork
  cases hwork

end World

namespace Plant

variable {p : Plant W}

/-- A job on its way back can be handed back. -/
theorem Reachable.returnable (hp : p.Reachable) {x : Parting W} (hx : x ∈ p.parting)
    (now : Instant) :
    ∃ w, World.Step p.world (.abandon x.job now) w := by
  have hmem : x.job ∈ p.world.unbegun :=
    hp.tallied.unbegun.mem_iff.mpr (List.mem_append_right _ (List.mem_map_of_mem hx))
  obtain ⟨before, after, hjobs⟩ := List.append_of_mem (World.mem_unbegun.mp hmem)
  exact ⟨_, .abandon hjobs now⟩

/-- The attempt of a worker that has not recorded it can be recorded, however it ends. -/
theorem Reachable.endable (hp : p.Reachable) {n : Nat} {job : Job W}
    (hjob : p.shop.pool.jobOf? n = some job)
    (hn : n ∉ p.recorded) : ∃ startedAt, ∀ work duration outcome now,
      ∃ w, World.Step p.world (.finish job work ⟨startedAt, duration, outcome⟩ now) w := by
  have hengaged := hp.shop.sound.1.pool.jobOf?_eq_some.mp hjob
  have hbusy : job ∈ p.busy :=
    List.mem_map.mpr ⟨_, List.mem_filter.mpr ⟨hengaged, decide_eq_true hn⟩, rfl⟩
  obtain ⟨⟨_, begun⟩, hd, rfl⟩ := List.mem_map.mp (hp.tallied.underway.mem_iff.mpr hbusy)
  obtain ⟨hout, hbegun⟩ := List.mem_filter.mp hd
  obtain ⟨startedAt, rfl⟩ := Option.isSome_iff_exists.mp hbegun
  obtain ⟨before, after, hjobs⟩ := List.append_of_mem hout
  exact ⟨startedAt, fun work duration outcome now => ⟨_, .finish hjobs work now⟩⟩

end Plant

namespace Firm

variable {f f' : Firm W} {me : Thread} {d : Deed W}

/-- How a firm stands at a moment with what is in flight. -/
structure Exact (f : Firm W) : Prop where
  inFlight : f.world.scheduler.inFlight = f.world.jobs.length
  /-- A job that is out is with the tick that has claimed it, in the pool, on its way back from
  there, or with a worker that has not recorded the attempt. -/
  places : ∀ p, f.site = .opened p → (f.world.jobs.map Dispatch.job).Perm
    (p.claimed ++ p.shop.inside ++ p.parting.map Parting.job ++ p.busy)
  /-- A job that the pool gives back is out. So is one whose attempt has ended. -/
  landing : ∀ p, f.site = .opened p →
    (∀ x ∈ p.parting, ∀ now, ∃ w, World.Step f.world (.abandon x.job now) w) ∧
      ∀ n job, p.shop.pool.jobOf? n = some job → n ∉ p.recorded → ∃ startedAt,
        ∀ work duration outcome now, ∃ w,
          World.Step f.world (.finish job work ⟨startedAt, duration, outcome⟩ now) w
  /-- What lowers the count finds it above zero. -/
  lowered : ∀ me d f', Step f me (some d) f' → d.lands = true →
    f'.world.scheduler.inFlight + 1 = f.world.scheduler.inFlight
  settled : f.world.scheduler.isSettled = true ↔ f.world.jobs = [] ∧ f.world.heard = f.world.history
  /-- Where a call returns that it has waited until all was settled, all is at rest. -/
  awaited : ∀ timeUp, f.world.scheduler.awaitSettled? timeUp = some true →
    (∀ t ∈ f.world.scheduler.tasks, t.status ≠ .running ∧ t.work.isSome) ∧
      f.world.scheduler.outbox.waiting = [] ∧ f.crew.batch = 0 ∧ f.crew.notified = f.world.history

theorem Step.world (h : Step f me (some d) f') : World.Step f.world d f'.world := by
  cases h with
  | publish _ _ h | work _ _ _ h | errand _ _ _ h => exact h.world

theorem Joined.reachable (hf : f.Joined) : f.world.Reachable := hf.site.world

/-- The scheduler has heard of a delivery no more than what was announced. -/
theorem Joined.heard_eq_iff (hf : f.Joined) :
    f.world.heard = f.world.history ↔
    f.world.scheduler.outbox.delivered = f.world.scheduler.outbox.published := by
  have hle : f.world.scheduler.outbox.delivered ≤ f.world.history.length := by
    rw [← hf.outbox, ← hf.published]
    exact hf.crew.sound.delivered_le.trans hf.crew.sound.notified_prefix.length_le
  rw [World.heard, List.take_eq_self_iff, hf.reachable.published_eq]
  omega

theorem Joined.opened (hf : f.Joined) {p : Plant W} (hp : f.site = .opened p) :
    p.Reachable ∧ f.world = p.world := by
  have hlegal := hf.site
  rw [hp] at hlegal
  exact ⟨hlegal, by rw [world, hp, Site.world]⟩

/-- Quiescence is exact, whatever becomes of tasks, pool and threads. -/
theorem Reachable.quiescence_exact (hf : f.Reachable) : f.Exact := by
  have hjoined := hf.joined
  have hworld : f.world.Reachable := hjoined.reachable
  have hinFlight := hworld.inFlight_eq
  have hsettled : f.world.scheduler.isSettled = true ↔
      f.world.jobs = [] ∧
      f.world.scheduler.outbox.delivered = f.world.scheduler.outbox.published := by
    simp [Scheduler.isSettled, Outbox.isSettled, hinFlight]
  refine {
    inFlight := hinFlight, places := fun p hp => ?_, landing := fun p hp => ?_,
    lowered := fun me d f' h hd => ?_, settled := by rw [hsettled, hjoined.heard_eq_iff],
    awaited := fun timeUp h => ?_ }
  · obtain ⟨hplant, hsite⟩ := hjoined.opened hp
    rw [hsite]
    exact p.world.jobs_perm.trans (hplant.tallied.unbegun.append hplant.tallied.underway)
  · obtain ⟨hplant, hsite⟩ := hjoined.opened hp
    rw [hsite]
    exact ⟨fun x hx => hplant.returnable hx, fun n job hjob hn => hplant.endable hjob hn⟩
  · rw [hinFlight, (hf.step h).joined.reachable.inFlight_eq]
    exact h.world.jobs_of_lands hd
  · obtain ⟨hjobs, hdelivered⟩ := hsettled.mp (Scheduler.awaitSettled?_eq_true.mp h)
    rw [← hjoined.outbox] at hdelivered
    have haccount := hjoined.crew.sound.accounted.account
    have hwaiting : f.crew.outbox.waiting = [] := List.eq_nil_of_length_eq_zero (by omega)
    exact ⟨hworld.sound.resting hjobs, hjoined.outbox ▸ hwaiting, by omega,
      (hjoined.crew.sound.notified_eq hdelivered).trans hjoined.published⟩

end Firm

/-! ## An undisturbed thread -/

/-- The outbox when everything has been delivered. -/
def Outbox.emptied (o : Outbox) : Outbox := { published := o.published, delivered := o.published }

/-- The site after an errand. -/
def Site.deliver (s : Site W) (o : Outbox) : Site W :=
  match s with
  | unopened w => .unopened { w with scheduler := { w.scheduler with outbox := o } }
  | opened p =>
    .opened { p with world := { p.world with scheduler := { p.world.scheduler with outbox := o } } }

theorem Site.step_deliver {s : Site W} {me : Thread} {e : Errand} {o : Outbox}
    {errands : List Errand} (h : s.world.scheduler.outbox.run? me e = some (o, errands)) :
    s.Step (some (.deliver me e)) (s.deliver o) := by
  cases s with
  | unopened w => exact .call rfl (by simp) (.deliver h)
  | opened p => exact .act rfl (.call rfl (.deliver h))

@[simp] theorem Site.outbox_deliver (s : Site W) (o : Outbox) :
    (s.deliver o).world.scheduler.outbox = o := by
  cases s <;> rfl

@[simp] theorem Site.deliver_deliver (s : Site W) (o o' : Outbox) :
    (s.deliver o).deliver o' = s.deliver o' := by
  cases s <;> rfl

namespace Firm

variable {f : Firm W} {me : Thread} {s s' : Site W} {d : Deed W} {o : Outbox} {l rest : List Chore}

/-- The site can be reached with that agenda for the thread. -/
def At (me : Thread) (s : Site W) (l : List Chore) : Prop :=
  ∃ f : Firm W, f.Reachable ∧ f.site = s ∧ f.crew.agenda me = l

/-- The thread runs an errand. -/
theorem At.errand {e : Errand} (h : At me s (.errand e :: rest)) (hquiet : ∀ n, e ≠ .announce n)
    (errands : List Errand) (ho : s.world.scheduler.outbox.run? me e = some (o, errands)) :
    At me (s.deliver o) (errands.map .errand ++ rest) := by
  obtain ⟨f, hf, rfl, hagenda⟩ := h
  have hcrew : f.crew.outbox.run? me e = some (o, errands) := hf.joined.outbox ▸ ho
  exact ⟨_, hf.step (.errand hagenda hquiet hcrew (Site.step_deliver ho)), rfl,
    by simp [after, Crew.give]⟩

/-- It announces a batch to nobody. -/
theorem At.announce {batch : List Notice}
    (h : At me s (batch.map (fun n => .errand (.announce n)) ++ rest)) : At me s rest := by
  induction batch with
  | nil => exact h
  | cons n batch ih =>
    obtain ⟨f, hf, hs, hagenda⟩ := h
    exact ih ⟨_, hf.step (.own (.announce hagenda 0) rfl rfl), hs, by simp⟩

/-- While nobody delivers, everything published waits or is credited. -/
theorem At.waiting (h : At me s l) (hnone : s.world.scheduler.outbox.deliverer = none) :
    s.world.scheduler.outbox.delivered + s.world.scheduler.outbox.waiting.length =
      s.world.scheduler.outbox.published := by
  obtain ⟨f, hf, rfl, -⟩ := h
  have hjoined := hf.joined
  have houtbox : f.crew.outbox = f.site.world.scheduler.outbox := hjoined.outbox
  have haccount := hjoined.crew.sound.accounted.account
  have hbatch : f.crew.batch = 0 := by simp [Crew.batch, houtbox, hnone]
  rwa [hbatch, houtbox] at haccount

/-- A thread that calls for the delivery while nobody delivers has everything delivered. -/
theorem At.delivered (h : At me s [.errand .deliver])
    (hnone : s.world.scheduler.outbox.deliverer = none)
    (hpending : s.world.scheduler.outbox.waiting ≠ []) :
    At me (s.deliver s.world.scheduler.outbox.emptied) [] := by
  have hall := h.waiting hnone
  generalize ho : s.world.scheduler.outbox = o at hnone hpending hall
  have hlength := List.length_pos_iff.mpr hpending
  have hturn : o.turn me o.published = .deliver := by
    rw [Outbox.turn, if_neg (by omega), hnone]
  have called := h.errand (o := o) (by simp) [.reach o.published] (by rw [ho]; rfl)
  have reached := called.errand (o := o.stepUp me) (by simp) [.drain] (by simp [Outbox.run?, hturn])
  have drained := reached.errand (o := { o.stepUp me with waiting := [] }) (by simp)
    (o.waiting.map .announce ++ [.credit o.waiting.length, .drain])
    (by simp [Outbox.run?, Outbox.takeBatch, Outbox.stepUp, hpending])
  rw [List.map_append, List.map_map, List.append_assoc] at drained
  have credited :=
    drained.announce.errand (o := { o.stepUp me with waiting := [] }.credit o.waiting.length)
    (by simp) [] (by simp [Outbox.run?])
  have emptied := credited.errand (o := o.emptied) (by simp) [] ?_
  · simpa using emptied
  · simp [Outbox.run?, Outbox.takeBatch, Outbox.credit, Outbox.stepUp, Outbox.stepDown,
      Outbox.emptied, hall]

theorem At.pool (h : At me s l) (hs : s.Step none s') : At me s' l := by
  obtain ⟨f, hf, rfl, hagenda⟩ := h
  exact ⟨_, hf.step (@Step.pool _ _ me _ hs), rfl, hagenda⟩

/-- A thread with nothing to do takes up work. -/
theorem At.takeUp (h : At me s []) : At me s [.work] := by
  obtain ⟨f, hf, hs, hagenda⟩ := h
  exact ⟨_, hf.step (.own (.takeUp hagenda) rfl rfl), hs, Crew.give_agenda ..⟩

/-- The thread goes through a section that publishes nothing. -/
theorem At.quietly (h : At me s []) (hs : s.Step (some d) s') (hcalls : d.delivers = false)
    (hd : ∀ t e, d ≠ .deliver t e) : At me s' [] := by
  obtain ⟨f, hf, rfl, hagenda⟩ := h.takeUp
  exact ⟨_, hf.step (.work hagenda hcalls hd hs 0), rfl, by simp [after, Crew.give]⟩

/-- The thread goes through a section and has everything delivered that it has published. -/
theorem At.loudly (h : At me s []) (hs : s.Step (some d) s') (hcalls : d.delivers = true)
    (hnone : s'.world.scheduler.outbox.deliverer = none)
    (hpending : s'.world.scheduler.outbox.waiting ≠ []) :
    At me (s'.deliver s'.world.scheduler.outbox.emptied) [] := by
  obtain ⟨f, hf, rfl, hagenda⟩ := h.takeUp
  have called : At me s' [.errand .deliver] :=
    ⟨_, hf.step (.publish hagenda hcalls hs 0), rfl, by simp [after, Crew.give]⟩
  exact called.delivered hnone hpending

/-- A task is claimed, cancelled and evicted, and then the pool refuses its job: the job counts
until it is handed back, and after that all is settled. -/
theorem quiescent_despite_eviction :
    (∃ f : Firm Nat, f.Reachable ∧ f.world.scheduler.tasks.length = 0 ∧
      f.world.scheduler.inFlight = 1 ∧ f.Exact) ∧
    ∃ f : Firm Nat, f.Reachable ∧ f.world.scheduler.isSettled = true ∧
    f.crew.notified.length = 3 ∧ f.Exact := by
  have fresh : At (.caller 0) (.unopened (.fresh ({ config := {} } : Scheduler Nat))) [] :=
    ⟨_, ⟨{}, _, rfl, .refl⟩, rfl, rfl⟩
  have accepted :=
    fresh.loudly (.call rfl (by simp) (.of_step? (d := .accept .dueNow .sample .epoch .epoch) rfl))
    rfl rfl (by decide)
  have started :=
    accepted.quietly (.start rfl (.of_step? (d := .start .epoch) rfl) rfl) rfl (by simp)
  have claimed := started.loudly (.act rfl (.claim (.claim _ .epoch))) rfl rfl (by decide)
  have cancelled :=
    claimed.loudly (.act rfl (.call rfl (.of_step? (d := .cancel (.ofNat 1)) rfl))) rfl
      rfl (by decide)
  have evicted :=
    cancelled.quietly (.act rfl (.call rfl (.of_step? (d := .evict (.ofNat 1)) rfl))) rfl (by simp)
  have raised := evicted.pool (.act rfl (.move rfl (by simp) (.raise rfl)))
  have offered := raised.pool (.act rfl (@Plant.Step.offer _ _ [] [] Job.sample _ rfl (.offer _)))
  have refused := offered.pool (.act rfl (.turnBack rfl (by simp [Motion.isDrain])
    (@Workshop.Step.refuse _ _ [] [] Job.sample rfl rfl)))
  have abandoned := refused.quietly
    (.act rfl
      (@Plant.Step.handBack _ _ [] [] _ .epoch _ rfl
        (@World.Step.abandon _ _ [] [] Job.sample rfl .epoch)))
    rfl (by simp)
  constructor
  · obtain ⟨f, hf, hs, -⟩ := evicted
    exact ⟨f, hf, by rw [world, hs]; rfl, by rw [world, hs]; rfl, hf.quiescence_exact⟩
  · obtain ⟨f, hf, hs, -⟩ := abandoned
    have hsettled : f.world.scheduler.isSettled = true := by
      rw [world, hs]
      rfl
    have hnotified : f.crew.notified = f.world.history :=
      (hf.quiescence_exact.awaited true (Scheduler.awaitSettled?_eq_true.mpr hsettled)).2.2.2
    refine ⟨f, hf, hsettled, ?_, hf.quiescence_exact⟩
    rw [hnotified, world, hs]
    rfl

end Firm

end Timetable
