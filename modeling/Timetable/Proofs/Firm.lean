import Timetable.Proofs.Delivery
import Timetable.Proofs.InFlight
import Timetable.Proofs.Tally

/-!
# A scheduler with its pool and its threads

The scheduler, alone before its start and with its pool afterwards, and the threads that call it. A
thread at work enters a section under the scheduler's lock; if the section is one that publishes,
the thread then calls for the delivery of everything published. Deliveries, hooks and panics are
those of a crew at the scheduler's outbox, and what the pool does by itself comes between any two
steps.
-/
namespace Timetable

variable {W : Type}

/-- A scheduler that has not been started, or one with its pool. -/
inductive Site (W : Type) where
  | unopened (w : World W)
  | opened (p : Plant W)

namespace Site

/-- The scheduler at work. -/
def world : Site W → World W
  | unopened w => w
  | opened p => p.world

/-- One step, with what it is to the scheduler. Nothing is claimed before the start. -/
inductive Step : Site W → Option (Deed W) → Site W → Prop
  | call {w w' : World W} {d : Deed W} (hd : d.isCall) (hstart : ∀ now, d ≠ .start now)
    (h : World.Step w d w') : Step (.unopened w) (some d) (.unopened w')
  | start {w w' : World W} {now : Instant} {pool : Pool (Job W)}
    (hcreated : w.scheduler.lifecycle = .created) (h : World.Step w (.start now) w')
    (hpool : Pool.create w.scheduler.config.pool = .ok pool) :
    Step (.unopened w) (some (.start now)) (.opened { world := w', shop := Workshop.opened pool })
  | act {p p' : Plant W} {x : Act W} {d : Option (Deed W)} (hx : x.deed? = d)
    (h : Plant.Step p x p') :
    Step (.opened p) d (.opened p')

/-- What a new scheduler can get into. -/
def Legal : Site W → Prop
  | unopened w => w.Reachable ∧ w.jobs = []
  | opened p => p.Reachable

variable {s s' : Site W} {d : Deed W}

theorem Legal.world (hs : s.Legal) : s.world.Reachable := by
  cases s with
  | unopened w => exact hs.1
  | opened p => exact Plant.Reachable.world hs

theorem Step.world_eq (h : Step s none s') : s'.world = s.world := by
  cases h with
  | act hx h =>
    rcases h.world with ⟨-, heq⟩ | ⟨d, hd, -⟩
    · exact heq
    · cases hx.symm.trans hd

theorem Step.world (h : Step s (some d) s') : World.Step s.world d s'.world := by
  cases h with
  | call _ _ h => exact h
  | start _ h => exact h
  | act hx h =>
    rcases h.world with ⟨hnone, -⟩ | ⟨d', hd, h⟩
    · cases hx.symm.trans hnone
    · obtain rfl := Option.some.inj (hx.symm.trans hd)
      exact h

theorem Step.legal {d : Option (Deed W)} (h : Step s d s') (hs : s.Legal) : s'.Legal := by
  cases h with
  | call hd _ h => exact ⟨hs.1.step h, (h.jobs_of_call hd).trans hs.2⟩
  | start hcreated h hpool => exact ⟨_, [], .start hs.1 hcreated hs.2 h hpool, .refl _⟩
  | act _ h => exact Plant.Reachable.step hs h

end Site

/-- A delivery touches the outbox alone. -/
theorem World.Step.of_deliver {w w' : World W} {me : Thread} {e : Errand}
    (h : World.Step w (.deliver me e) w') : ∃ o errands,
      w.scheduler.outbox.run? me e = some (o, errands) ∧ w'.scheduler.outbox = o ∧
      w'.history = w.history := by
  cases h with
  | deliver h => exact ⟨_, _, h, rfl, rfl⟩

/-- A scheduler with its pool and its threads. -/
structure Firm (W : Type) where
  site : Site W
  crew : Crew := {}

namespace Firm

/-- The scheduler at work. -/
def world (f : Firm W) : World W := f.site.world

/-- The crew after a section. -/
def after (f : Firm W) (site : Site W) (me : Thread) (chores : List Chore) : Crew :=
  { f.crew.give me chores with
    outbox := site.world.scheduler.outbox
    published := site.world.history }

/-- One step of a thread. -/
inductive Step (f : Firm W) (me : Thread) : Option (Deed W) → Firm W → Prop
  /-- A section that publishes, and the call for delivery that follows it. -/
  | publish {rest : List Chore} {d : Deed W} {site : Site W}
    (hagenda : f.crew.agenda me = .work :: rest)
    (hcalls : d.delivers = true) (h : f.site.Step (some d) site) (more : Nat) :
    Step f me (some d)
      ⟨site, f.after site me (.errand .deliver :: List.replicate more .work ++ rest)⟩
  /-- Any other section, or the beginning of an attempt. -/
  | work {rest : List Chore} {d : Deed W} {site : Site W}
    (hagenda : f.crew.agenda me = .work :: rest)
    (hcalls : d.delivers = false) (hd : ∀ t e, d ≠ .deliver t e) (h : f.site.Step (some d) site)
    (more : Nat) :
    Step f me (some d) ⟨site, f.after site me (List.replicate more .work ++ rest)⟩
  | errand {rest : List Chore} {e : Errand} {o : Outbox} {errands : List Errand} {site : Site W}
    (hagenda : f.crew.agenda me = .errand e :: rest) (hquiet : ∀ n, e ≠ .announce n)
    (ho : f.crew.outbox.run? me e = some (o, errands))
    (h : f.site.Step (some (.deliver me e)) site) :
    Step f me (some (.deliver me e)) ⟨site, f.after site me (errands.map .errand ++ rest)⟩
  /-- What a thread does without the scheduler: it takes up work, panics, announces a notice,
  calls a hook. -/
  | own {c : Crew} (h : Crew.Step f.crew me c) (houtbox : c.outbox = f.crew.outbox)
    (hpublished : c.published = f.crew.published) : Step f me none ⟨f.site, c⟩
  /-- What the pool does by itself. -/
  | pool {site : Site W} (h : f.site.Step none site) : Step f me none ⟨site, f.crew⟩

/-- Steps of any threads, in any order. -/
def Leads : Firm W → Firm W → Prop := Relation.ReflTransGen fun f f' => ∃ me d, Step f me d f'

/-- What a new scheduler can get into. -/
def Reachable (f : Firm W) : Prop :=
  ∃ (c : Config) (s : Scheduler W), Scheduler.create c = .ok s ∧
    Leads { site := .unopened (.fresh s) } f

variable {f f' : Firm W} {me : Thread} {d : Option (Deed W)}

theorem Reachable.step (hf : f.Reachable) (h : Step f me d f') : f'.Reachable := by
  obtain ⟨c, s, hs, run⟩ := hf
  exact ⟨c, s, hs, Relation.ReflTransGen.tail run ⟨me, d, h⟩⟩

/-- The scheduler, its pool and its threads go together. -/
structure Joined (f : Firm W) : Prop where
  site : f.site.Legal
  crew : f.crew.Reachable
  outbox : f.crew.outbox = f.world.scheduler.outbox
  published : f.crew.published = f.world.history

theorem Joined.fresh {c : Config} {s : Scheduler W} (hs : Scheduler.create c = .ok s) :
    Joined { site := .unopened (.fresh s) } where
  site := ⟨⟨c, s, [], hs, .refl _⟩, rfl⟩
  crew := .refl
  outbox := by
    obtain rfl := Scheduler.create_eq_ok hs
    rfl
  published := rfl

/-- A step that leaves outbox and record alone changes one agenda. -/
theorem Joined.after_eq (hf : f.Joined) {site : Site W} (chores : List Chore)
    (houtbox : site.world.scheduler.outbox = f.world.scheduler.outbox)
    (hhistory : site.world.history = f.world.history) :
    f.after site me chores = f.crew.give me chores := by
  rw [after, houtbox, hhistory, ← hf.outbox, ← hf.published]
  rfl

/-- To the crew a step is a step of the crew, or none. -/
theorem Step.crew (h : Step f me d f') (hf : f.Joined) :
    f'.crew = f.crew ∨ Crew.Step f.crew me f'.crew := by
  have hsound := hf.site.world.sound
  cases h with
  | publish hagenda hcalls h more =>
    obtain ⟨notices, houtbox, hhistory, -⟩ := h.world.publishes hsound fun t e heq => by
      rw [heq] at hcalls
      cases hcalls
    have hstep := Crew.Step.publish hagenda notices more
    rw [hf.outbox, hf.published, world, ← houtbox, ← hhistory] at hstep
    exact .inr hstep
  | work hagenda hcalls hd h more =>
    obtain ⟨notices, houtbox, hhistory, hquiet⟩ := h.world.publishes hsound hd
    rw [hquiet hcalls, Outbox.publish_nil] at houtbox
    rw [hquiet hcalls, List.append_nil] at hhistory
    rw [hf.after_eq _ houtbox hhistory]
    exact .inr (.work hagenda more)
  | @errand rest e o errands site hagenda hquiet ho h =>
    obtain ⟨o', errands', ho', houtbox, hhistory⟩ := h.world.of_deliver
    rw [← world, ← hf.outbox, ho] at ho'
    obtain ⟨rfl, rfl⟩ := Prod.mk.inj (Option.some.inj ho')
    have hstep := Crew.Step.errand hagenda hquiet ho
    rw [after, houtbox, hhistory, ← world, ← hf.published]
    exact .inr hstep
  | own h => exact .inr h
  | pool h => exact .inl rfl

theorem Step.legal (h : Step f me d f') (hf : f.Joined) : f'.site.Legal := by
  cases h with
  | publish _ _ h | work _ _ _ h | errand _ _ _ h | pool h => exact h.legal hf.site
  | own => exact hf.site

/-- What a thread does at the outbox is done to the scheduler's outbox. -/
theorem Step.joined (h : Step f me d f') (hf : f.Joined) : f'.Joined where
  site := h.legal hf
  crew := by
    rcases h.crew hf with heq | hstep
    · exact heq ▸ hf.crew
    · exact hf.crew.run (.single ⟨me, hstep⟩)
  outbox := by
    cases h with
    | publish | work | errand => rfl
    | own _ houtbox => exact houtbox.trans hf.outbox
    | pool h =>
      exact hf.outbox.trans (congrArg (fun w : World W => w.scheduler.outbox) h.world_eq.symm)
  published := by
    cases h with
    | publish | work | errand => rfl
    | own _ _ hpublished => exact hpublished.trans hf.published
    | pool h => exact hf.published.trans (congrArg World.history h.world_eq.symm)

theorem Reachable.joined (hf : f.Reachable) : f.Joined := by
  obtain ⟨c, s, hs, run⟩ := hf
  induction run with
  | refl => exact .fresh hs
  | tail _ h ih =>
    obtain ⟨me, d, h⟩ := h
    exact h.joined ih

end Firm

end Timetable
