import Timetable.Proofs.Firm
import Timetable.Proofs.OneWorker
import Timetable.Proofs.Starts

/-!
# Attempts in the order in which they begin

A scheduler with its pool and the attempts. A worker holds the job that it has taken until it calls
the unit of work. When it does so is left open, so that two workers may begin in another order than
that in which they took their jobs. A tick offers the jobs it has claimed one after the other; it is
over when the last call has returned, and no tick begins before that.
-/
namespace Timetable

variable {W : Type}

/-- A scheduler with its attempts. -/
structure Line (W : Type) where
  site : Site W
  /-- The workers that have taken a job to execute it and have not begun, with their jobs. -/
  inHand : List (Nat × Job W) := []
  /-- The jobs whose attempts have begun, in that order. -/
  attempts : List (Job W) := []

/-- What can happen in a line. -/
inductive Moment (W : Type) where
  /-- A section before the scheduler has its pool. -/
  | early (d : Deed W)
  | act (x : Act W)
  /-- A worker calls the unit of work of its job. -/
  | begin (number : Nat) (job : Job W)

/-- The worker that takes a job to execute it, with the job. -/
def Act.takes : Act W → List (Nat × Job W)
  | begin n job _ => [(n, job)]
  | _ => []

namespace Line

/-- The scheduler at work. -/
def world (l : Line W) : World W := l.site.world

/-- An act comes in its turn: no tick begins during another one, a tick offers its jobs in their
order, and what has not begun is not recorded. -/
def InTurn (l : Line W) (p p' : Plant W) : Act W → Prop
  | .claim .. => p.claimed = [] ∧ p.shop.calls = []
  | .offer job => p.claimed = job :: p'.claimed ∧ p.shop.calls = []
  | .record n .. => n ∉ l.inHand.map Prod.fst
  | _ => True

/-- One step. -/
inductive Step (l : Line W) : Moment W → Line W → Prop
  | early {w : World W} {d : Deed W} {site : Site W} (hsite : l.site = .unopened w)
    (h : (Site.unopened w).Step (some d) site) : Step l (.early d) { l with site }
  | act {p p' : Plant W} {x : Act W} (hsite : l.site = .opened p) (h : Plant.Step p x p')
    (hx : l.InTurn p p' x) :
    Step l (.act x) { l with site := .opened p', inHand := l.inHand ++ x.takes }
  | begin {before after : List (Nat × Job W)} {n : Nat} {job : Job W}
    (h : l.inHand = before ++ (n, job) :: after) :
    Step l (.begin n job) { l with inHand := before ++ after, attempts := l.attempts ++ [job] }

/-- Steps of all threads, in any order. -/
def Leads : Line W → Line W → Prop := Relation.ReflTransGen fun l l' => ∃ x, Step l x l'

/-- What a new scheduler with those settings can get into. -/
def Reachable (c : Config) (l : Line W) : Prop :=
  ∃ s : Scheduler W, Scheduler.create c = .ok s ∧ Leads { site := .unopened (.fresh s) } l

variable {c : Config} {l l' : Line W} {x : Moment W}

theorem Leads.step {l'' : Line W} (run : l.Leads l') (h : Step l' x l'') : l.Leads l'' :=
  Relation.ReflTransGen.tail run ⟨x, h⟩

theorem Reachable.step (hl : l.Reachable c) (h : Step l x l') : l'.Reachable c := by
  obtain ⟨s, hs, run⟩ := hl
  exact ⟨s, hs, run.step h⟩

theorem Reachable.leads (hl : l.Reachable c) (run : l.Leads l') : l'.Reachable c := by
  obtain ⟨s, hs, first⟩ := hl
  exact ⟨s, hs, first.trans run⟩

/-- Starts are published, and attempts begun, at the end. -/
theorem Step.grows (h : Step l x l') :
    (∃ more, l'.world.started = l.world.started ++ more) ∧ ∃ more,
      l'.attempts = l.attempts ++ more := by
  have published {w w' : World W} {d : Deed W} (h : World.Step w d w') :
      ∃ more, w'.started = w.started ++ more := by
    obtain ⟨news, hnews⟩ := h.history
    exact ⟨_, by rw [World.started, hnews, List.filter_append]; rfl⟩
  cases h with
  | early hsite h =>
    have h' := published h.world
    simp only [world, hsite]
    exact ⟨h', [], (List.append_nil _).symm⟩
  | act hsite h hx =>
    simp only [world, hsite]
    refine ⟨?_, [], (List.append_nil _).symm⟩
    rcases h.world with ⟨-, heq⟩ | ⟨d, -, hd⟩
    · exact ⟨[], by rw [List.append_nil]; exact congrArg World.started heq⟩
    · exact published hd
  | begin => exact ⟨⟨[], (List.append_nil _).symm⟩, [_], rfl⟩

theorem Leads.grows (run : l.Leads l') :
    (∃ more, l'.world.started = l.world.started ++ more) ∧ ∃ more,
      l'.attempts = l.attempts ++ more := by
  induction run with
  | refl => exact ⟨⟨[], (List.append_nil _).symm⟩, [], (List.append_nil _).symm⟩
  | tail _ h ih =>
    obtain ⟨x, h⟩ := h
    obtain ⟨⟨started, hstarted⟩, attempts, hattempts⟩ := ih
    obtain ⟨⟨later, hlater⟩, next, hnext⟩ := h.grows
    exact ⟨⟨started ++ later, by rw [hlater, hstarted, List.append_assoc]⟩, attempts ++ next, by
      rw [hnext, hattempts, List.append_assoc]⟩

end Line

/-! ## With one worker -/

namespace Plant

variable {p p' : Plant W} {x : Act W}

/-- The starts are those of the jobs that the pool was offered or is still to be offered. -/
def OffersAll (p : Plant W) : Prop := p.world.startedIds = (p.shop.offered ++ p.claimed).map Job.id

theorem OffersAll.act {l : Line W} (h : p.OffersAll) (hp : p.Reachable) (hx : l.InTurn p p' x)
    (hs : Step p x p') :
    p'.OffersAll := by
  -- a motion that brings nothing to the pool
  have still {m : Motion (Job W)} (hm : m.offered = []) (hw : p'.world = p.world)
    (hc : p'.claimed = p.claimed)
      (hs : Workshop.Step p.shop m p'.shop) : p'.OffersAll := by
    rw [OffersAll, hw, hs.records.1, hm, hc, List.append_nil]
    exact h
  -- a section that claims nothing
  have aside {d : Deed W} (hd : ∀ now, d ≠ .claim now) (hs : World.Step p.world d p'.world)
      (hc : p'.claimed = p.claimed) (hshop : p'.shop.offered = p.shop.offered) : p'.OffersAll := by
    rw [OffersAll, World.startedIds, hs.started_eq hd, hshop, hc]
    exact h
  cases hs with
  | call hd hs => exact aside (Deed.ne_claim hd) hs rfl rfl
  | claim hs =>
    rw [OffersAll, hs.startedIds_of_claim hp.world, ← List.append_assoc, List.map_append]
    exact congrArg (· ++ _) h
  | @offer before after job s hclaimed hs =>
    obtain ⟨hturn, -⟩ := hx
    rw [OffersAll, hs.records.1, Motion.offered, List.append_assoc]
    rw [OffersAll, hturn] at h
    exact h
  | move hm hdrain hs => exact still (Motion.of_isQuiet hm).1 rfl rfl hs
  | turnBack hm hdrain hs => exact still (Motion.of_abandoned hm).1 rfl rfl hs
  | begin hs hw => exact aside (by simp) hw rfl (by simpa [Motion.offered] using hs.records.1)
  | handBack _ hw | record _ _ hw => exact aside (by simp) hw rfl rfl
  | complete hn hs => exact still rfl rfl rfl hs

theorem Step.serial {l : Line W} (h : Step p x p') (hp : p.Reachable) (hx : l.InTurn p p' x)
    (hs : p.shop.Serial) : p'.shop.Serial := by
  cases h with
  | call | claim | handBack | record => exact hs
  | offer _ h => exact h.serial hp.shop hs fun _ _ => hx.2
  | move hm _ h => exact h.serial hp.shop hs fun _ e => by subst e; cases hm
  | turnBack hm _ h => exact h.serial hp.shop hs fun _ e => by subst e; cases hm
  | begin h | complete _ h => exact h.serial hp.shop hs (by simp)

end Plant

/-- A job that is not ended stays with its worker. -/
theorem Workshop.Step.mem_engaged {J : Type} {s s' : Workshop J} {m : Motion J} (h : Step s m s')
    (hp : s.pool.Sound) {e : Nat × J} (he : e ∈ s.pool.engaged) (hm : e ∉ m.ends) :
    e ∈ s'.pool.engaged :=
  (List.mem_append.mp ((h.engaged hp).mem_iff.mp (List.mem_append_left _ he))).resolve_right hm

namespace Line

variable {c : Config} {l l' : Line W} {x : Moment W} {d : Deed W} {p p' : Plant W} {y : Act W}

/-- How a line with one worker stands once it has its pool. -/
structure Kept (l : Line W) (p : Plant W) : Prop where
  single : p.shop.pool.config.maxSize = 1
  offers : p.OffersAll
  serial : p.shop.Serial
  begun : l.attempts ++ l.inHand.map Prod.snd = p.shop.begun
  held : ∀ e ∈ l.inHand, e ∈ p.shop.pool.engaged ∧ e.1 ∉ p.recorded
  few : l.inHand.length ≤ 1

/-- The worker takes a job only when it has recorded and ended the one before. -/
theorem Kept.free (hk : l.Kept p) (hp : p.Reachable) {n : Nat} {k : Pickup (Job W)}
    (h : p.shop.pool.take? n = some k) (hb : k.begins = true) :
    l.inHand = [] ∧ p.recorded = [] := by
  have hnone := hp.shop.engaged_of_take hk.single h hb
  have hrecorded := hp.tallied.recorded
  rw [hnone] at hrecorded
  refine ⟨List.eq_nil_iff_forall_not_mem.mpr fun e he => ?_, List.eq_nil_of_subset_nil hrecorded⟩
  have hmem := (hk.held e he).1
  rw [hnone] at hmem
  cases hmem

/-- What is in hand after an act. -/
theorem Kept.held_act (hk : l.Kept p) (hp : p.Reachable) (hx : l.InTurn p p' y)
    (h : Plant.Step p y p') :
    l.attempts ++ (l.inHand ++ y.takes).map Prod.snd = p'.shop.begun ∧
      ∀ e ∈ l.inHand ++ y.takes, e ∈ p'.shop.pool.engaged ∧ e.1 ∉ p'.recorded := by
  have hsound := hp.shop.sound.1.pool
  -- a motion that neither begins a job nor ends one
  have still {m : Motion (Job W)} (hs : Workshop.Step p.shop m p'.shop) (hbegun : m.begun = [])
      (hends : m.ends = []) (hrecorded : p'.recorded = p.recorded) :
      l.attempts ++ (l.inHand ++ []).map Prod.snd = p'.shop.begun ∧
        ∀ e ∈ l.inHand ++ [], e ∈ p'.shop.pool.engaged ∧ e.1 ∉ p'.recorded := by
    rw [List.append_nil, hs.records.2.1, hbegun, List.append_nil, hrecorded]
    exact ⟨hk.begun, fun e he =>
      ⟨hs.mem_engaged hsound (hk.held e he).1 (by simp [hends]), (hk.held e he).2⟩⟩
  cases h with
  | call | claim | handBack =>
    simp only [Act.takes, List.append_nil]
    exact ⟨hk.begun, hk.held⟩
  | offer _ hs => exact still hs rfl rfl rfl
  | move hm _ hs =>
    obtain ⟨-, hbegun, -, -, -, hends⟩ := Motion.of_isQuiet hm
    exact still hs hbegun hends rfl
  | turnBack hm _ hs =>
    obtain ⟨-, hbegun, -, hends, -⟩ := Motion.of_abandoned hm
    exact still hs hbegun hends rfl
  | @begin n job startedAt w s hs hw =>
    have hengaged := hs.engaged hsound
    have hbegun := hs.records.2.1
    simp only [Motion.engages, Motion.ends, Motion.begun, List.append_nil] at hengaged hbegun
    have hmem : (n, job) ∈ s.pool.engaged :=
      hengaged.mem_iff.mp (List.mem_append_right _ (List.mem_singleton_self _))
    cases hs with
    | begin ht hb =>
      obtain ⟨hnone, hrecorded⟩ := hk.free hp ht hb
      have hattempts := hk.begun
      rw [hnone, List.map_nil, List.append_nil] at hattempts
      rw [hnone, List.nil_append, hattempts]
      refine ⟨rfl, fun e he => ?_⟩
      obtain rfl := List.mem_singleton.mp he
      exact ⟨hmem, by simp [hrecorded]⟩
  | @record n job work a now w hbusy hn hw =>
    simp only [Act.takes, List.append_nil]
    refine ⟨hk.begun, fun e he => ⟨(hk.held e he).1, fun hmem => ?_⟩⟩
    rcases List.mem_cons.mp hmem with heq | hmem
    · exact hx (heq ▸ List.mem_map_of_mem he)
    · exact (hk.held e he).2 hmem
  | @complete n job s hn hs =>
    have hbegun := hs.records.2.1
    simp only [Motion.begun, List.append_nil] at hbegun
    simp only [Act.takes, List.append_nil, hbegun]
    refine ⟨hk.begun, fun e he =>
      ⟨hs.mem_engaged hsound (hk.held e he).1 fun hmem => ?_, fun hmem => ?_⟩⟩
    · exact (hk.held e he).2 (List.mem_singleton.mp hmem ▸ hn)
    · exact (hk.held e he).2 (List.mem_filter.mp hmem).1

theorem Kept.few_act (hk : l.Kept p) (hp : p.Reachable) (h : Plant.Step p y p') :
    (l.inHand ++ y.takes).length ≤ 1 := by
  cases h with
  | begin hs =>
    cases hs with
    | begin ht hb =>
      rw [(hk.free hp ht hb).1]
      exact Nat.le_refl 1
  | _ => simpa only [Act.takes, List.append_nil] using hk.few

theorem Kept.act (hk : l.Kept p) (hp : p.Reachable) (hx : l.InTurn p p' y) (h : Plant.Step p y p') :
    Kept { l with site := .opened p', inHand := l.inHand ++ y.takes } p' where
  single := by
    rcases h.shop with heq | ⟨m, hm⟩
    · rw [heq]
      exact hk.single
    · rw [hm.config hp.shop]
      exact hk.single
  offers := hk.offers.act hp hx h
  serial := h.serial hp hx hk.serial
  begun := (hk.held_act hp hx h).1
  held := (hk.held_act hp hx h).2
  few := hk.few_act hp h

/-- The one job in hand begins. -/
theorem Kept.begin (hk : l.Kept p) {before after : List (Nat × Job W)} {n : Nat} {job : Job W}
    (h : l.inHand = before ++ (n, job) :: after) :
    Kept { l with inHand := before ++ after, attempts := l.attempts ++ [job] } p := by
  obtain ⟨rfl, rfl⟩ := eq_nil_of_length_le_one h hk.few
  have hbegun := hk.begun
  rw [h] at hbegun
  exact ⟨hk.single, hk.offers, hk.serial, by simpa using hbegun, by simp, Nat.zero_le _⟩

/-- A line with one worker, before and after it has its pool. -/
structure Sound (l : Line W) (c : Config) : Prop where
  legal : l.site.Legal
  config : l.world.scheduler.config = c
  early : ∀ w, l.site = .unopened w → w.started = [] ∧ l.inHand = [] ∧ l.attempts = []
  late : ∀ p, l.site = .opened p → l.Kept p

theorem Sound.fresh {s : Scheduler W} (h : Scheduler.create c = .ok s) :
    Sound { site := .unopened (.fresh s) } c := by
  have hs := Scheduler.create_eq_ok h
  refine ⟨⟨⟨c, s, [], h, .refl _⟩, rfl⟩, ?_, fun w hw => ?_, fun p hp => (by cases hp)⟩
  · rw [hs]
    rfl
  · obtain rfl := Site.unopened.inj hw
    exact ⟨rfl, rfl, rfl⟩

/-- The pool starts with nothing offered, and nothing has been announced to start before. -/
theorem Kept.opened {w : World W} {pool : Pool (Job W)} (hsize : w.scheduler.config.maxPoolSize = 1)
    (hnone : w.started = []) (hpool : Pool.create w.scheduler.config.pool = .ok pool) {w' : World W}
    (h : World.Step w d w') (hd : ∀ now, d ≠ .claim now) :
    Kept { site := .opened { world := w', shop := Workshop.opened pool } }
      { world := w', shop := Workshop.opened pool } where
  single := by
    show pool.config.maxSize = 1
    rw [Pool.create_config hpool]
    exact hsize
  offers := by
    rw [Plant.OffersAll, World.startedIds, h.started_eq hd, hnone]
    rfl
  serial := .opened pool
  begun := rfl
  held := by simp
  few := Nat.zero_le _

theorem Step.sound (h : Step l x l') (hone : c.maxPoolSize = 1) (hs : l.Sound c) : l'.Sound c := by
  have hconfig {d : Deed W} {w' : World W} (h : World.Step l.world d w') :
      w'.scheduler.config = c :=
    (h.config hs.legal.world.sound).trans hs.config
  obtain ⟨site, inHand, attempts⟩ := l
  cases h with
  | @early w d site hsite h =>
    obtain rfl : _ = Site.unopened w := hsite
    obtain ⟨hnone, rfl, rfl⟩ := hs.early w rfl
    refine ⟨h.legal hs.legal, hconfig h.world, fun w₁ hw₁ => ?_, fun p hp => ?_⟩
    · cases h with
      | call hd _ h =>
        obtain rfl := Site.unopened.inj hw₁
        exact ⟨(h.started_eq (Deed.ne_claim hd)).trans hnone, rfl, rfl⟩
      | start => cases hw₁
    · cases h with
      | call => cases hp
      | start hcreated h hpool =>
        obtain rfl := Site.opened.inj hp
        exact .opened (by rw [← hone, ← hs.config]; rfl) hnone hpool h (by simp)
  | @act p p' y hsite h hx =>
    obtain rfl : _ = Site.opened p := hsite
    have hp : p.Reachable := hs.legal
    refine ⟨hp.step h, ?_, fun w hw => (by cases hw), fun q hq => ?_⟩
    · rcases h.world with ⟨-, heq⟩ | ⟨d, -, hd⟩
      · exact (congrArg (fun w : World W => w.scheduler.config) heq).trans hs.config
      · exact hconfig hd
    · obtain rfl := Site.opened.inj hq
      exact (hs.late p rfl).act hp hx h
  | @begin before after n job h =>
    refine ⟨hs.legal, hs.config, fun w hw => ?_, fun p hp => (hs.late p hp).begin h⟩
    have hempty : inHand = [] := (hs.early w hw).2.1
    simp [hempty] at h

theorem Reachable.sound (hl : l.Reachable c) (hone : c.maxPoolSize = 1) : l.Sound c := by
  obtain ⟨s, hs, run⟩ := hl
  induction run with
  | refl => exact .fresh hs
  | tail _ h ih =>
    obtain ⟨x, h⟩ := h
    exact h.sound hone ih

end Line

end Timetable
