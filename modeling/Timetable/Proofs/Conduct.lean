import Timetable.Proofs.Outlook

/-!
# The conduct of listeners

What is done in a session is done by its threads, or by the hooks of listeners. Hooks may remember,
take notes, change the registry and panic, but they make no calls to the scheduler and leave its
clock alone. What they do is not seen by anybody who does not look at listeners, and they come to an
end.
-/
namespace Timetable.Scenario

/-- Something that is done in a session other than by listeners. -/
inductive Act where
  /-- The next thing on the agenda of a thread. -/
  | step (me : Thread)
  /-- A call of the first thread that lets the second one go on with the attempt that it holds. -/
  | release (me holder : Thread)
  | call (me : Thread) (origin : Origin) (c : Call) (inTick : Bool)
  | pickUp (number : Nat)
  | leave (number : Nat)
  | giveUp (me : Thread)
  /-- The clock shows another time. -/
  | time (now : Instant)

/-- The threads whose agendas decide on an act. -/
def Act.threads : Act → List Thread
  | step me | call me .. | giveUp me => [me]
  | release me holder => [me, holder]
  | pickUp number => [.worker number]
  | leave _ | time _ => []

/-- An act, the reply given in it and the notices published in it. -/
structure Episode where
  act : Act
  reply : Option (Origin × Call × Reply)
  published : List Notice

/-- The reply that is given with a thing on an agenda, as far as it is seen. -/
def Item.gives? : Item → Option (Origin × Call × Reply)
  | reply origin c r => some (origin, c, c.seen r)
  | _ => none

namespace Session

/-- A session does something. Only calls and the clock come from outside, and the thread of the
clock does not wait for its own end. -/
inductive Does (s : Session) : Act → Session → Prop
  | step {me : Thread} {item : Item} {rest : List Item} {s' : Session}
    (hme : s.agenda me = item :: rest) (hown : item.isListeners = false)
    (hheld : ∀ origin label, item = .call origin (.release label) → s.held? label = none)
    (hjoin : item = .joinClock → me ≠ .clock) (h : s.step? me = some s') : Does s (.step me) s'
  | release {me holder : Thread} {origin : Origin} {label : String} {rest others : List Item}
    (hme : s.agenda me = .call origin (.release label) :: rest)
    (hholder : s.agenda holder = .hold label :: others) :
    Does s (.release me holder)
      ((s.setAgenda holder others).setAgenda me
        (.reply origin (.release label) (.flag true) :: rest))
  | call {me : Thread} (idle : s.agenda me = []) (origin : Origin) (c : Call) (inTick : Bool)
    (log : List LogEntry) (answer : Reply) :
    Does s (.call me origin c inTick) ({ s with log, answer, inTick }.setAgenda me [.call origin c])
  | pickUp {number : Nat} {s' : Session} (idle : s.agenda (.worker number) = [])
    (h : s.pickUp? number = some s') : Does s (.pickUp number) s'
  | leave {number : Nat} {s' : Session} (h : s.leave? number = some s') : Does s (.leave number) s'
  | giveUp {me : Thread} {s' : Session} (h : s.giveUp? me = some s') : Does s (.giveUp me) s'
  | time (now : Instant) : Does s (.time now) { s with clock := now }

/-- The reply that is given in an act. -/
def given (s : Session) : Act → Option (Origin × Call × Reply)
  | .step me => (s.agenda me).head?.bind Item.gives?
  | _ => none

/-- What is told of an act that leads from one session to another. -/
def episode (s : Session) (a : Act) (s' : Session) : Episode :=
  ⟨a, s.given a, s.scheduler.outbox.news s'.scheduler.outbox⟩

/-- Sessions that differ in nothing but their listeners. -/
structure Alike (s t : Session) : Prop where
  scheduler : s.scheduler = t.scheduler
  pool : s.pool = t.pool
  clock : s.clock = t.clock
  labels : s.labels = t.labels
  inTick : s.inTick = t.inTick
  orphaned : s.orphaned = t.orphaned
  agenda : ∀ me, seen (s.agenda me) = seen (t.agenda me)

/-- Nobody has two agendas, and on every agenda everything has its place. -/
structure Orderly (s : Session) : Prop where
  distinct : s.Distinct
  tidy : ∀ me, Tidy (s.agenda me)

/-- The thread has nothing to do for listeners first. -/
def Clear (s : Session) (me : Thread) : Prop :=
  ∀ x rest, s.agenda me = x :: rest → x.isListeners = false

end Session

/-- What a hook leaves behind: what the listeners remember, all that is theirs in a session, and
whether it panics. -/
structure Reacted (M : Type) where
  memory : M
  notifier : Notifier Reaction
  trail : AuditTrail
  listeners : List (String × ListenerId)
  firings : List ((ListenerId × Nat) × Nat)
  log : List LogEntry
  panics : Bool

/-- How the hooks of listeners behave that remember an `M`. They see everything. -/
def Conduct (M : Type) : Type := M → Session → ListenerId → Reaction → Notice → Reacted M

/-- The session after a hook of the thread; where it panics the panic is still to be caught. -/
def Session.hooked {M : Type} (s : Session) (me : Thread) (r : Reacted M) (rest : List Item) :
    Session :=
  { s with
    notifier := r.notifier
    trail := r.trail
    listeners := r.listeners
    firings := r.firings
    log := r.log }.setAgenda me ((if r.panics then [Item.crash] else []) ++ Item.guard :: rest)

namespace Conduct

variable {M : Type} {c : Conduct M} {m m' : M} {s s' : Session}

/-- A hook is called, or comes to its end. -/
inductive Quiet (c : Conduct M) : M × Session → M × Session → Prop
  | hook {m : M} {s : Session} {me : Thread} {id : ListenerId} {reaction : Reaction} {n : Notice}
    {rest : List Item} (hme : s.agenda me = .hook id reaction n :: rest) :
    Quiet c (m, s) ((c m s id reaction n).memory, s.hooked me (c m s id reaction n) rest)
  | ending {m : M} {s s' : Session} {me : Thread} {item : Item} {rest : List Item}
    (hme : s.agenda me = item :: rest) (hitem : item = .crash ∨ item = .guard)
    (h : s.step? me = some s') : Quiet c (m, s) (m, s')

/-- A run, with what is told of it. The hooks run whenever they like. -/
inductive Run (c : Conduct M) (m : M) (s : Session) : List Episode → M → Session → Prop
  | refl : Run c m s [] m s
  | quiet {told : List Episode} {m₁ m₂ : M} {s₁ s₂ : Session} (run : Run c m s told m₁ s₁)
    (h : c.Quiet (m₁, s₁) (m₂, s₂)) : Run c m s told m₂ s₂
  | act {told : List Episode} {m₁ : M} {s₁ s₂ : Session} {a : Act} (run : Run c m s told m₁ s₁)
    (h : s₁.Does a s₂) : Run c m s (told ++ [s₁.episode a s₂]) m₁ s₂

end Conduct

namespace Session

variable {M : Type} {c : Conduct M} {m m' : M} {s s' t t' u : Session} {me : Thread} {a : Act}
  {item : Item} {rest items : List Item}

/-! ## Sessions that look the same -/

theorem Alike.refl (s : Session) : s.Alike s := ⟨rfl, rfl, rfl, rfl, rfl, rfl, fun _ => rfl⟩

theorem Alike.symm (h : s.Alike t) : t.Alike s :=
  ⟨h.scheduler.symm, h.pool.symm, h.clock.symm, h.labels.symm, h.inTick.symm, h.orphaned.symm,
    fun me => (h.agenda me).symm⟩

theorem Alike.trans (h : s.Alike t) (h' : t.Alike u) : s.Alike u :=
  ⟨h.scheduler.trans h'.scheduler, h.pool.trans h'.pool, h.clock.trans h'.clock,
    h.labels.trans h'.labels, h.inTick.trans h'.inTick, h.orphaned.trans h'.orphaned, fun me =>
      (h.agenda me).trans (h'.agenda me)⟩

theorem Alike.bare (h : s.Alike t) : s.bare = t.bare := by
  simp only [Session.bare, h.scheduler, h.pool, h.clock, h.labels, h.inTick, h.orphaned]

theorem alike_of_bare (h : s.bare = t.bare)
    (hagenda : ∀ me, seen (s.agenda me) = seen (t.agenda me)) :
    s.Alike t := by
  simp only [Session.bare, Session.mk.injEq, true_and] at h
  obtain ⟨hscheduler, hpool, hclock, hlabels, hinTick, horphaned⟩ := h
  exact ⟨hscheduler, hpool, hclock, hlabels, hinTick, horphaned, hagenda⟩

/-- Agendas of which the same is seen are given to the same thread. -/
theorem Alike.give (hbare : s'.bare = t'.bare) (hs : s'.agendas = s.agendas)
    (ht : t'.agendas = t.agendas)
    (hagenda : ∀ me, seen (s.agenda me) = seen (t.agenda me)) {items' : List Item}
    (hitems : seen items = seen items') :
    (s'.setAgenda me items).Alike (t'.setAgenda me items') := by
  refine alike_of_bare hbare fun other => ?_
  have hs' : s'.agenda other = s.agenda other := by rw [Session.agenda, hs, Session.agenda]
  have ht' : t'.agenda other = t.agenda other := by rw [Session.agenda, ht, Session.agenda]
  rw [agenda_setAgenda, agenda_setAgenda, hs', ht']
  split
  · exact hitems
  · exact hagenda other

theorem Orderly.give (h : s.Orderly) (hs : s'.agendas = s.agendas) (hitems : Tidy items) :
    (s'.setAgenda me items).Orderly := by
  refine ⟨distinct_setAgenda h.distinct hs me items, fun other => ?_⟩
  rw [agenda_setAgenda]
  split
  · exact hitems
  · rw [Session.agenda, hs]
    exact h.tidy other

/-! ## What hooks do -/

/-- A hook changes nothing that is not the listeners'. -/
theorem alike_hooked {r : Reacted M} {id : ListenerId} {reaction : Reaction} {n : Notice}
    (hme : s.agenda me = .hook id reaction n :: rest) : s.Alike (s.hooked me r rest) := by
  refine alike_of_bare rfl fun other => ?_
  rw [hooked, agenda_setAgenda]
  split
  · subst other
    rw [hme]
    cases r.panics <;> rfl
  · rfl

theorem Orderly.hooked (h : s.Orderly) {r : Reacted M} {id : ListenerId}
    {reaction : Reaction} {n : Notice}
    (hme : s.agenda me = .hook id reaction n :: rest) : (s.hooked me r rest).Orderly := by
  have htidy := h.tidy me
  rw [hme] at htidy
  have hguard : Tidy (.guard :: rest) := ⟨htidy.1, htidy.2⟩
  refine h.give rfl ?_
  cases r.panics with
  | true => exact ⟨⟨rest, rfl⟩, hguard⟩
  | false => exact hguard

/-- The next thing is the end of a hook, or a panic that is caught there. -/
theorem Orderly.step?_ending (h : s.Orderly) (hme : s.agenda me = item :: rest)
    (hitem : item = .crash ∨ item = .guard) :
    s.step? me = some (s.setAgenda me (unwind (item :: rest))) ∧
      seen (unwind (item :: rest)) = seen (item :: rest) ∧ Tidy (unwind (item :: rest)) := by
  have htidy := h.tidy me
  rw [hme] at htidy
  rcases hitem with rfl | rfl
  · obtain ⟨⟨others, rfl⟩, hrest⟩ := htidy
    exact ⟨by rw [step?, hme]; rfl, rfl, hrest.2⟩
  · exact ⟨by rw [step?, hme]; rfl, rfl, htidy.2⟩

theorem length_unwind_le (items : List Item) : (unwind items).length ≤ items.length - 1 := by
  induction items with
  | nil => exact Nat.le_refl 0
  | cons x rest ih =>
    cases x with
    | guard => exact Nat.le_refl _
    | _ => exact ih.trans (Nat.sub_le _ _)

end Session

namespace Conduct

open Session Relation

variable {M : Type} {c : Conduct M} {m : M} {s : Session} {p q r : M × Session}
  {me : Thread} {item : Item} {rest : List Item}

theorem Quiet.stays (h : c.Quiet p q) (hp : p.2.Orderly) : q.2.Orderly ∧ p.2.Alike q.2 := by
  cases h with
  | hook hme => exact ⟨hp.hooked hme, alike_hooked hme⟩
  | @ending m s s' me item rest hme hitem hstep =>
    obtain ⟨hs', hseen, htidy⟩ := hp.step?_ending hme hitem
    obtain rfl := Option.some.inj (hstep.symm.trans hs')
    refine ⟨hp.give rfl htidy, alike_of_bare rfl fun other => ?_⟩
    rw [agenda_setAgenda]
    split
    · subst other
      rw [hme, hseen]
    · rfl

/-! ## Hooks come to an end -/

/-- What hooks do on one thread. -/
def Serves (c : Conduct M) (me : Thread) (p q : M × Session) : Prop :=
  ReflTransGen c.Quiet p q ∧ ∀ other, other ≠ me → q.2.agenda other = p.2.agenda other

theorem Serves.trans (h : c.Serves me p q) (h' : c.Serves me q r) : c.Serves me p r :=
  ⟨h.1.trans h'.1, fun other hne => (h'.2 other hne).trans (h.2 other hne)⟩

theorem orderly_of_quiets (h : ReflTransGen c.Quiet p q) (hp : p.2.Orderly) :
    q.2.Orderly ∧ p.2.Alike q.2 := by
  induction h with
  | refl => exact ⟨hp, .refl _⟩
  | tail _ hstep ih =>
    obtain ⟨horderly, halike⟩ := hstep.stays ih.1
    exact ⟨horderly, ih.2.trans halike⟩

theorem Serves.stays (h : c.Serves me p q) (hp : p.2.Orderly) : q.2.Orderly ∧ p.2.Alike q.2 :=
  orderly_of_quiets h.1 hp

theorem serves_ending (hs : s.Orderly) (hme : s.agenda me = item :: rest)
    (hitem : item = .crash ∨ item = .guard) :
    c.Serves me (m, s) (m, s.setAgenda me (unwind (item :: rest))) := by
  refine ⟨.single (.ending hme hitem (hs.step?_ending hme hitem).1), fun other hne => ?_⟩
  exact (agenda_setAgenda ..).trans (if_neg hne)

/-- One thing of a listener is done after the other. -/
theorem exists_shorter (hs : s.Orderly) (hme : s.agenda me = item :: rest)
    (hitem : item.isListeners) :
    ∃ q, c.Serves me (m, s) q ∧ (q.2.agenda me).length ≤ rest.length := by
  have ending (hitem : item = .crash ∨ item = .guard) :
      ∃ q, c.Serves me (m, s) q ∧ (q.2.agenda me).length ≤ rest.length := by
    refine ⟨_, serves_ending hs hme hitem, ?_⟩
    rw [agenda_setAgenda, if_pos rfl]
    exact length_unwind_le _
  cases item with
  | crash => exact ending (.inl rfl)
  | guard => exact ending (.inr rfl)
  | hook id reaction n =>
    have hhook :
        c.Serves me (m, s) ((c m s id reaction n).memory, s.hooked me (c m s id reaction n) rest) :=
      ⟨.single (.hook hme), fun other hne => (agenda_setAgenda ..).trans (if_neg hne)⟩
    have horderly := (hhook.stays hs).1
    have hagenda : (s.hooked me (c m s id reaction n) rest).agenda me =
        (if (c m s id reaction n).panics then [.crash] else []) ++ .guard :: rest :=
      (agenda_setAgenda ..).trans (if_pos rfl)
    -- whether the hook panicked or not, its end leaves the rest of the agenda
    obtain ⟨item, others, hitem, hend, hunwind⟩ : ∃ item others, (item = .crash ∨ item = .guard) ∧
        (s.hooked me (c m s id reaction n) rest).agenda me = item :: others ∧
        unwind (item :: others) = rest := by
      cases hpanics : (c m s id reaction n).panics with
      | true => exact ⟨.crash, .guard :: rest, .inl rfl, by rw [hagenda, hpanics]; rfl, rfl⟩
      | false => exact ⟨.guard, rest, .inr rfl, by rw [hagenda, hpanics]; rfl, rfl⟩
    refine ⟨_, hhook.trans (serves_ending horderly hend hitem), ?_⟩
    rw [agenda_setAgenda, if_pos rfl, hunwind]
  | _ => cases hitem

/-- The hooks of a thread come to an end. -/
theorem exists_clear (hp : p.2.Orderly) (me : Thread) : ∃ q, c.Serves me p q ∧ q.2.Clear me := by
  induction hlength : (p.2.agenda me).length using Nat.strong_induction_on generalizing p with
  | _ length ih =>
    by_cases hclear : p.2.Clear me
    · exact ⟨p, ⟨.refl, fun _ _ => rfl⟩, hclear⟩
    · simp only [Clear, not_forall] at hclear
      obtain ⟨x, rest, hme, hx⟩ := hclear
      obtain ⟨q, hserves, hshorter⟩ := exists_shorter (c := c) (m := p.1) hp hme (by simpa using hx)
      have hless : (q.2.agenda me).length < length := by
        rw [← hlength, hme]
        exact Nat.lt_succ_of_le hshorter
      obtain ⟨r, hserves', hclear'⟩ := ih _ hless (hserves.stays hp).1 rfl
      exact ⟨r, hserves.trans hserves', hclear'⟩

/-- The hooks of several threads come to an end. -/
theorem exists_all_clear (hp : p.2.Orderly) (threads : List Thread) :
    ∃ q, ReflTransGen c.Quiet p q ∧ q.2.Orderly ∧ p.2.Alike q.2 ∧ ∀ me ∈ threads, q.2.Clear me := by
  induction threads with
  | nil => exact ⟨p, .refl, hp, .refl _, by simp⟩
  | cons me threads ih =>
    obtain ⟨q, hquiet, horderly, halike, hclear⟩ := ih
    obtain ⟨r, hserves, hme⟩ := exists_clear (c := c) horderly me
    obtain ⟨horderly', halike'⟩ := hserves.stays horderly
    refine ⟨r, hquiet.trans hserves.1, horderly', halike.trans halike', fun other hother => ?_⟩
    by_cases hne : other = me
    · exact hne ▸ hme
    · rw [Clear, hserves.2 other hne]
      exact hclear other ((List.mem_cons.mp hother).resolve_left hne)

end Conduct

end Timetable.Scenario
