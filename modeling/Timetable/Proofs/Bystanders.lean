import Timetable.Proofs.Conduct
import Timetable.Proofs.Soundness

/-!
# Listeners are bystanders

Two sessions that differ in nothing but their listeners go the same way: whatever can be done in one
can be done in the other, with the same replies and the same notices, and afterwards the sessions
still differ in nothing but their listeners.
-/
namespace Timetable.Scenario

namespace Session

variable {s s' t t' : Session} {me : Thread} {a : Act} {item : Item} {rest : List Item}

/-! ## What is done -/

/-- A thread that has waited for the thread of the clock finds it idle. -/
theorem idle_of_joinClock (hme : s.agenda me = .joinClock :: rest) (hne : me ≠ .clock)
    (h : s.step? me = some s') : s.agenda .clock = [] := by
  cases hclock : s.agenda .clock with
  | nil => rfl
  | cons x others => simp [step?, hme, run?, hne, hclock] at h

/-- What a thread does it also does without listeners. -/
theorem exists_same (hs : s.Orderly) (hme : s.agenda me = item :: rest)
    (hown : item.isListeners = false)
    (hheld : ∀ origin label, item = .call origin (.release label) → s.held? label = none)
    (hjoin : item = .joinClock → me ≠ .clock) (h : s.step? me = some s') :
    ∃ after without, s.bare.run? me item.masked (seen rest) = some without ∧ s.Same after without ∧
      s' = after.1.setAgenda me after.2 := by
  have hidle (hitem : item = .joinClock) : me ≠ .clock ∧ s.agenda .clock = [] :=
    ⟨hjoin hitem, idle_of_joinClock (hitem ▸ hme) (hjoin hitem) h⟩
  have hsame := @same_run? s me item rest hown (hme ▸ hs.tidy me) hidle hheld
  simp only [step?, hme] at h
  obtain ⟨after, hrun, hs'⟩ := Option.map_eq_some_iff.mp h
  rw [hrun] at hsame
  cases hwithout : s.bare.run? me item.masked (seen rest) with
  | none => rw [hwithout] at hsame; cases hsame
  | some without =>
    rw [hwithout] at hsame
    cases hsame with
    | some hsame => exact ⟨after, without, rfl, hsame, hs'.symm⟩

theorem exists_step? (hs : s.Orderly) (hme : s.agenda me = item :: rest)
    (hown : item.isListeners = false)
    (hheld : ∀ origin label, item = .call origin (.release label) → s.held? label = none)
    (hjoin : item = .joinClock → me ≠ .clock ∧ s.agenda .clock = [])
    {without : Session × List Item} (h : s.bare.run? me item.masked (seen rest) = some without) :
    ∃ s', s.step? me = some s' := by
  have hsame := @same_run? s me item rest hown (hme ▸ hs.tidy me) hjoin hheld
  rw [h] at hsame
  cases hrun : s.run? me item rest with
  | none => rw [hrun] at hsame; cases hsame
  | some after =>
    exact ⟨after.1.setAgenda me after.2, by simp only [step?, hme, hrun, Option.map_some]⟩

/-- What a thread that waits does when its time is up. -/
def lastWord? (s : Session) : Item → Option Item
  | .awaitExit origin c => some (.reply origin c (.flag false))
  | .awaitIdle origin c => (s.scheduler.awaitSettled? true).map fun r => .reply origin c (.flag r)
  | _ => none

/-- A thread that waits gives up with a reply. -/
theorem giveUp?_eq_some : s.giveUp? me = some s' ↔ ∃ item rest last, s.agenda me = item :: rest ∧
    s.lastWord? item = some last ∧ s' = s.setAgenda me (last :: rest) := by
  unfold giveUp?
  constructor
  · intro h
    split at h
    · rename_i hme
      exact ⟨_, _, _, hme, rfl, (Option.some.inj h).symm⟩
    · rename_i hme
      obtain ⟨r, hr, hs'⟩ := Option.map_eq_some_iff.mp h
      exact ⟨_, _, _, hme, by rw [lastWord?, hr]; rfl, hs'.symm⟩
    · cases h
  · rintro ⟨item, rest, last, hme, hlast, rfl⟩
    rw [hme]
    cases item with
    | awaitExit origin c =>
      cases hlast
      rfl
    | awaitIdle origin c =>
      obtain ⟨r, hr, rfl⟩ := Option.map_eq_some_iff.mp hlast
      simp only [hr, Option.map_some]
    | _ => cases hlast

/-- Only a thread that waits gives up, and it then has a reply. -/
theorem lastWord?_eq_some {last : Item} (h : s.lastWord? item = some last) :
    item.isListeners = false ∧ (∀ origin c r, item ≠ .reply origin c r) ∧ last.isFree ∧
      last.isListeners = false := by
  cases item with
  | awaitExit origin c =>
    cases h
    exact ⟨rfl, by simp, rfl, rfl⟩
  | awaitIdle origin c =>
    obtain ⟨r, -, rfl⟩ := Option.map_eq_some_iff.mp h
    exact ⟨rfl, by simp, rfl, rfl⟩
  | _ => cases h

theorem Does.stays (h : s.Does a s') (hs : s.Orderly) : s'.Orderly := by
  cases h with
  | step hme hown hheld hjoin h =>
    obtain ⟨after, without, -, hsame, rfl⟩ := exists_same hs hme hown hheld hjoin h
    exact hs.give hsame.agendas hsame.tidy
  | @release me holder origin label rest others hme hholder =>
    have hrest := hme ▸ hs.tidy me
    have hothers := hholder ▸ hs.tidy holder
    have hreleased : (s.setAgenda holder others).Orderly := hs.give rfl hothers.2
    exact hreleased.give rfl ⟨trivial, hrest.2⟩
  | call idle origin c inTick log answer => exact hs.give rfl ⟨trivial, trivial⟩
  | pickUp idle h =>
    obtain ⟨taken, -, rfl⟩ := Option.map_eq_some_iff.mp h
    simp only
    split
    · exact hs.give rfl ⟨trivial, trivial⟩
    · exact ⟨hs.distinct, hs.tidy⟩
  | leave h =>
    obtain ⟨pool, -, rfl⟩ := Option.map_eq_some_iff.mp h
    exact ⟨hs.distinct, hs.tidy⟩
  | @giveUp me s' h =>
    obtain ⟨item, rest, last, hme, hlast, rfl⟩ := giveUp?_eq_some.mp h
    exact hs.give rfl ⟨fits_of_isFree (lastWord?_eq_some hlast).2.2.1 _, (hme ▸ hs.tidy me).2⟩
  | time now => exact ⟨hs.distinct, hs.tidy⟩

/-! ## The same is done -/

theorem eq_of_masked {x y : Item} (h : x.masked = y.masked)
    (hx : ∀ origin c r, x ≠ .reply origin c r) :
    x = y := by
  have hx' : x.masked = x := by
    cases x with
    | reply origin c r => exact absurd rfl (hx origin c r)
    | _ => rfl
  rw [hx'] at h
  cases y with
  | reply origin c r => exact absurd h (hx origin c _)
  | _ => exact h

theorem gives?_of_masked {x y : Item} (h : x.masked = y.masked) : x.gives? = y.gives? := by
  have hmasked (x : Item) : x.masked.gives? = x.gives? := by
    cases x with
    | reply origin c r => cases hc :
      c.asksListeners <;> simp [Item.masked, Item.gives?, Call.seen, hc]
    | _ => rfl
  rw [← hmasked x, h, hmasked]

theorem Alike.cons_cons (h : s.Alike t) (hme : s.agenda me = item :: rest)
    (hown : item.isListeners = false)
    {other : Item} {others : List Item} (hme' : t.agenda me = other :: others)
    (hown' : other.isListeners = false) : item.masked = other.masked ∧ seen rest = seen others := by
  have hseen := h.agenda me
  rw [hme, hme', seen_cons_of_own hown, seen_cons_of_own hown'] at hseen
  exact List.cons.inj hseen

theorem Alike.exists_cons (h : s.Alike t) (hclear : t.Clear me) (hme : s.agenda me = item :: rest)
    (hown : item.isListeners = false) : ∃ other others, t.agenda me = other :: others ∧
      other.isListeners = false ∧ item.masked = other.masked ∧ seen rest = seen others := by
  cases hme' : t.agenda me with
  | nil =>
    have hseen := h.agenda me
    rw [hme, hme', seen_cons_of_own hown] at hseen
    cases hseen
  | cons other others =>
    have hown' := hclear other others hme'
    exact ⟨other, others, rfl, hown', h.cons_cons hme hown hme' hown'⟩

/-- A thread with nothing to do is idle in the other session too: behind hooks something
would be seen. -/
theorem Alike.idle (h : s.Alike t) (ht : t.Orderly) (hme : s.agenda me = []) :
    t.agenda me = [] := by
  cases hme' : t.agenda me with
  | nil => rfl
  | cons other others =>
    have hseen := h.agenda me
    rw [hme, hme'] at hseen
    cases hown : other.isListeners with
    | true =>
      obtain ⟨e, _, herrand⟩ := (hme' ▸ ht.tidy me).errand_of_listeners hown
      rw [herrand] at hseen
      cases hseen
    | false =>
      rw [seen_cons_of_own hown] at hseen
      cases hseen

theorem held?_eq_none (hs : s.Orderly) {label : String} :
    s.held? label = none ↔ ∀ me rest, s.agenda me ≠ .hold label :: rest := by
  constructor
  · intro hheld me rest hme
    have hfind : s.agendas.find? (fun a => a.1 = me) ≠ none := by
      intro hnone
      rw [agenda, hnone] at hme
      cases hme
    obtain ⟨⟨other, items⟩, hfind⟩ := Option.ne_none_iff_exists'.mp hfind
    have hmem := List.mem_of_find?_eq_some hfind
    rw [agenda, hfind] at hme
    obtain rfl : items = .hold label :: rest := hme
    have hnone := List.findSome?_eq_none_iff.mp hheld _ hmem
    simp at hnone
  · intro h
    refine List.findSome?_eq_none_iff.mpr fun entry hmem => ?_
    obtain ⟨me, items⟩ := entry
    have hme : s.agenda me = items := by
      rw [agenda, (find?_of_nodup hs.distinct).mpr ⟨hmem, rfl⟩]; rfl
    cases items with
    | nil => rfl
    | cons x rest =>
      cases x with
      | hold other =>
        have hne : other ≠ label := fun hlabel => h me rest (hlabel ▸ hme)
        exact if_neg hne
      | _ => rfl

theorem Alike.held?_eq_none (h : s.Alike t) (hs : s.Orderly) (ht : t.Orderly) {label : String}
    (hheld : s.held? label = none) : t.held? label = none := by
  rw [Session.held?_eq_none ht]
  rw [Session.held?_eq_none hs] at hheld
  intro me rest hme
  have hseen := h.agenda me
  rw [hme, seen_cons_of_own rfl] at hseen
  cases hagenda : s.agenda me with
  | nil => rw [hagenda] at hseen; cases hseen
  | cons x others =>
    rw [hagenda] at hseen
    cases hx : x.isListeners with
    | true =>
      obtain ⟨e, _, herrand⟩ := (hagenda ▸ hs.tidy me).errand_of_listeners hx
      rw [herrand] at hseen
      cases hseen
    | false =>
      rw [seen_cons_of_own hx] at hseen
      obtain rfl := eq_of_masked (x := .hold label) (List.cons.inj hseen).1.symm (by simp)
      exact hheld me others hagenda

theorem Alike.pickUp (hst : s.Alike t) {number : Nat} (h : s.pickUp? number = some s')
    (h' : t.pickUp? number = some t') : s'.Alike t' := by
  obtain ⟨taken, htaken, rfl⟩ := Option.map_eq_some_iff.mp h
  obtain ⟨taken', htaken', rfl⟩ := Option.map_eq_some_iff.mp h'
  rw [hst.pool, htaken'] at htaken
  obtain rfl := Option.some.inj htaken
  have htook : { s with pool := some taken'.pool }.Alike { t with pool := some taken'.pool } :=
    ⟨hst.scheduler, rfl, hst.clock, hst.labels, hst.inTick, hst.orphaned, hst.agenda⟩
  simp only
  split
  · exact .give htook.bare rfl rfl htook.agenda (by rw [hst.clock])
  · have habandon :
        s.scheduler.abandon taken'.job s.clock = t.scheduler.abandon taken'.job t.clock := by
      rw [hst.scheduler, hst.clock]
    exact ⟨habandon, rfl, hst.clock, hst.labels, hst.inTick, hst.orphaned, hst.agenda⟩

theorem Alike.lastWord?_eq (hst : s.Alike t) (item : Item) :
    s.lastWord? item = t.lastWord? item := by
  cases item with
  | awaitIdle origin c => rw [lastWord?, lastWord?, hst.scheduler]
  | _ => rfl

theorem Alike.giveUp (hst : s.Alike t) (h : s.giveUp? me = some s') (h' : t.giveUp? me = some t') :
    s'.Alike t' := by
  obtain ⟨item, rest, last, hme, hlast, rfl⟩ := giveUp?_eq_some.mp h
  obtain ⟨item', rest', last', hme', hlast', rfl⟩ := giveUp?_eq_some.mp h'
  obtain ⟨hown, hreply, -, hlistens⟩ := lastWord?_eq_some hlast
  obtain ⟨hmasked, hrest⟩ := hst.cons_cons hme hown hme' (lastWord?_eq_some hlast').1
  obtain rfl := eq_of_masked hmasked hreply
  obtain rfl : last = last' := by
    rw [hst.lastWord?_eq, hlast'] at hlast
    exact (Option.some.inj hlast).symm
  exact .give hst.bare rfl rfl hst.agenda
    (by rw [seen_cons_of_own hlistens, seen_cons_of_own hlistens, hrest])

/-- Sessions that look the same look the same after the same act, and the same reply is
given in it. -/
theorem Does.alike (h : s.Does a s') (h' : t.Does a t') (hs : s.Orderly) (ht : t.Orderly)
    (hst : s.Alike t) :
    s'.Alike t' ∧ s.given a = t.given a := by
  cases h with
  | @step me item rest s' hme hown hheld hjoin h =>
    cases h' with
    | @step _ other others t' hme' hown' hheld' hjoin' h' =>
      obtain ⟨hmasked, hrest⟩ := hst.cons_cons hme hown hme' hown'
      obtain ⟨after, without, hrun, hsame, rfl⟩ := exists_same hs hme hown hheld hjoin h
      obtain ⟨after', without', hrun', hsame', rfl⟩ := exists_same ht hme' hown' hheld' hjoin' h'
      rw [hst.bare, hmasked, hrest, hrun'] at hrun
      obtain rfl := Option.some.inj hrun
      refine ⟨.give (hsame.bare.trans hsame'.bare.symm) hsame.agendas hsame'.agendas hst.agenda
        (hsame.seen.trans hsame'.seen.symm), ?_⟩
      simp only [given, hme, hme', List.head?_cons, Option.bind_some]
      exact gives?_of_masked hmasked
  | @release me holder origin label rest others hme hholder =>
    cases h' with
    | release hme' hholder' =>
      obtain ⟨hcall, hrest⟩ := hst.cons_cons hme rfl hme' rfl
      obtain ⟨-, hothers⟩ := hst.cons_cons hholder rfl hholder' rfl
      cases hcall
      have hreleased : (s.setAgenda holder others).Alike (t.setAgenda holder _) :=
        .give hst.bare rfl rfl hst.agenda hothers
      refine ⟨.give hreleased.bare rfl rfl hreleased.agenda ?_, rfl⟩
      rw [seen_cons_of_own rfl, seen_cons_of_own rfl, hrest]
  | call idle origin c inTick log answer =>
    cases h' with
    | call idle' origin c inTick log' answer' =>
      have hbare :
          { s with log, answer, inTick }.bare =
            { t with log := log', answer := answer', inTick }.bare := by
        simp only [Session.bare, hst.scheduler, hst.pool, hst.clock, hst.labels, hst.orphaned]
      exact ⟨.give hbare rfl rfl hst.agenda rfl, rfl⟩
  | pickUp idle h =>
    cases h' with
    | pickUp idle' h' =>
      exact ⟨hst.pickUp h h', rfl⟩
  | leave h =>
    cases h' with
    | leave h' =>
      obtain ⟨pool, hpool, rfl⟩ := Option.map_eq_some_iff.mp h
      obtain ⟨pool', hpool', rfl⟩ := Option.map_eq_some_iff.mp h'
      rw [hst.pool, hpool'] at hpool
      obtain rfl := Option.some.inj hpool
      exact ⟨⟨hst.scheduler, rfl, hst.clock, hst.labels, hst.inTick, hst.orphaned, hst.agenda⟩, rfl⟩
  | giveUp h =>
    cases h' with
    | giveUp h' =>
      exact ⟨hst.giveUp h h', rfl⟩
  | time now =>
    cases h' with
    | time =>
      exact ⟨⟨hst.scheduler, hst.pool, rfl, hst.labels, hst.inTick, hst.orphaned, hst.agenda⟩, rfl⟩

/-- What is done in a session can be done in one that looks the same, once no hook is in the way. -/
theorem Does.exists_alike (h : s.Does a s') (hs : s.Orderly) (ht : t.Orderly) (hst : s.Alike t)
    (hclear : ∀ me ∈ a.threads, t.Clear me) : ∃ t', t.Does a t' := by
  cases h with
  | @step me item rest s' hme hown hheld hjoin h =>
    obtain ⟨other, others, hme', hown', hmasked, hrest⟩ :=
      hst.exists_cons (hclear me (by simp [Act.threads])) hme hown
    have hjoin' (hother : other = .joinClock) : me ≠ .clock ∧ t.agenda .clock = [] := by
      subst hother
      have hitem : Item.joinClock = item := eq_of_masked hmasked.symm (by simp)
      subst hitem
      exact ⟨hjoin rfl, hst.idle ht (idle_of_joinClock hme (hjoin rfl) h)⟩
    have hheld' : ∀ origin label, other = .call origin (.release label) → t.held? label = none := by
      rintro origin label rfl
      have hitem : Item.call origin (.release label) = item := eq_of_masked hmasked.symm (by simp)
      exact hst.held?_eq_none hs ht (hheld origin label hitem.symm)
    obtain ⟨after, without, hrun, -, -⟩ := exists_same hs hme hown hheld hjoin h
    rw [hst.bare, hmasked, hrest] at hrun
    obtain ⟨t', h'⟩ := exists_step? ht hme' hown' hheld' hjoin' hrun
    exact ⟨t', .step hme' hown' hheld' (fun hother => (hjoin' hother).1) h'⟩
  | @release me holder origin label rest others hme hholder =>
    obtain ⟨x, rest', hme', -, hx, -⟩ := hst.exists_cons (hclear me (by simp [Act.threads])) hme rfl
    obtain ⟨y, others', hholder', -, hy, -⟩ :=
      hst.exists_cons (hclear holder (by simp [Act.threads])) hholder rfl
    obtain rfl := eq_of_masked hx (by simp)
    obtain rfl := eq_of_masked hy (by simp)
    exact ⟨_, .release hme' hholder'⟩
  | call idle origin c inTick log answer =>
    exact ⟨_, .call (hst.idle ht idle) origin c inTick log answer⟩
  | pickUp idle h =>
    obtain ⟨taken, htaken, rfl⟩ := Option.map_eq_some_iff.mp h
    have idle' := hst.idle ht idle
    rw [hst.pool] at htaken
    exact ⟨_, .pickUp idle' (by rw [pickUp?, htaken]; rfl)⟩
  | leave h =>
    obtain ⟨pool, hpool, rfl⟩ := Option.map_eq_some_iff.mp h
    rw [hst.pool] at hpool
    exact ⟨_, .leave (by rw [leave?, hpool]; rfl)⟩
  | @giveUp me s' h =>
    obtain ⟨item, rest, last, hme, hlast, rfl⟩ := giveUp?_eq_some.mp h
    obtain ⟨hown, hreply, -⟩ := lastWord?_eq_some hlast
    obtain ⟨other, others, hme', -, hmasked, -⟩ :=
      hst.exists_cons (hclear me (by simp [Act.threads])) hme hown
    obtain rfl := eq_of_masked hmasked hreply
    rw [hst.lastWord?_eq] at hlast
    exact ⟨_, .giveUp (giveUp?_eq_some.mpr ⟨item, others, last, hme', hlast, rfl⟩)⟩
  | time now => exact ⟨_, .time now⟩

end Session

namespace Conduct

open Session Relation

variable {M N : Type} {c : Conduct M} {d : Conduct N} {m m' : M} {n n' : N} {s s' t t' : Session}
  {told told' : List Episode}

theorem Run.stays (run : c.Run m s told m' s') (hs : s.Orderly) : s'.Orderly := by
  induction run with
  | refl => exact hs
  | quiet _ h ih => exact (h.stays ih).1
  | act _ h ih => exact h.stays ih

theorem Run.quiets {p : M × Session} (run : c.Run m s told m' s')
    (h : ReflTransGen c.Quiet (m', s') p) :
    c.Run m s told p.1 p.2 := by
  induction h with
  | refl => exact run
  | tail _ h ih => exact ih.quiet h

/-- A run ends with an act, after which only hooks run. -/
theorem Run.ends (run : c.Run m s told m' s') (hs : s.Orderly) :
    told = [] ∧ s.Alike s' ∨ ∃ front m₁ s₁ a s₂, told = front ++ [s₁.episode a s₂] ∧
    c.Run m s front m₁ s₁ ∧
      s₁.Does a s₂ ∧ s₂.Alike s' := by
  induction run with
  | refl => exact .inl ⟨rfl, .refl s⟩
  | quiet run h ih =>
    have halike := (h.stays (run.stays hs)).2
    rcases ih with ⟨rfl, hsame⟩ | ⟨front, m₁, s₁, a, s₂, rfl, hfront, hdoes, hsame⟩
    · exact .inl ⟨rfl, hsame.trans halike⟩
    · exact .inr ⟨front, m₁, s₁, a, s₂, rfl, hfront, hdoes, hsame.trans halike⟩
  | act run h ih => exact .inr ⟨_, _, _, _, _, rfl, run, h, .refl _⟩

theorem episode_eq {a : Act} (hst : s.Alike t) (hst' : s'.Alike t')
    (hgiven : s.given a = t.given a) :
    s.episode a s' = t.episode a t' := by
  rw [episode, episode, hgiven, hst.scheduler, hst'.scheduler]

/-- Two runs with the same acts are told alike, whatever the hooks do in them. -/
theorem Run.agree (run : c.Run m s told m' s') (hs : s.Orderly) (ht : t.Orderly) (hst : s.Alike t)
    (run' : d.Run n t told' n' t') (hacts : told'.map Episode.act = told.map Episode.act) :
    told' = told ∧ s'.Alike t' := by
  induction run generalizing told' n' t' with
  | refl =>
    rcases run'.ends ht with ⟨rfl, halike⟩ | ⟨front, _, _, _, _, rfl, _⟩
    · exact ⟨rfl, hst.trans halike⟩
    · simp at hacts
  | quiet run h ih =>
    obtain ⟨htold, halike⟩ := ih run' hacts
    exact ⟨htold, (h.stays (run.stays hs)).2.symm.trans halike⟩
  | @act told m₁ s₁ s₂ a run h ih =>
    rcases run'.ends ht with ⟨rfl, _⟩ | ⟨front, n₁, t₁, b, t₂, rfl, hfront, hdoes, halike⟩
    · simp at hacts
    · rw [List.map_append, List.map_append] at hacts
      obtain ⟨hearlier, hlast⟩ := List.append_inj' hacts rfl
      obtain rfl : b = a := (List.cons.inj hlast).1
      obtain ⟨rfl, hbefore⟩ := ih hfront hearlier
      obtain ⟨hafter, hgiven⟩ := h.alike hdoes (run.stays hs) (hfront.stays ht) hbefore
      exact ⟨by rw [episode_eq hbefore hafter hgiven], hafter.trans halike⟩

/-- Whatever is done in a run can be done with other hooks. -/
theorem Run.exists_agreeing (run : c.Run m s told m' s') (hs : s.Orderly) (ht : t.Orderly)
    (hst : s.Alike t) (d : Conduct N) (n : N) : ∃ n' t', d.Run n t told n' t' ∧ s'.Alike t' := by
  induction run with
  | refl => exact ⟨n, t, .refl, hst⟩
  | quiet run h ih =>
    obtain ⟨n', t', run', halike⟩ := ih
    exact ⟨n', t', run', (h.stays (run.stays hs)).2.symm.trans halike⟩
  | @act told m₁ s₁ s₂ a run h ih =>
    obtain ⟨n₁, t₁, run', hbefore⟩ := ih
    -- first the hooks of the threads in question come to an end
    obtain ⟨⟨n₂, t₂⟩, hquiets, horderly, halike, hclear⟩ :=
      exists_all_clear (c := d) (p := (n₁, t₁)) (run'.stays ht) a.threads
    have hbefore' := hbefore.trans halike
    obtain ⟨t₃, hdoes⟩ := h.exists_alike (run.stays hs) horderly hbefore' hclear
    obtain ⟨hafter, hgiven⟩ := h.alike hdoes (run.stays hs) horderly hbefore'
    rw [episode_eq hbefore' hafter hgiven]
    exact ⟨n₂, t₃, (run'.quiets hquiets).act hdoes, hafter⟩

end Conduct

namespace Session

variable {s s' t : Session} {me : Thread} {rest : List Item} {setup a b : Setup}

/-! ## Sessions that begin alike -/

theorem orderly_of_setup (h : setup.session = .ok s) : s.Orderly := by
  have hnone : s.agendas = [] := (agendas_of_setup h).1
  refine ⟨by rw [Distinct, hnone]; exact List.nodup_nil, fun me => ?_⟩
  rw [agenda, hnone]
  trivial

theorem bare_of_setup (h : setup.session = .ok s) :
    s.bare = { scheduler := { config := setup.config }, clock := setup.clock } := by
  have registered (l : List (ListenerScript Call)) (s : Session) :
      (l.foldl (fun s l => s.register l.name (listenerOf l)) s).bare = s.bare := by
    induction l generalizing s with
    | nil => rfl
    | cons a l ih => exact ih _
  unfold Setup.session at h
  split at h
  · cases h
  · rename_i scheduler hcreate
    obtain rfl := Scheduler.create_eq_ok hcreate
    have hall :=
      registered setup.listeners { scheduler := { config := setup.config }, clock := setup.clock }
    cases h
    cases setup.audit <;> exact hall

theorem alike_of_setups (hclock : a.clock = b.clock) (hconfig : a.config = b.config)
    (ha : a.session = .ok s) (hb : b.session = .ok t) : s.Alike t := by
  refine alike_of_bare (by rw [bare_of_setup ha, bare_of_setup hb, hclock, hconfig]) fun me => ?_
  rw [agenda, agenda, (agendas_of_setup ha).1, (agendas_of_setup hb).1]

end Session

/-- Whether the hooks of a listener make no calls. -/
def Reaction.isPassive : Reaction → Bool
  | script l => l.rules.isEmpty
  | audit => true

/-- Whether a listener's hook panics when it hears of the event. -/
def Reaction.panicsAt : Reaction → EventKind → Bool
  | script l, kind => l.crashes.contains kind
  | audit, _ => false

namespace Conduct

open Session Relation

variable {M N : Type} {c : Conduct M} {m m' : M} {s s' t : Session} {told : List Episode}
  {a b : Setup}

/-- Hooks that behave as a scenario says. -/
def scripted : Conduct Unit := fun _ s id reaction n =>
  let after := (s.react id n reaction).1
  { memory := ()
    notifier := after.notifier
    trail := after.trail
    listeners := after.listeners
    firings := after.firings
    log := after.log
    panics := reaction.panicsAt n.event.kind }

theorem step?_scripted {me : Thread} {id : ListenerId} {reaction : Reaction} {n : Notice}
    {rest : List Item}
    (hme : s.agenda me = .hook id reaction n :: rest) (hpassive : reaction.isPassive) :
    s.step? me = some (s.hooked me (scripted () s id reaction n) rest) := by
  simp only [step?, hme]
  cases reaction with
  | audit => rfl
  | script l =>
    have hrules : l.rules = [] := by simpa [Reaction.isPassive] using hpassive
    simp only [run?, react, hrules, hooked, scripted, Reaction.panicsAt]
    cases l.crashes.contains n.event.kind <;> rfl

/-- In a session whose hooks make no calls nothing else can happen, as long as the clock does not
stop the scheduler itself. -/
theorem quiet_or_does_of_move {heard : List Notice} (h : s.Move heard s') (hs : s.Orderly)
    (hclock : ∀ rest, s.agenda .clock ≠ .joinClock :: rest)
    (hpassive : ∀ me id reaction n rest, s.agenda me = .hook id reaction n :: rest →
      reaction.isPassive) :
    scripted.Quiet ((), s) ((), s') ∨ ∃ a, s.Does a s' := by
  cases h with
  | @step me s' h =>
    cases hme : s.agenda me with
    | nil => simp [step?, hme] at h
    | cons item rest =>
      cases item with
      | hook id reaction n =>
        obtain rfl :=
          Option.some.inj (h.symm.trans (step?_scripted hme (hpassive me id reaction n rest hme)))
        exact .inl (.hook hme)
      | crash => exact .inl (.ending hme (.inl rfl) h)
      | guard => exact .inl (.ending hme (.inr rfl) h)
      | call origin c =>
        by_cases hheld : ∀ label, c = .release label → s.held? label = none
        · exact .inr ⟨_,
            .step hme rfl (fun _ label hc => hheld label (by cases hc; rfl)) (by simp) h⟩
        · simp only [not_forall] at hheld
          obtain ⟨label, rfl, hheld⟩ := hheld
          obtain ⟨⟨holder, others⟩, hheld⟩ := Option.ne_none_iff_exists'.mp hheld
          simp only [step?, hme, run?, perform, hheld] at h
          obtain rfl := Option.some.inj h
          exact .inr ⟨_, .release hme (agenda_of_held? hs.distinct hheld)⟩
      | joinClock =>
        exact .inr ⟨_, .step hme rfl (by simp) (fun _ hne => hclock rest (hne ▸ hme)) h⟩
      | _ => exact .inr ⟨_, .step hme rfl (by simp) (by simp) h⟩
  | call idle origin c log answer inTick => exact .inr ⟨_, .call idle origin c inTick log answer⟩
  | pickUp idle h => exact .inr ⟨_, .pickUp idle h⟩
  | leave h => exact .inr ⟨_, .leave h⟩
  | giveUp h => exact .inr ⟨_, .giveUp h⟩

/-- A thread goes on with the next thing on its agenda, and what is told of it. Calls that may let
go of an attempt are left out, and so are waits for the thread of the clock. -/
def goOn? (c : Conduct M) (m : M) (s : Session) (me : Thread) :
    Option (List Episode × M × Session) :=
  match s.agenda me with
  | .hook id reaction n :: rest =>
    some ([], (c m s id reaction n).memory, s.hooked me (c m s id reaction n) rest)
  | .crash :: _ | .guard :: _ => (s.step? me).map fun s' => ([], m, s')
  | .call _ (.release _) :: _ | .joinClock :: _ | [] => none
  | _ => (s.step? me).map fun s' => ([s.episode (.step me) s'], m, s')

/-- The threads go on one after the other. -/
def play? (c : Conduct M) (m : M) (s : Session) : List Thread → Option (List Episode × M × Session)
  | [] => some ([], m, s)
  | me :: threads => (c.goOn? m s me).bind fun (told, m, s) =>
      (c.play? m s threads).map fun (more, after) => (told ++ more, after)

theorem Run.ending {me : Thread} {item : Item} {rest : List Item} {m₁ m₂ : M} {s₁ s₂ : Session}
    {more : List Episode} (run : c.Run m s told m₁ s₁) (hme : s₁.agenda me = item :: rest)
    (hitem : item = .crash ∨ item = .guard)
    (h : (s₁.step? me).map (fun s' => ([], m₁, s')) = some (more, m₂, s₂)) :
    c.Run m s (told ++ more) m₂ s₂ := by
  obtain ⟨s', hs', heq⟩ := Option.map_eq_some_iff.mp h
  cases heq
  rw [List.append_nil]
  exact run.quiet (.ending hme hitem hs')

theorem Run.own {me : Thread} {item : Item} {rest : List Item} {m₁ m₂ : M} {s₁ s₂ : Session}
    {more : List Episode} (run : c.Run m s told m₁ s₁) (hme : s₁.agenda me = item :: rest)
    (hown : item.isListeners = false) (hcall : ∀ origin label, item ≠ .call origin (.release label))
    (hjoin : item ≠ .joinClock)
    (h : (s₁.step? me).map (fun s' => ([s₁.episode (.step me) s'], m₁, s')) = some (more, m₂, s₂)) :
    c.Run m s (told ++ more) m₂ s₂ := by
  obtain ⟨s', hs', heq⟩ := Option.map_eq_some_iff.mp h
  cases heq
  exact run.act (.step hme hown (fun origin label hc => absurd hc (hcall origin label))
    (fun hc => absurd hc hjoin) hs')

theorem Run.goOn {me : Thread} {m₁ m₂ : M} {s₁ s₂ : Session} {more : List Episode}
    (run : c.Run m s told m₁ s₁) (h : c.goOn? m₁ s₁ me = some (more, m₂, s₂)) :
    c.Run m s (told ++ more) m₂ s₂ := by
  cases hme : s₁.agenda me with
  | nil => simp [goOn?, hme] at h
  | cons item rest =>
    simp only [goOn?, hme] at h
    cases item with
    | hook id reaction n =>
      cases h
      rw [List.append_nil]
      exact run.quiet (.hook hme)
    | crash => exact run.ending hme (.inl rfl) h
    | guard => exact run.ending hme (.inr rfl) h
    | call origin call =>
      cases call with
      | release label => cases h
      | _ => exact run.own hme rfl (by simp) (by simp) h
    | joinClock => cases h
    | _ => exact run.own hme rfl (by simp) (by simp) h

theorem Run.play {threads : List Thread} {m₁ m₂ : M} {s₁ s₂ : Session} {more : List Episode}
    (run : c.Run m s told m₁ s₁) (h : c.play? m₁ s₁ threads = some (more, m₂, s₂)) :
    c.Run m s (told ++ more) m₂ s₂ := by
  induction threads generalizing told more m₁ s₁ with
  | nil =>
    cases h
    rw [List.append_nil]
    exact run
  | cons me threads ih =>
    obtain ⟨⟨first, m', s'⟩, hfirst, hrest⟩ := Option.bind_eq_some_iff.mp h
    obtain ⟨⟨second, after⟩, hplay, heq⟩ := Option.map_eq_some_iff.mp hrest
    cases heq
    rw [← List.append_assoc]
    exact ih (run.goOn hfirst) hplay

/-- Take two sets of listeners, whatever their hooks remember and do and whenever they panic. What
is done with the ones can be done with the others; and if the same is done with both, then the same
replies are given and the same notices are published each time, and the sessions differ in nothing
but the listeners. -/
theorem Run.unaffected (hclock : a.clock = b.clock) (hconfig : a.config = b.config)
    (ha : a.session = .ok s) (hb : b.session = .ok t) (run : c.Run m s told m' s')
    (d : Conduct N) (n : N) :
    (∃ n' t', d.Run n t told n' t') ∧
      ∀ {told' n' t'}, d.Run n t told' n' t' → told'.map Episode.act = told.map Episode.act →
        told' = told ∧ s'.Alike t' := by
  have hst := alike_of_setups hclock hconfig ha hb
  have hs := orderly_of_setup ha
  have ht := orderly_of_setup hb
  obtain ⟨n', t', run', -⟩ := run.exists_agreeing hs ht hst d n
  exact ⟨⟨n', t', run'⟩, fun run' hacts => run.agree hs ht hst run' hacts⟩

/-- A listener that panics whatever it hears of, and no listener. -/
def panickySetup : Setup :=
  { clock := .epoch, config := {},
    listeners := [{ name := "panicky", hooks := .all, crashes := EventKind.all }] }

def unheardSetup : Setup := { clock := .epoch, config := {} }

/-- The user offers a task. -/
def offering (s : Session) : Session :=
  s.setAgenda (.caller 0) [.call .user (.scheduleNow { label := "a", name := "report" })]

/-- A task is accepted though a listener panics in the middle of the call. -/
theorem accepted_despite_panic : ∃ s t told m' s' n' t', panickySetup.session = .ok s ∧
    unheardSetup.session = .ok t ∧ scripted.Run () s told m' s' ∧ s'.log.length = 1 ∧
    (told.filterMap Episode.reply).length = 1 ∧ scripted.Run () t told n' t' ∧ s'.Alike t' := by
  obtain ⟨t, ht⟩ : ∃ t, unheardSetup.session = .ok t := ⟨_, rfl⟩
  obtain ⟨s, hs, ⟨told, m', s'⟩, hplay, hlog, hreply⟩ : ∃ s ∈ panickySetup.session.toOption,
      ∃ p ∈ scripted.play? () (offering s) (List.replicate 10 (.caller 0)),
        p.2.2.log.length = 1 ∧ (p.1.filterMap Episode.reply).length = 1 := by decide +kernel
  have hstart : panickySetup.session = .ok s := by
    cases h : panickySetup.session with
    | error e => rw [h] at hs; cases hs
    | ok s => rw [h] at hs; cases hs; rfl
  have idle : s.agenda (.caller 0) = [] := by rw [agenda, (agendas_of_setup hstart).1]; rfl
  have asked : scripted.Run () s [s.episode _ (offering s)] () (offering s) :=
    Run.refl.act (.call idle .user (.scheduleNow { label := "a", name := "report" }) s.inTick
      s.log s.answer)
  have run := asked.play hplay
  have hunaffected :=
    run.unaffected (a := panickySetup) (b := unheardSetup) rfl rfl hstart ht scripted ()
  obtain ⟨n', t', run'⟩ := hunaffected.1
  refine ⟨s, t, _, m', s', n', t', hstart, ht, run, hlog, ?_, run', (hunaffected.2 run' rfl).2⟩
  simpa [episode, given] using hreply

end Conduct

end Timetable.Scenario
