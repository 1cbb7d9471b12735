import Timetable.Proofs.Sessions

/-!
# Sessions without their listeners

What a session looks like to somebody who does not look at listeners: their registry, their notes
and the hooks on agendas are left out, and so are the replies to questions about listeners. A thread
that takes up anything but a hook does what it does whatever is left out.
-/
namespace Timetable.Scenario

/-- Whether the reply to the call tells of the listeners: whether one was registered, or
what one noted. -/
def Call.asksListeners : Call → Bool
  | removeListener _ | audit _ => true
  | _ => false

/-- What is seen of a reply. -/
def Call.seen (c : Call) (r : Reply) : Reply := if c.asksListeners then .nothing else r

namespace Item

/-- Whether the thing belongs to a listener. -/
def isListeners : Item → Bool
  | hook .. | crash | guard => true
  | _ => false

/-- The thing with nothing of a reply but what is seen. -/
def masked : Item → Item
  | reply origin c r => reply origin c (c.seen r)
  | x => x

/-- What is seen of a thing on an agenda. -/
def seen? (x : Item) : Option Item := if x.isListeners then none else some x.masked

/-- Things that stand anywhere on an agenda. -/
def isFree : Item → Bool
  | hook .. | crash | guard | rule .. | errand (.announce _) => false
  | _ => true

/-- Whether a thing may stand before the rest of an agenda: a panic stands before the end of its
hook, and hooks and announcements stand before errands. Hooks that make no calls leave no rules. -/
def Fits : Item → List Item → Prop
  | crash, rest => ∃ others, rest = guard :: others
  | hook .., rest | guard, rest => ∃ x others, rest = x :: others ∧
    (x.isListeners ∨ ∃ e, x = errand e)
  | errand (.announce _), rest => ∃ e others, rest = errand e :: others
  | rule .., _ => False
  | _, _ => True

end Item

/-- What is seen of an agenda. -/
def seen (items : List Item) : List Item := items.filterMap Item.seen?

/-- An agenda on which everything has its place. -/
def Tidy : List Item → Prop
  | [] => True
  | x :: rest => x.Fits rest ∧ Tidy rest

section Agendas

variable {x : Item} {items rest : List Item}

theorem seen_cons (x : Item) (rest : List Item) :
    seen (x :: rest) = x.seen?.toList ++ seen rest := by
  cases h : x.seen? with
  | none => rw [seen, List.filterMap_cons_none h]; rfl
  | some y => rw [seen, List.filterMap_cons_some h]; rfl

@[simp] theorem seen_append (items rest : List Item) :
    seen (items ++ rest) = seen items ++ seen rest :=
  List.filterMap_append

theorem seen_cons_of_listeners (h : x.isListeners) : seen (x :: rest) = seen rest := by
  rw [seen_cons, Item.seen?, if_pos h]
  rfl

theorem seen_cons_of_own (h : x.isListeners = false) :
    seen (x :: rest) = x.masked :: seen rest := by
  rw [seen_cons, Item.seen?, h]
  rfl

theorem isListeners_masked (x : Item) : x.masked.isListeners = x.isListeners := by cases x <;> rfl

theorem masked_masked (x : Item) : x.masked.masked = x.masked := by
  cases x with
  | reply origin c r => cases h : c.asksListeners <;> simp [Item.masked, Call.seen, h]
  | _ => rfl

theorem seen_seen (items : List Item) : seen (seen items) = seen items := by
  induction items with
  | nil => rfl
  | cons x items ih =>
    cases h : x.isListeners with
    | true => rw [seen_cons_of_listeners h, ih]
    | false =>
      rw [seen_cons_of_own h, seen_cons_of_own ((isListeners_masked x).trans h), masked_masked, ih]

theorem fits_of_isFree (h : x.isFree) (rest : List Item) : x.Fits rest := by
  cases x with
  | errand e =>
    cases e with
    | announce n => cases h
    | _ => trivial
  | hook | crash | guard | rule => cases h
  | _ => trivial

theorem Tidy.prepend (h : Tidy rest) (hfree : ∀ x ∈ items, x.isFree) : Tidy (items ++ rest) := by
  induction items with
  | nil => exact h
  | cons x items ih =>
    have hx := hfree x (List.mem_cons_self ..)
    exact ⟨fits_of_isFree hx _, ih fun y hy => hfree y (List.mem_cons_of_mem _ hy)⟩

theorem next_of_fits (hx : x.isListeners) (h : x.Fits rest) :
    ∃ y others, rest = y :: others ∧ (y.isListeners ∨ ∃ e, y = .errand e) := by
  cases x with
  | hook | guard => exact h
  | crash =>
    obtain ⟨others, rfl⟩ := h
    exact ⟨.guard, others, rfl, .inl rfl⟩
  | _ => cases hx

/-- Behind something of a listener an errand is the first thing that is seen. -/
theorem Tidy.errand_of_listeners (h : Tidy (x :: rest)) (hx : x.isListeners) :
    ∃ e others, seen (x :: rest) = .errand e :: others := by
  induction rest generalizing x with
  | nil =>
    obtain ⟨_, _, hnil, _⟩ := next_of_fits hx h.1
    cases hnil
  | cons y rest ih =>
    obtain ⟨_, _, heq, hy⟩ := next_of_fits hx h.1
    cases heq
    rw [seen_cons_of_listeners hx]
    rcases hy with hy | ⟨e, rfl⟩
    · exact ih h.2 hy
    · exact ⟨e, seen rest, seen_cons_of_own rfl⟩

end Agendas

namespace Session

variable {s s' t : Session} {me : Thread} {item : Item} {rest items : List Item}
  {origin : Origin} {c : Call}

/-- The session without agendas and without anything that is the listeners'. -/
def bare (s : Session) : Session :=
  { s with
    notifier := .empty
    trail := { capacity := 0 }
    agendas := []
    listeners := []
    firings := []
    log := []
    answer := .nothing }

/-! ## Calls -/

/-- What comes of a call, in a session and in one without its listeners, looks the same. -/
structure Blind (s : Session) (after without : Session × List Item) : Prop where
  bare : after.1.bare = without.1.bare
  agendas : after.1.agendas = s.agendas
  seen : seen after.2 = seen without.2
  free : ∀ x ∈ after.2, x.isFree

theorem Blind.reply {r : Reply} (hbare : s'.bare = t.bare) (hagendas : s'.agendas = s.agendas) :
    s.Blind (s', [.reply origin c r]) (t, [.reply origin c r]) :=
  ⟨hbare, hagendas, rfl, by simp [Item.isFree]⟩

/-- The reply to a question about listeners is not seen. -/
theorem Blind.reply_asked {r r' : Reply} (hc : c.asksListeners) (hbare : s'.bare = t.bare)
    (hagendas : s'.agendas = s.agendas) :
    s.Blind (s', [.reply origin c r]) (t, [.reply origin c r']) :=
  ⟨hbare, hagendas,
    by simp [Scenario.seen, Item.seen?, Item.isListeners, Item.masked, Call.seen, hc],
    by simp [Item.isFree]⟩

theorem Blind.delivered {r : Reply} (hbare : s'.bare = t.bare) (hagendas : s'.agendas = s.agendas) :
    s.Blind (s', delivered origin c r) (t, delivered origin c r) :=
  ⟨hbare, hagendas, rfl, by simp [Session.delivered, Item.isFree]⟩

theorem blind_accept (task : TaskScript Call) (o : Offer) :
    s.Blind (s.accept origin c task o) (s.bare.accept origin c task o) := by
  rw [accept_eq, accept_eq]
  simp only [build, bare]
  split
  · exact .reply rfl rfl
  · exact .delivered rfl rfl

theorem blind_tick : s.Blind (s.perform origin .tick) (s.bare.perform origin .tick) := by
  have hbare : s.bare.scheduler = s.scheduler := rfl
  rw [perform_tick, perform_tick, hbare]
  split
  · refine ⟨rfl, rfl, rfl, fun x hx => ?_⟩
    simp only [List.mem_append, List.mem_cons, List.mem_map, List.not_mem_nil, or_false] at hx
    rcases hx with (rfl | ⟨job, -, rfl⟩) | rfl <;> rfl
  · exact .reply rfl rfl

theorem blind_start : s.Blind (s.perform origin .start) (s.bare.perform origin .start) := by
  have hbare : s.bare.scheduler = s.scheduler ∧ s.bare.clock = s.clock := ⟨rfl, rfl⟩
  rw [perform_start, perform_start, hbare.1, hbare.2]
  split
  · exact .reply rfl rfl
  · split
    · exact .reply rfl rfl
    · split <;> exact .reply rfl rfl

theorem free_shutDown (s : Session) (origin : Origin) (c : Call) :
    ∀ x ∈ s.shutDown origin c, x.isFree := by
  unfold shutDown
  cases s.scheduler.config.autoTick <;> simp [Item.isFree]

theorem blind_stop : s.Blind (s.perform origin .stop) (s.bare.perform origin .stop) := by
  have hbare : s.bare.scheduler = s.scheduler := rfl
  rw [perform_stop, perform_stop, hbare]
  split
  · exact ⟨rfl, rfl, rfl, free_shutDown s origin .stop⟩
  · exact .reply rfl rfl

/-- Which of several held attempts is released depends on more than can be seen. -/
theorem blind_perform (h : ∀ label, c = .release label → s.held? label = none) :
    s.Blind (s.perform origin c) (s.bare.perform origin c) := by
  cases c with
  | scheduleNow task => exact blind_accept task .dueNow
  | scheduleAt task due => exact blind_accept task (.dueAt due)
  | scheduleAfter task amount unit => exact blind_accept task (.dueAfter amount unit)
  | scheduleRecurring task => exact blind_accept task .recurring
  | cancel label =>
    rw [perform_cancel, perform_cancel]
    simp only [bare]
    split
    · exact .reply rfl rfl
    · exact .delivered rfl rfl
  | evict label =>
    rw [perform_evict, perform_evict]
    simp only [bare]
    split
    · exact .reply rfl rfl
    · exact .reply rfl rfl
  | tick => exact blind_tick
  | start => exact blind_start
  | stop => exact blind_stop
  | waitIdle d => exact ⟨rfl, rfl, rfl, by simp [perform, Item.isFree]⟩
  | release label =>
    have hbare : s.bare.held? label = none := rfl
    simp only [perform, h label rfl, hbare]
    exact .reply rfl rfl
  | removeListener name =>
    simp only [perform, bare]
    split
    · exact .reply_asked rfl rfl rfl
    · exact .reply_asked rfl rfl rfl
  | setRecurrence label enabled =>
    rw [perform_setRecurrence, perform_setRecurrence]
    simp only [bare]
    split
    · exact .reply rfl rfl
    · exact .reply rfl rfl
  | audit label =>
    cases label with
    | none => exact .reply_asked rfl rfl rfl
    | some label => exact .reply_asked rfl rfl rfl
  | _ => exact .reply rfl rfl

/-! ## Everything else on an agenda -/

/-- What comes of a thing on an agenda, in a session and in one without its listeners,
looks the same. -/
structure Same (s : Session) (after without : Session × List Item) : Prop where
  bare : after.1.bare = without.1.bare
  agendas : after.1.agendas = s.agendas
  seen : seen after.2 = seen without.2
  tidy : Tidy after.2

theorem Blind.prepend {after without : Session × List Item} (h : s.Blind after without)
    (hrest : Tidy rest) :
    s.Same (after.1, after.2 ++ rest) (without.1, without.2 ++ Scenario.seen rest) :=
  ⟨h.bare, h.agendas, by simp only [seen_append, h.seen, seen_seen], hrest.prepend h.free⟩

theorem Same.before (items : List Item) (hbare : s'.bare = t.bare)
    (hagendas : s'.agendas = s.agendas) (hrest : Tidy rest) (hfree : ∀ x ∈ items, x.isFree) :
    s.Same (s', items ++ rest) (t, items ++ Scenario.seen rest) :=
  ⟨hbare, hagendas, by simp only [seen_append, seen_seen], hrest.prepend hfree⟩

theorem Same.done (hbare : s'.bare = t.bare) (hagendas : s'.agendas = s.agendas)
    (hrest : Tidy rest) :
    s.Same (s', rest) (t, Scenario.seen rest) :=
  .before [] hbare hagendas hrest (by simp)

theorem Same.next {x : Item} (hbare : s'.bare = t.bare) (hagendas : s'.agendas = s.agendas)
    (hrest : Tidy rest) (hfree : x.isFree) : s.Same (s', x :: rest) (t, x :: Scenario.seen rest) :=
  .before [x] hbare hagendas hrest (by simpa using hfree)

/-- Hooks are called before the next errand. -/
theorem tidy_hooks {l : List (ListenerId × Listener Reaction)} {n : Notice} {e : Errand}
    (h : Tidy (.errand e :: rest)) :
    Tidy (l.map (fun (id, l) => Item.hook id l.reaction n) ++ .errand e :: rest) := by
  induction l with
  | nil => exact h
  | cons a l ih =>
    refine ⟨?_, ih⟩
    cases l with
    | nil => exact ⟨_, _, rfl, .inr ⟨e, rfl⟩⟩
    | cons b l => exact ⟨_, _, rfl, .inl rfl⟩

theorem seen_hooks {l : List (ListenerId × Listener Reaction)} {n : Notice} :
    seen (l.map fun (id, l) => Item.hook id l.reaction n) = [] := by
  rw [Scenario.seen, List.filterMap_map]
  exact List.filterMap_eq_nil_iff.mpr fun _ _ => rfl

/-- A batch is announced before it is given credit for. -/
theorem tidy_batch (batch : List Notice) (size : Nat) (h : Tidy rest) :
    Tidy ((batch.map Errand.announce ++ [Errand.credit size, .drain]).map Item.errand ++ rest) := by
  induction batch with
  | nil => exact ⟨trivial, trivial, h⟩
  | cons n batch ih =>
    refine ⟨?_, ih⟩
    cases batch with
    | nil => exact ⟨_, _, rfl⟩
    | cons m batch => exact ⟨_, _, rfl⟩

theorem tidy_errands {o o' : Outbox} {e : Errand} {errands : List Errand}
    (h : o.run? me e = some (o', errands)) (hrest : Tidy rest) :
    Tidy (errands.map Item.errand ++ rest) := by
  cases e with
  | reach target =>
    rcases Outbox.run?_reach_eq_some h with ⟨-, rfl, -⟩ | ⟨-, rfl, -⟩
    · exact hrest
    · exact ⟨trivial, hrest⟩
  | drain =>
    rcases Outbox.run?_drain_eq_some h with ⟨-, -, rfl⟩ | ⟨-, -, rfl⟩
    · exact hrest
    · exact tidy_batch o.waiting o.waiting.length hrest
  | deliver =>
    obtain ⟨-, rfl⟩ := Prod.mk.inj (Option.some.inj h)
    exact ⟨trivial, hrest⟩
  | _ =>
    obtain ⟨-, rfl⟩ := Prod.mk.inj (Option.some.inj h)
    exact hrest

theorem same_announce {n : Notice} (htidy : Tidy (.errand (.announce n) :: rest)) :
    Option.Rel s.Same (s.run? me (.errand (.announce n)) rest)
      (s.bare.run? me (.errand (.announce n)) (Scenario.seen rest)) := by
  obtain ⟨⟨e, others, rfl⟩, hrest⟩ := htidy
  refine .some ⟨rfl, rfl, ?_, tidy_hooks hrest⟩
  rw [seen_append, seen_hooks]
  exact (seen_seen _).symm

theorem run?_errand {e : Errand} (hquiet : ∀ n, e ≠ .announce n) (s : Session) (rest : List Item) :
    s.run? me (.errand e) rest = (s.scheduler.outbox.run? me e).map fun (outbox, errands) =>
      ({ s with scheduler := { s.scheduler with outbox } }, errands.map .errand ++ rest) := by
  cases e with
  | announce n => exact absurd rfl (hquiet n)
  | _ => rfl

theorem same_errand {e : Errand} (hquiet : ∀ n, e ≠ .announce n) (hrest : Tidy rest) :
    Option.Rel s.Same (s.run? me (.errand e) rest)
      (s.bare.run? me (.errand e) (Scenario.seen rest)) := by
  have hbare : s.bare.scheduler.outbox = s.scheduler.outbox := rfl
  rw [run?_errand hquiet, run?_errand hquiet, hbare]
  cases h : s.scheduler.outbox.run? me e with
  | none => exact .none
  | some after =>
    refine .some ⟨rfl, rfl, ?_, tidy_errands h hrest⟩
    rw [seen_append, seen_append, seen_seen]

theorem free_attempt (job : Job Work) (startedAt : Instant) :
    ∀ x ∈ (s.attempt job startedAt).2, x.isFree := by
  intro x hx
  simp only [attempt, List.mem_append, List.mem_map, List.mem_singleton] at hx
  rcases hx with (⟨c, -, rfl⟩ | hx) | rfl
  · rfl
  · split at hx
    · rcases List.mem_cons.mp hx with rfl | hx
      · rfl
      · obtain ⟨c, -, rfl⟩ := List.mem_map.mp hx
        rfl
    · cases hx
  · rfl

theorem same_reply (origin : Origin) (c : Call) (r : Reply) (hrest : Tidy rest) :
    Option.Rel s.Same (s.run? me (.reply origin c r) rest)
      (s.bare.run? me (.reply origin c (c.seen r)) (Scenario.seen rest)) := by
  cases origin with
  | user | inside => exact .some (.done rfl rfl hrest)
  | clock =>
    have hbare : s.bare.orphaned = s.orphaned := rfl
    simp only [run?, hbare]
    refine .some (.before _ rfl rfl hrest ?_)
    cases s.orphaned <;> simp [Item.isFree]

/-- A thread waits for the thread of the clock whatever the listeners are, if it is not
the clock's. -/
theorem same_joinClock (hme : me ≠ .clock) (hidle : s.agenda .clock = []) (hrest : Tidy rest) :
    Option.Rel s.Same (s.run? me .joinClock rest)
      (s.bare.run? me .joinClock (Scenario.seen rest)) := by
  have hbare : s.bare.agenda .clock = [] := rfl
  simp only [run?, hme, hidle, hbare, if_false, List.isEmpty_nil, if_true]
  exact .some (.done rfl rfl hrest)

/-- What a thread does with a thing that is no listener's looks the same whatever the
listeners are. -/
theorem same_run? (hown : item.isListeners = false) (htidy : Tidy (item :: rest))
    (hjoin : item = .joinClock → me ≠ .clock ∧ s.agenda .clock = [])
    (h : ∀ origin label, item = .call origin (.release label) → s.held? label = none) :
    Option.Rel s.Same (s.run? me item rest) (s.bare.run? me item.masked (Scenario.seen rest)) := by
  have hrest := htidy.2
  cases item with
  | call origin c =>
    exact .some ((blind_perform fun label hc => h origin label (hc ▸ rfl)).prepend hrest)
  | reply origin c r => exact same_reply origin c r hrest
  | errand e =>
    cases e with
    | announce n => exact same_announce htidy
    | _ => exact same_errand (by simp) hrest
  | hook | crash | guard => cases hown
  | rule => cases htidy.1
  | submit job =>
    simp only [run?, Item.masked, Session.bare]
    split
    · exact .some (.next rfl rfl hrest rfl)
    · exact .some (.done rfl rfl hrest)
  | attempt job startedAt =>
    have hbare : s.bare.inTick = s.inTick := rfl
    simp only [run?, Item.masked, hbare]
    cases s.inTick with
    | true => exact .none
    | false => exact .some (.before _ rfl rfl hrest (free_attempt job startedAt))
  | hold label => exact .none
  | complete => cases me <;> exact .some (.done rfl rfl hrest)
  | finish job a =>
    exact .some (.before [.errand .deliver, .complete] rfl rfl hrest (by simp [Item.isFree]))
  | handBack =>
    simp only [run?, Item.masked, Session.bare]
    split
    · exact .some (.done rfl rfl hrest)
    · exact .some (.next rfl rfl hrest rfl)
  | joinClock =>
    obtain ⟨hme, hidle⟩ := hjoin rfl
    exact same_joinClock hme hidle hrest
  | awaitExit origin c =>
    have hbare : s.bare.pool = s.pool := rfl
    simp only [run?, Item.masked, hbare]
    cases s.pool.all fun p => p.workers.isEmpty with
    | true => exact .some (.next rfl rfl hrest rfl)
    | false => exact .none
  | awaitIdle origin c =>
    have hbare : s.bare.scheduler = s.scheduler := rfl
    simp only [run?, Item.masked, hbare]
    cases s.scheduler.awaitSettled? false with
    | none => exact .none
    | some r => exact .some (.next rfl rfl hrest rfl)
  | grow | raiseFlag | closePool => exact .some (.done rfl rfl hrest)

end Session

end Timetable.Scenario
