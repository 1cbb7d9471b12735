import Timetable.Proofs.Delivery
import Timetable.Proofs.Turns
import Timetable.Proofs.World
import Timetable.Scenario.Play

/-!
# Sessions deliver in order

The threads of a session are a crew at the session's outbox: whatever happens in a session, in any
order of turns, happens in its crew. So every notice of a session is announced once and in its turn.
-/
namespace Timetable

/-- A thread that runs an errand publishes nothing. -/
theorem Outbox.news_of_run? {o o' : Outbox} {me : Thread} {e : Errand} {errands : List Errand}
    (h : o.run? me e = some (o', errands)) : o.news o' = [] := by
  cases e with
  | reach target =>
    rcases run?_reach_eq_some h with ⟨rfl, -, -⟩ | ⟨rfl, -, -⟩ <;> exact List.drop_length
  | drain =>
    rcases run?_drain_eq_some h with ⟨-, rfl, -⟩ | ⟨-, rfl, -⟩
    · exact List.drop_length
    · exact List.drop_nil
  | _ =>
    obtain ⟨rfl, -⟩ := Prod.mk.inj (Option.some.inj h)
    exact List.drop_length

namespace Scenario.Session

variable {s s' : Session} {me : Thread} {item : Item} {rest items : List Item}
  {published notified heard : List Notice}

/-- The threads of a session at its outbox, with the notices published and announced so far. -/
def crew (s : Session) (published notified : List Notice) : Crew where
  outbox := s.scheduler.outbox
  agenda t := (s.agenda t).map Item.chore
  published := published
  notified := notified

theorem agenda_setAgenda (s : Session) (t : Thread) (items : List Item) (u : Thread) :
    (s.setAgenda t items).agenda u = if u = t then items else s.agenda u := by
  simp only [agenda, setAgenda, List.find?_cons]
  by_cases h : u = t
  · simp [h]
  · have hne : t ≠ u := fun e => h e.symm
    simp only [hne, decide_false, find?_filter_ne s.agendas Prod.fst t u, if_neg h]

/-- A thread has got another agenda, and the session has changed around it. -/
theorem crew_setAgenda (hs : s'.agendas = s.agendas)
    (first second published notified : List Notice) :
    (s'.setAgenda me items).crew published notified =
      { (s.crew first second).give me (items.map Item.chore) with
        outbox := s'.scheduler.outbox, published, notified } := by
  have hagenda : ∀ t, s'.agenda t = s.agenda t := fun t => by rw [agenda, hs, agenda]
  simp only [crew, Crew.give, Crew.mk.injEq, and_true]
  refine ⟨rfl, funext fun t => ?_⟩
  rw [agenda_setAgenda, hagenda]
  by_cases h : t = me
  · subst h
    simp
  · simp [h]

theorem unwind_map (items : List Item) :
    Crew.unwind (items.map Item.chore) = (unwind items).map Item.chore := by
  induction items with
  | nil => rfl
  | cons item items ih => cases item <;> first | rfl | exact ih

theorem map_chore_of_works (h : Works items) :
    items.map Item.chore = List.replicate items.length .work :=
  List.eq_replicate_iff.mpr ⟨by simp, fun x hx => by
    obtain ⟨item, hitem, rfl⟩ := List.mem_map.mp hx
    exact h item hitem⟩

/-- A turn in a session is a step of its crew, or two where an attempt of another thread
is released. -/
theorem Turn.crew (h : s.Turn me rest item heard s' items) (hme : s.agenda me = item :: rest)
    (published notified : List Notice) :
    Crew.Run (s.crew published notified) ((s'.setAgenda me items).crew
      (published ++ s.scheduler.outbox.news s'.scheduler.outbox) (notified ++ heard)) := by
  have hagenda : (s.crew published notified).agenda me = item.chore :: rest.map Item.chore :=
    congrArg (List.map Item.chore) hme
  cases h with
  | @work item s' items hitem hs ho hitems =>
    rw [hitem] at hagenda
    have step := Crew.Step.work hagenda items.length
    rw [crew_setAgenda hs published notified, ho, List.map_append, map_chore_of_works hitems]
    simpa using .single ⟨me, step⟩
  | @publish item s' items notices hitem hs ho hitems =>
    rw [hitem] at hagenda
    have step := Crew.Step.publish hagenda notices items.length
    rw [crew_setAgenda hs published notified, ho, Outbox.news_publish, List.append_nil,
      List.cons_append, List.map_cons, List.map_append, map_chore_of_works hitems]
    exact .single ⟨me, step⟩
  | @release item items others t label hitem ht hne hitems =>
    rw [hitem] at hagenda
    have hheld : (s.crew published notified).agenda t = .work :: others.map Item.chore :=
      congrArg (List.map Item.chore) ht
    have hreleased : (s.setAgenda t others).crew published notified =
        (s.crew published notified).give t (others.map Item.chore) :=
      crew_setAgenda rfl published notified published notified
    have first := Crew.Step.work hheld 0
    have hmine : ((s.setAgenda t others).crew published notified).agenda me =
        .work :: rest.map Item.chore := by
      rw [hreleased, Crew.give_agenda_of_ne _ _ (Ne.symm hne), hagenda]
    have second := Crew.Step.work hmine items.length
    have ho : (s.setAgenda t others).scheduler.outbox = s.scheduler.outbox := rfl
    rw [List.replicate_zero, List.nil_append, ← hreleased] at first
    rw [crew_setAgenda rfl published notified, ho, Outbox.news_self, List.append_nil,
      List.append_nil, List.map_append, map_chore_of_works hitems]
    exact .tail (.single ⟨t, first⟩) ⟨me, second⟩
  | @crash item s' hitem hs ho =>
    rw [hitem] at hagenda
    have step := Crew.Step.panic hagenda
    rw [crew_setAgenda hs published notified, ho, ← unwind_map]
    simpa using .single ⟨me, step⟩
  | @hook id reaction n s' items hs ho hitems =>
    have step := Crew.Step.hook hagenda items.length
    rw [crew_setAgenda hs published notified, ho, List.map_append, map_chore_of_works hitems]
    simpa using .single ⟨me, step⟩
  | guard =>
    have step := Crew.Step.caught hagenda
    rw [crew_setAgenda rfl published notified]
    simpa using .single ⟨me, step⟩
  | @announce n hooks hhooks =>
    have hmap : hooks.map Item.chore = List.replicate hooks.length .hook :=
      List.eq_replicate_iff.mpr ⟨by simp, fun x hx => by
        obtain ⟨item, hitem, rfl⟩ := List.mem_map.mp hx
        exact hhooks item hitem⟩
    have step := Crew.Step.announce hagenda hooks.length
    rw [crew_setAgenda rfl published notified, List.map_append, hmap]
    simpa using .single ⟨me, step⟩
  | @errand e o errands hquiet ho =>
    have step := Crew.Step.errand hagenda hquiet ho
    rw [crew_setAgenda rfl published notified, List.map_append, List.map_map]
    rw [Outbox.news_of_run? ho, List.append_nil, List.append_nil]
    exact .single ⟨me, step⟩

/-! ## Moves -/

/-- What a thread announces with the next thing on its agenda. -/
def announced (s : Session) (me : Thread) : List Notice :=
  match s.agenda me with
  | .errand (.announce n) :: _ => [n]
  | _ => []

/-- Something that can happen in a session, and what is announced in it. A call begins on a thread
with nothing else to do, and so does the attempt of a worker. -/
inductive Move (s : Session) : List Notice → Session → Prop
  | step {me : Thread} {s' : Session} (h : s.step? me = some s') : Move s (s.announced me) s'
  | call {me : Thread} (idle : s.agenda me = []) (origin : Origin) (c : Call) (log : List LogEntry)
    (answer : Reply) (inTick : Bool) :
    Move s [] ({ s with log, answer, inTick }.setAgenda me [.call origin c])
  | pickUp {number : Nat} {s' : Session} (idle : s.agenda (.worker number) = [])
    (h : s.pickUp? number = some s') : Move s [] s'
  | leave {number : Nat} {s' : Session} (h : s.leave? number = some s') : Move s [] s'
  | giveUp {me : Thread} {s' : Session} (h : s.giveUp? me = some s') : Move s [] s'

theorem distinct_setAgenda (hd : s.Distinct) (hs : s'.agendas = s.agendas) (t : Thread)
    (items : List Item) : (s'.setAgenda t items).Distinct := by
  refine List.nodup_cons.mpr ⟨?_, ?_⟩
  · simp
  · rw [hs]
    exact hd.sublist (List.filter_sublist.map _)

theorem Turn.distinct (h : s.Turn me rest item heard s' items) (hd : s.Distinct) :
    (s'.setAgenda me items).Distinct := by
  cases h with
  | work _ hs | publish _ hs | crash _ hs | hook hs => exact distinct_setAgenda hd hs me _
  | release => exact distinct_setAgenda (distinct_setAgenda hd rfl _ _) rfl me _
  | _ => exact distinct_setAgenda hd rfl me _

theorem Turn.heard_eq (h : s.Turn me rest item heard s' items) (hme : s.agenda me = item :: rest) :
    heard = s.announced me := by
  rw [announced, hme]
  cases h with
  | @errand e o errands hquiet ho =>
    cases e with
    | announce n => exact absurd rfl (hquiet n)
    | _ => rfl
  | work hitem | publish hitem | release hitem | crash hitem =>
    cases item with
    | errand e => cases hitem
    | _ => rfl
  | _ => rfl

theorem step?_turn (hd : s.Distinct) (h : s.step? me = some s') : ∃ item rest after items,
    s.agenda me = item :: rest ∧ s.Turn me rest item (s.announced me) after items ∧
      s' = after.setAgenda me items := by
  unfold step? at h
  split at h
  · cases h
  · rename_i item rest hme
    obtain ⟨⟨after, items⟩, hrun, hs⟩ := Option.map_eq_some_iff.mp h
    obtain ⟨heard, hturn⟩ := run?_turn hd hme hrun
    exact ⟨item, rest, after, items, hme, hturn.heard_eq hme ▸ hturn, hs.symm⟩

/-- A thread that gives up takes a turn in which it has a reply. -/
theorem giveUp?_turn (h : s.giveUp? me = some s') : ∃ item rest items,
    s.agenda me = item :: rest ∧ s.Turn me rest item [] s items ∧ s' = s.setAgenda me items := by
  unfold giveUp? at h
  split at h
  · rename_i origin c rest hme
    exact ⟨_, _, _, hme, turn_next rfl rfl rfl rfl, (Option.some.inj h).symm⟩
  · rename_i origin c rest hme
    obtain ⟨r, -, hs'⟩ := Option.map_eq_some_iff.mp h
    exact ⟨_, _, _, hme, turn_next rfl rfl rfl rfl, hs'.symm⟩
  · cases h

/-- A thread with nothing to do begins with something. -/
theorem crew_begin (idle : s.agenda me = []) (hs : s'.agendas = s.agendas)
    (ho : s'.scheduler.outbox = s.scheduler.outbox) (hitem : item.chore = .work)
    (published notified : List Notice) :
    Crew.Run (s.crew published notified) ((s'.setAgenda me [item]).crew
      (published ++ s.scheduler.outbox.news s'.scheduler.outbox) (notified ++ [])) := by
  have hnone : (s.crew published notified).agenda me = [] := congrArg (List.map Item.chore) idle
  have step := Crew.Step.takeUp hnone
  rw [crew_setAgenda hs published notified, ho, List.map_singleton, hitem]
  simpa using .single ⟨me, step⟩

/-- A move that leaves agendas and outbox alone. -/
theorem crew_same (hs : s'.agendas = s.agendas) (ho : s'.scheduler.outbox = s.scheduler.outbox)
    (published notified : List Notice) :
    Crew.Run (s.crew published notified) (s'.crew
      (published ++ s.scheduler.outbox.news s'.scheduler.outbox) (notified ++ [])) := by
  have hcrew : s'.crew published notified = s.crew published notified := by
    simp [Session.crew, agenda, hs, ho]
  rw [ho, Outbox.news_self, List.append_nil, List.append_nil, hcrew]

/-- Whatever happens in a session happens in its crew. -/
theorem Move.crew (h : s.Move heard s') (hd : s.Distinct) (published notified : List Notice) :
    Crew.Run (s.crew published notified) (s'.crew
      (published ++ s.scheduler.outbox.news s'.scheduler.outbox) (notified ++ heard)) := by
  cases h with
  | step h =>
    obtain ⟨item, rest, after, items, hme, hturn, rfl⟩ := step?_turn hd h
    exact hturn.crew hme published notified
  | call idle origin c log answer inTick => exact crew_begin idle rfl rfl rfl published notified
  | pickUp idle h =>
    obtain ⟨taken, -, rfl⟩ := Option.map_eq_some_iff.mp h
    simp only
    split
    · exact crew_begin idle rfl rfl rfl published notified
    · have hs : ({ s with pool := some taken.pool }.abandon taken.job).agendas = s.agendas := rfl
      exact crew_same hs (s.scheduler.outbox_abandon taken.job s.clock) published notified
  | leave h =>
    obtain ⟨pool, -, rfl⟩ := Option.map_eq_some_iff.mp h
    exact crew_same rfl rfl published notified
  | giveUp h =>
    obtain ⟨item, rest, items, hme, hturn, rfl⟩ := giveUp?_turn h
    exact hturn.crew hme published notified

theorem Move.distinct (h : s.Move heard s') (hd : s.Distinct) : s'.Distinct := by
  cases h with
  | step h =>
    obtain ⟨item, rest, after, items, -, hturn, rfl⟩ := step?_turn hd h
    exact hturn.distinct hd
  | call idle => exact distinct_setAgenda hd rfl _ _
  | pickUp idle h =>
    obtain ⟨taken, -, rfl⟩ := Option.map_eq_some_iff.mp h
    simp only
    split
    · exact distinct_setAgenda hd rfl _ _
    · exact hd
  | leave h =>
    obtain ⟨pool, -, rfl⟩ := Option.map_eq_some_iff.mp h
    exact hd
  | giveUp h =>
    obtain ⟨item, rest, items, -, hturn, rfl⟩ := giveUp?_turn h
    exact hturn.distinct hd

/-- A run of moves, with the notices published and announced in it. -/
inductive Run (start : Session) : List Notice → List Notice → Session → Prop
  | refl : Run start [] [] start
  | move {published notified heard : List Notice} {s s' : Session}
    (run : Run start published notified s) (h : s.Move heard s') :
    Run start (published ++ s.scheduler.outbox.news s'.scheduler.outbox) (notified ++ heard) s'

/-- A session begins with nobody at work. -/
theorem agendas_of_setup {setup : Setup} (h : setup.session = .ok s) :
    s.agendas = [] ∧ s.scheduler.outbox = {} := by
  have registered (l : List (ListenerScript Call)) (s : Session)
      (hs : s.agendas = [] ∧ s.scheduler.outbox = {}) :
      (l.foldl (fun s l => s.register l.name (listenerOf l)) s).agendas = [] ∧
        (l.foldl (fun s l => s.register l.name (listenerOf l)) s).scheduler.outbox = {} := by
    induction l generalizing s with
    | nil => exact hs
    | cons a l ih => exact ih _ hs
  unfold Setup.session at h
  split at h
  · cases h
  · rename_i scheduler hcreate
    have houtbox : scheduler.outbox = {} := by
      unfold Scheduler.create at hcreate
      split at hcreate <;> cases hcreate
      rfl
    have hall := registered setup.listeners { scheduler, clock := setup.clock } ⟨rfl, houtbox⟩
    cases h
    cases setup.audit <;> exact hall

/-- The crew of every session that can come about is one that can come about. -/
theorem Run.reachable {setup : Setup} {start : Session} (hstart : setup.session = .ok start)
    (run : Run start published notified s) :
    s.Distinct ∧ (s.crew published notified).Reachable := by
  induction run with
  | refl =>
    obtain ⟨hagendas, houtbox⟩ := agendas_of_setup hstart
    refine ⟨by rw [Distinct, hagendas]; exact List.nodup_nil, ?_⟩
    have hcrew : start.crew [] [] = {} := by
      simp [Session.crew, houtbox, agenda, hagendas]
    rw [hcrew]
    exact .refl
  | move _ h ih => exact ⟨h.distinct ih.1, ih.2.run (h.crew ih.1 _ _)⟩

/-- In every session, played in any order, what is announced is what was published,
in this order. -/
theorem Run.accounted {setup : Setup} {start : Session} (hstart : setup.session = .ok start)
    (run : Run start published notified s) : (s.crew published notified).Accounted :=
  (run.reachable hstart).2.sound.accounted

end Scenario.Session

end Timetable
