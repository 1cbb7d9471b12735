import Timetable.Proofs.Claiming
import Timetable.Proofs.Crew
import Timetable.Proofs.InPlace

/-!
# Turns of a session

What the thread of a session does with the next thing on its agenda, as far as deliveries are
concerned. Most of the time it has work to do, which may publish notices and then calls for their
delivery, or may release an attempt that another thread holds. `Session.Turn` lists every way a turn
can go.
-/
namespace Timetable.Scenario

/-- What a thing on an agenda is to the delivery of notices. -/
def Item.chore : Item → Chore
  | .errand e => .errand e
  | .hook .. => .hook
  | .guard => .guard
  | _ => .work

/-- Nothing on the agenda but work. -/
def Works (items : List Item) : Prop := ∀ x ∈ items, x.chore = .work

namespace Session

variable {s s' : Session} {me : Thread} {item : Item} {rest items : List Item}

/-- No thread has two agendas. -/
def Distinct (s : Session) : Prop := (s.agendas.map Prod.fst).Nodup

/-- A turn of the thread: the notices announced in it, the session afterwards and the
agenda then. -/
inductive Turn (s : Session) (me : Thread) (rest : List Item) :
    Item → List Notice → Session → List Item → Prop
  | work {item : Item} {s' : Session} {items : List Item} (hitem : item.chore = .work)
    (hs : s'.agendas = s.agendas) (ho : s'.scheduler.outbox = s.scheduler.outbox)
    (hitems : Works items) : Turn s me rest item [] s' (items ++ rest)
  | publish {item : Item} {s' : Session} {items : List Item} {notices : List Notice}
    (hitem : item.chore = .work) (hs : s'.agendas = s.agendas)
    (ho : s'.scheduler.outbox = s.scheduler.outbox.publish notices) (hitems : Works items) :
    Turn s me rest item [] s' (.errand .deliver :: items ++ rest)
  | release {item : Item} {items others : List Item} {t : Thread} {label : String}
    (hitem : item.chore = .work) (ht : s.agenda t = .hold label :: others) (hne : t ≠ me)
    (hitems : Works items) : Turn s me rest item [] (s.setAgenda t others) (items ++ rest)
  | crash {item : Item} {s' : Session} (hitem : item.chore = .work) (hs : s'.agendas = s.agendas)
    (ho : s'.scheduler.outbox = s.scheduler.outbox) : Turn s me rest item [] s' (unwind rest)
  | hook {id : ListenerId} {reaction : Reaction} {n : Notice} {s' : Session} {items : List Item}
    (hs : s'.agendas = s.agendas) (ho : s'.scheduler.outbox = s.scheduler.outbox)
    (hitems : Works items) : Turn s me rest (.hook id reaction n) [] s' (items ++ .guard :: rest)
  | guard : Turn s me rest .guard [] s rest
  | announce {n : Notice} {hooks : List Item} (hhooks : ∀ x ∈ hooks, x.chore = .hook) :
    Turn s me rest (.errand (.announce n)) [n] s (hooks ++ rest)
  | errand {e : Errand} {o : Outbox} {errands : List Errand} (hquiet : ∀ n, e ≠ .announce n)
    (ho : s.scheduler.outbox.run? me e = some (o, errands)) :
    Turn s me rest (.errand e) [] { s with scheduler := { s.scheduler with outbox := o } }
      (errands.map .errand ++ rest)

theorem works_nil : Works [] := fun _ hx => absurd hx List.not_mem_nil

theorem works_cons (hitem : item.chore = .work) (h : Works items) : Works (item :: items) := by
  intro x hx
  rcases List.mem_cons.mp hx with rfl | hx
  · exact hitem
  · exact h x hx

theorem works_append {more : List Item} (h : Works items) (hmore : Works more) :
    Works (items ++ more) := by
  intro x hx
  rcases List.mem_append.mp hx with hx | hx
  · exact h x hx
  · exact hmore x hx

theorem works_map {α : Type} {l : List α} {f : α → Item} (hf : ∀ a, (f a).chore = .work) :
    Works (l.map f) := by
  intro x hx
  obtain ⟨a, -, rfl⟩ := List.mem_map.mp hx
  exact hf a

/-! ## Calls -/

section Calls

variable {origin : Origin} {c : Call}

/-- A call that changes no notices and has its reply. -/
theorem turn_reply {r : Reply} (hs : s'.agendas = s.agendas)
    (ho : s'.scheduler.outbox = s.scheduler.outbox) :
    s.Turn me rest (.call origin c) [] s' ([.reply origin c r] ++ rest) :=
  .work rfl hs ho (works_cons rfl works_nil)

/-- A call that publishes notices and has them delivered before its reply. -/
theorem turn_delivered {r : Reply} {notices : List Notice} (hs : s'.agendas = s.agendas)
    (ho : s'.scheduler.outbox = s.scheduler.outbox.publish notices) :
    s.Turn me rest (.call origin c) [] s' (delivered origin c r ++ rest) :=
  .publish rfl hs ho (works_cons rfl works_nil)

theorem turn_accept (t : TaskScript Call) (o : Offer) :
    s.Turn me rest (.call origin c) []
      (s.accept origin c t o).1 ((s.accept origin c t o).2 ++ rest) := by
  rw [accept_eq]
  simp only [build]
  split
  · exact turn_reply rfl rfl
  · rename_i scheduler h
    obtain ⟨-, -, due, -, h⟩ := Scheduler.schedule_eq_ok h
    obtain ⟨-, rfl⟩ := Scheduler.takeIn_eq_ok h
    exact turn_delivered rfl rfl

/-- An attempt that is held is the next thing on the agenda of its thread. -/
theorem agenda_of_held? (hd : s.Distinct) {label : String} {t : Thread}
    (h : s.held? label = some (t, items)) : s.agenda t = .hold label :: items := by
  obtain ⟨⟨u, l⟩, hmem, hl⟩ := List.exists_of_findSome?_eq_some h
  have hfind : (s.agendas.find? fun a => a.1 = u) = some (u, l) :=
    (find?_of_nodup hd).mpr ⟨hmem, rfl⟩
  simp only at hl
  split at hl
  · split at hl
    · rename_i hlabel
      obtain ⟨rfl, rfl⟩ := Prod.mk.inj (Option.some.inj hl)
      rw [agenda, hfind, ← hlabel]
      rfl
    · cases hl
  · cases hl

theorem works_shutDown (s : Session) (origin : Origin) (c : Call) :
    Works (s.shutDown origin c) := by
  refine works_append ?_
    (works_cons rfl (works_cons rfl (works_cons rfl (works_cons rfl works_nil))))
  split
  · exact works_cons rfl works_nil
  · exact works_nil

/-- What a call does in a turn. -/
theorem turn_perform (hd : s.Distinct) (hme : s.agenda me = .call origin c :: rest) :
    s.Turn me rest (.call origin c) [] (s.perform origin c).1 ((s.perform origin c).2 ++ rest) := by
  cases c with
  | scheduleNow t => exact turn_accept t .dueNow
  | scheduleAt t due => exact turn_accept t (.dueAt due)
  | scheduleAfter t amount unit => exact turn_accept t (.dueAfter amount unit)
  | scheduleRecurring t => exact turn_accept t .recurring
  | cancel label =>
    rw [perform_cancel]
    split
    · exact turn_reply rfl rfl
    · rename_i scheduler h
      obtain ⟨t, -, -, rfl⟩ := Scheduler.cancel?_eq_some h
      exact turn_delivered rfl rfl
  | evict label =>
    rw [perform_evict]
    split
    · exact turn_reply rfl rfl
    · rename_i last scheduler h
      obtain ⟨t, -, -, -, rfl⟩ := Scheduler.evict_eq_ok h
      exact turn_reply rfl rfl
  | tick =>
    rw [perform_tick]
    split
    · obtain ⟨notices, ho⟩ := Scheduler.outbox_claimAll
        { s.scheduler with queue := (s.scheduler.queue.extractDue s.clock).2 }
        (s.scheduler.queue.extractDue s.clock).1
      exact .publish rfl rfl ho
        (works_append (works_map fun _ => rfl) (works_cons rfl works_nil))
    · exact turn_reply rfl rfl
  | start =>
    rw [perform_start]
    split
    · exact turn_reply rfl rfl
    · rename_i scheduler h
      obtain ⟨_, _, _, rfl⟩ := Scheduler.start_eq_ok h
      split
      · exact turn_reply rfl rfl
      · split <;> exact turn_reply rfl rfl
  | stop =>
    rw [perform_stop]
    split
    · exact .work rfl rfl rfl (works_shutDown s origin .stop)
    · exact turn_reply rfl rfl
  | waitIdle d => exact .work rfl rfl rfl (works_cons rfl works_nil)
  | release label =>
    simp only [perform]
    split
    · exact turn_reply rfl rfl
    · rename_i t others h
      have ht := agenda_of_held? hd h
      refine .release rfl ht ?_ (works_cons rfl works_nil)
      rintro rfl
      cases hme.symm.trans ht
  | removeListener name =>
    simp only [perform]
    split
    · exact turn_reply rfl rfl
    · exact turn_reply rfl rfl
  | setRecurrence label enabled =>
    rw [perform_setRecurrence]
    split
    · exact turn_reply rfl rfl
    · rename_i scheduler h
      obtain ⟨t, -, -, rfl⟩ := Scheduler.setRecurrenceEnabled?_eq_some h
      exact turn_reply rfl rfl
  | audit label =>
    cases label with
    | none => exact turn_reply rfl rfl
    | some label => exact turn_reply rfl rfl
  | _ => exact turn_reply rfl rfl

end Calls

/-! ## Turns -/

/-- Work that is done. -/
theorem turn_done (hitem : item.chore = .work) (hs : s'.agendas = s.agendas)
    (ho : s'.scheduler.outbox = s.scheduler.outbox) : s.Turn me rest item [] s' rest :=
  .work hitem hs ho works_nil

/-- Work that leads to another thing. -/
theorem turn_next {next : Item} (hitem : item.chore = .work) (hs : s'.agendas = s.agendas)
    (ho : s'.scheduler.outbox = s.scheduler.outbox) (hnext : next.chore = .work) :
    s.Turn me rest item [] s' (next :: rest) :=
  .work hitem hs ho (works_cons hnext works_nil)

/-- What a hook does: some work, up to its end. -/
theorem turn_react (id : ListenerId) (reaction : Reaction) (n : Notice) :
    s.Turn me rest (.hook id reaction n) [] (s.react id n reaction).1
      ((s.react id n reaction).2 ++ rest) := by
  cases reaction with
  | audit => exact @Turn.hook s me rest id _ n (s.react id n .audit).1 [] rfl rfl works_nil
  | script l =>
    simp only [react]
    rw [List.append_assoc]
    refine .hook rfl rfl (works_append (works_map fun _ => rfl) ?_)
    split
    · exact works_cons rfl works_nil
    · exact works_nil

theorem turn_attempt (job : Job Work) (startedAt : Instant) :
    s.Turn me rest (.attempt job startedAt) [] (s.attempt job startedAt).1
      ((s.attempt job startedAt).2 ++ rest) := by
  have held : Works (if job.work.script.hold then .hold job.work.label ::
      job.work.script.after.map (Item.call (.inside job.work.label)) else []) := by
    split
    · exact works_cons rfl (works_map fun _ => rfl)
    · exact works_nil
  exact .work rfl rfl rfl
    (works_append (works_append (works_map fun _ => rfl) held) (works_cons rfl works_nil))

theorem turn_submit (job : Job Work)
    (h : s.run? me (.submit job) rest = some (s', items)) :
    s.Turn me rest (.submit job) [] s' items := by
  simp only [run?] at h
  split at h
  · cases h
    exact turn_next rfl rfl rfl rfl
  · cases h
    exact turn_done rfl rfl (s.scheduler.outbox_abandon job s.clock)

/-- A thread takes the thing off its agenda in one of the listed ways. -/
theorem run?_turn (hd : s.Distinct) (hme : s.agenda me = item :: rest)
    (h : s.run? me item rest = some (s', items)) : ∃ heard, s.Turn me rest item heard s' items := by
  cases item with
  | call origin c =>
    cases h
    exact ⟨[], turn_perform hd hme⟩
  | reply origin c r =>
    cases origin with
    | clock =>
      cases h
      refine ⟨[], .work rfl rfl rfl ?_⟩
      split
      · exact works_cons rfl (works_cons rfl (works_cons rfl works_nil))
      · exact works_nil
    | user | inside =>
      cases h
      exact ⟨[], turn_done rfl rfl rfl⟩
  | errand e =>
    cases e with
    | announce n =>
      cases h
      refine ⟨[n], .announce fun x hx => ?_⟩
      obtain ⟨a, -, rfl⟩ := List.mem_map.mp hx
      rfl
    | _ =>
      simp only [run?] at h
      obtain ⟨⟨o, errands⟩, ho, heq⟩ := Option.map_eq_some_iff.mp h
      cases heq
      exact ⟨[], .errand (by simp) ho⟩
  | hook id reaction n =>
    cases h
    exact ⟨[], turn_react id reaction n⟩
  | rule id listener index r =>
    simp only [run?] at h
    split at h <;> cases h
    · exact ⟨[], .work rfl rfl rfl (works_map fun _ => rfl)⟩
    · exact ⟨[], turn_done rfl rfl rfl⟩
  | crash =>
    cases h
    exact ⟨[], .crash rfl rfl rfl⟩
  | guard =>
    cases h
    exact ⟨[], .guard⟩
  | submit job => exact ⟨[], turn_submit job h⟩
  | attempt job startedAt =>
    simp only [run?] at h
    split at h <;> cases h
    exact ⟨[], turn_attempt job startedAt⟩
  | hold label => cases h
  | finish job a =>
    obtain ⟨notices, ho⟩ := s.scheduler.outbox_finish job a s.clock
    have hturn : s.Turn me rest (.finish job a) []
        { s with scheduler := s.scheduler.finish job a s.clock }
        (.errand .deliver :: [.complete] ++ rest) :=
      .publish rfl rfl ho (works_cons rfl works_nil)
    cases h
    exact ⟨[], hturn⟩
  | complete =>
    cases me <;> cases h <;> exact ⟨[], turn_done rfl rfl rfl⟩
  | joinClock =>
    simp only [run?] at h
    split at h
    · cases h
      exact ⟨[], .crash rfl rfl rfl⟩
    · split at h <;> cases h
      exact ⟨[], turn_done rfl rfl rfl⟩
  | grow | raiseFlag | closePool =>
    cases h
    exact ⟨[], turn_done rfl rfl rfl⟩
  | handBack =>
    simp only [run?] at h
    split at h <;> cases h
    · exact ⟨[], turn_done rfl rfl rfl⟩
    · exact ⟨[], turn_next rfl rfl (s.scheduler.outbox_abandon _ s.clock) rfl⟩
  | awaitExit origin c =>
    simp only [run?] at h
    split at h <;> cases h
    exact ⟨[], turn_next rfl rfl rfl rfl⟩
  | awaitIdle origin c =>
    obtain ⟨r, -, heq⟩ := Option.map_eq_some_iff.mp h
    cases heq
    exact ⟨[], turn_next rfl rfl rfl rfl⟩

end Session

end Timetable.Scenario
