import Timetable.Proofs.Auditor
import Timetable.Proofs.Conduct

/-!
# What the audit trail hears

The listener that writes the audit trail is told of every notice once, in the course of its
announcement. Whatever other listeners do, before it or after it, a notice that has been announced
has reached the trail, or the thread that delivers has still to call the hook that writes it.
-/
namespace Timetable

/-- Where a thread goes on with its batch all hooks have been called. -/
theorem Crew.Sound.hook_not_mem {c : Crew} (hs : c.Sound) {me : Thread} {e : Errand}
    {l : List Chore}
    (h : c.agenda me = .errand e :: l) (he : e ≠ .deliver) (he' : ∀ target, e ≠ .reach target) :
    c.outbox.deliverer = some me ∧ .hook ∉ l := by
  obtain ⟨hdeliverer, _, _, -, hfront⟩ := hs.front h (not_idle_errand he he')
  refine ⟨hdeliverer, fun hmem => ?_⟩
  cases hfront with
  | drain hrest => cases hrest _ hmem
  | own _ _ _ hidle => exact not_idle_errand he he' _ hidle
  | @announce rest _ _ _ hrest =>
    have hbelow : .hook ∈ rest := by simpa [batchChores] using hmem
    cases hrest _ hbelow
  | @credit rest _ hrest =>
    have hbelow : .hook ∈ rest := by simpa using hmem
    cases hrest _ hbelow

namespace Scenario

/-- The notice that is about to reach the audit trail. -/
def Item.audits? : Item → Option Notice
  | .hook _ .audit n => some n
  | _ => none

/-- The notices on an agenda that have still to reach the audit trail. -/
def unheard (items : List Item) : List Notice := items.filterMap Item.audits?

section Agendas

variable {item : Item} {items rest : List Item} {own last : List Chore}

@[simp] theorem unheard_append (items rest : List Item) :
    unheard (items ++ rest) = unheard items ++ unheard rest :=
  List.filterMap_append

theorem audits?_eq_none (h : item.chore ≠ .hook) : item.audits? = none := by
  cases item with
  | hook => exact absurd rfl h
  | _ => rfl

theorem unheard_cons (item : Item) (rest : List Item) :
    unheard (item :: rest) = item.audits?.toList ++ unheard rest := by
  cases h : item.audits? with
  | none => exact List.filterMap_cons_none h
  | some n => exact List.filterMap_cons_some h

theorem unheard_eq_nil (h : .hook ∉ items.map Item.chore) : unheard items = [] := by
  apply List.filterMap_eq_nil_iff.mpr
  intro x hx
  apply audits?_eq_none
  intro hhook
  exact h (List.mem_map.mpr ⟨x, hx, hhook⟩)

theorem unheard_of_works (h : Works items) : unheard items = [] := by
  apply unheard_eq_nil
  rw [Session.map_chore_of_works h]
  intro hmem
  cases List.eq_of_mem_replicate hmem

/-- Of the hooks for a notice, those of listeners that write the trail have still to hear it. -/
theorem unheard_hooks (audience : List (ListenerId × Listener Reaction)) (n : Notice) :
    unheard (audience.map fun (id, l) => .hook id l.reaction n) =
      (audience.filter fun e => e.2.reaction.isAudit).map fun _ => n := by
  induction audience with
  | nil => rfl
  | cons e audience ih =>
    obtain ⟨id, hooks, reaction⟩ := e
    cases reaction with
    | audit => exact congrArg (n :: ·) ih
    | script l => exact ih

/-- A panic takes away work, and no hooks. -/
theorem unheard_unwind (hsplit : items.map Item.chore = own ++ last) (hown : Crew.Works own)
    (hlast : ∀ x l, last = x :: l → x = .guard) :
    unheard (Session.unwind items) = unheard items := by
  induction items generalizing own with
  | nil => rfl
  | cons item items ih =>
    cases own with
    | nil =>
      have hguard := hlast _ _ hsplit.symm
      cases item with
      | guard => rfl
      | _ => cases hguard
    | cons x own =>
      obtain ⟨hitem, hsplit⟩ := List.cons.inj hsplit
      have hwork : item.chore = .work := hitem.trans (hown x List.mem_cons_self)
      have hnone : item.audits? = none := audits?_eq_none (by rw [hwork]; exact nofun)
      rw [unheard_cons, hnone, ← ih hsplit hown.tail]
      cases item with
      | guard => cases hwork
      | _ => rfl

end Agendas

namespace Session

variable {s s' : Session} {me : Thread} {item : Item} {rest items : List Item} {a : Act}
  {id : ListenerId} {published notified notices : List Notice} {heard : List (Notice × Instant)}

/-- What the audit trail hears when the thread goes on: a notice, and what the clock shows then. -/
def overheard (s : Session) (me : Thread) : List (Notice × Instant) :=
  ((s.agenda me).head?.bind Item.audits?).toList.map fun n => (n, s.clock)

/-- Something that can happen in a session, the notices announced in it, and those that the audit
trail hears. A listener's hook may do what its script says, and anything else: it calls the
scheduler as often as it likes, takes notes and panics. -/
inductive Happens (s : Session) : List Notice → List (Notice × Instant) → Session → Prop
  | step {me : Thread} {s' : Session} (h : s.step? me = some s') :
    Happens s (s.announced me) (s.overheard me) s'
  | hook {me : Thread} {id : ListenerId} {l : ListenerScript Call} {n : Notice} {rest : List Item}
    (hme : s.agenda me = .hook id (.script l) n :: rest) (place : String) (calls : List Call)
    (panics : Bool) (firings : List ((ListenerId × Nat) × Nat)) (log : List LogEntry) :
    Happens s [] [] ({ s with firings, log }.setAgenda me
      (calls.map (Item.call (.inside place)) ++ (if panics then [Item.crash] else []) ++
        Item.guard :: rest))
  | apart {a : Act} {s' : Session} (h : s.Does a s') (ha : ∀ me, a ≠ .step me) : Happens s [] [] s'

/-! ## The crew -/

/-- A call of a thread that lets another one go on is a turn, whichever attempt it lets go. -/
theorem turn_release {holder : Thread} {origin : Origin} {label : String} {others : List Item}
    (hme : s.agenda me = .call origin (.release label) :: rest)
    (hholder : s.agenda holder = .hold label :: others) :
    s.Turn me rest (.call origin (.release label)) [] (s.setAgenda holder others)
      ([.reply origin (.release label) (.flag true)] ++ rest) := by
  refine .release rfl hholder ?_ (works_cons rfl works_nil)
  rintro rfl
  cases hme.symm.trans hholder

/-- What a hook may do is a turn. -/
theorem turn_hook {n : Notice} (reaction : Reaction) (place : String) (calls : List Call)
    (panics : Bool) (firings : List ((ListenerId × Nat) × Nat)) (log : List LogEntry) :
    s.Turn me rest (.hook id reaction n) [] { s with firings, log }
      (calls.map (Item.call (.inside place)) ++ (if panics then [Item.crash] else []) ++
        .guard :: rest) := by
  refine .hook rfl rfl (works_append (works_map fun _ => rfl) ?_)
  cases panics with
  | true => exact works_cons rfl works_nil
  | false => exact works_nil

/-- Whatever happens in a session happens in its crew. -/
theorem Happens.crew (h : s.Happens notices heard s') (hd : s.Distinct)
    (published notified : List Notice) :
    s'.Distinct ∧ Crew.Run (s.crew published notified)
      (s'.crew (published ++ s.scheduler.outbox.news s'.scheduler.outbox)
        (notified ++ notices)) := by
  have moved {s' : Session} {notices : List Notice} (h : s.Move notices s') :
      s'.Distinct ∧ Crew.Run (s.crew published notified)
        (s'.crew (published ++ s.scheduler.outbox.news s'.scheduler.outbox)
          (notified ++ notices)) :=
    ⟨h.distinct hd, h.crew hd published notified⟩
  cases h with
  | step h => exact moved (.step h)
  | @hook me id l n rest hme place calls panics firings log =>
    have hturn : s.Turn me rest (.hook id (.script l) n) [] { s with firings, log } _ :=
      turn_hook (.script l) place calls panics firings log
    exact ⟨hturn.distinct hd, hturn.crew hme published notified⟩
  | apart h ha =>
    cases h with
    | step => exact absurd rfl (ha _)
    | release hme hholder =>
      have hturn := turn_release hme hholder
      exact ⟨hturn.distinct hd, hturn.crew hme published notified⟩
    | call idle origin c inTick log answer => exact moved (.call idle origin c log answer inTick)
    | pickUp idle h => exact moved (.pickUp idle h)
    | leave h => exact moved (.leave h)
    | giveUp h => exact moved (.giveUp h)
    | time now => exact ⟨hd, crew_same rfl rfl published notified⟩

/-! ## What has still to be heard -/

/-- The notices announced that have still to reach the audit trail. -/
def pending (s : Session) : List Notice :=
  (s.scheduler.outbox.deliverer.map fun t => unheard (s.agenda t)).getD []

theorem pending_of_deliverer (h : s.scheduler.outbox.deliverer = some me) :
    s.pending = unheard (s.agenda me) := by
  rw [pending, h]
  rfl

theorem pending_of_none (h : s.scheduler.outbox.deliverer = none) : s.pending = [] := by
  rw [pending, h]
  rfl

theorem pending_congr (hd : s'.scheduler.outbox.deliverer = s.scheduler.outbox.deliverer)
    (h : ∀ t, unheard (s'.agenda t) = unheard (s.agenda t)) : s'.pending = s.pending := by
  rw [pending, pending, hd, funext h]

/-- A thread has got another agenda with the same hooks on it. -/
theorem pending_setAgenda (hs : s'.agendas = s.agendas)
    (hd : s'.scheduler.outbox.deliverer = s.scheduler.outbox.deliverer)
    (h : unheard items = unheard (s.agenda me)) : (s'.setAgenda me items).pending = s.pending := by
  refine pending_congr hd fun t => ?_
  rw [agenda_setAgenda]
  by_cases ht : t = me
  · rw [if_pos ht, h, ht]
  · rw [if_neg ht, agenda, hs, agenda]

theorem overheard_eq (hme : s.agenda me = item :: rest) :
    (s.overheard me).map Prod.fst = item.audits?.toList := by
  rw [overheard, hme, List.map_map]
  exact List.map_id _

theorem agenda_crew (hme : s.agenda me = item :: rest) (published notified : List Notice) :
    (s.crew published notified).agenda me = item.chore :: rest.map Item.chore :=
  congrArg (List.map Item.chore) hme

/-- A thread that does not deliver has no hooks to call. -/
theorem hook_not_mem (hs : (s.crew published notified).Sound)
    (h : s.scheduler.outbox.deliverer ≠ some me) :
    .hook ∉ (s.agenda me).map Item.chore := by
  intro hmem
  have hplain := (hs.idle me h).plain .hook hmem
  simp at hplain

/-- The next thing is taken off an agenda, and no hook but that one. -/
theorem pending_taken (hsound : (s.crew published notified).Sound)
    (hme : s.agenda me = item :: rest) (hs : s'.agendas = s.agendas)
    (hd : s'.scheduler.outbox.deliverer = s.scheduler.outbox.deliverer)
    (hitems : unheard items = unheard rest) :
    s.pending = (s.overheard me).map Prod.fst ++ (s'.setAgenda me items).pending := by
  rw [overheard_eq hme]
  cases haudits : item.audits? with
  | none =>
    have hsame : unheard items = unheard (s.agenda me) := by
      rw [hme, unheard_cons, haudits, hitems]; rfl
    exact (pending_setAgenda hs hd hsame).symm
  | some n =>
    have hdeliverer : s.scheduler.outbox.deliverer = some me := by
      by_contra h
      have hnone := unheard_eq_nil (hook_not_mem hsound h)
      rw [hme, unheard_cons, haudits] at hnone
      cases hnone
    have hafter : (s'.setAgenda me items).scheduler.outbox.deliverer = some me :=
      hd.trans hdeliverer
    rw [pending_of_deliverer hdeliverer, pending_of_deliverer hafter, hme, unheard_cons, haudits,
      agenda_setAgenda, if_pos rfl, hitems]

theorem unheard_errands (errands : List Errand) (rest : List Item) :
    unheard (errands.map Item.errand ++ rest) = unheard rest := by
  have hnone : unheard (errands.map Item.errand) = [] := unheard_eq_nil (by simp [Item.chore])
  rw [unheard_append, hnone, List.nil_append]

/-- A thread that takes up delivering, or steps down, has no hooks to call. -/
theorem pending_errand (hsound : (s.crew published notified).Sound) {e : Errand} {o : Outbox}
    {errands : List Errand} (hme : s.agenda me = .errand e :: rest)
    (ho : s.scheduler.outbox.run? me e = some (o, errands)) :
    ({ s with scheduler := { s.scheduler with outbox := o } }.setAgenda me
      (errands.map Item.errand ++ rest)).pending = s.pending := by
  have hrest : unheard (s.agenda me) = unheard rest := by rw [hme]; rfl
  have hsame : unheard (errands.map Item.errand ++ rest) = unheard (s.agenda me) := by
    rw [unheard_errands, hrest]
  cases e with
  | announce | deliver | credit =>
    cases ho
    exact pending_setAgenda rfl rfl hsame
  | reach target =>
    rcases Outbox.run?_reach_eq_some ho with ⟨rfl, -, -⟩ | ⟨rfl, -, hnone⟩
    · exact pending_setAgenda rfl rfl hsame
    · have hidle : unheard (s.agenda me) = [] :=
        unheard_eq_nil (hook_not_mem hsound (by rw [hnone]; exact nofun))
      rw [pending_of_none hnone, pending_of_deliverer rfl, agenda_setAgenda,
        if_pos rfl, hsame, hidle]
  | drain =>
    rcases Outbox.run?_drain_eq_some ho with ⟨-, rfl, -⟩ | ⟨-, rfl, -⟩
    · obtain ⟨hdeliverer, hhooks⟩ :=
        hsound.hook_not_mem (agenda_crew hme published notified) nofun nofun
      rw [pending_of_none rfl, pending_of_deliverer hdeliverer, hrest, unheard_eq_nil hhooks]
    · exact pending_setAgenda rfl rfl hsame

/-- An announcement reaches the audit trail, and no other is still on its way there. -/
theorem pending_announce (hsound : (s.crew published notified).Sound)
    (hs : s.HasAuditor id) {n : Notice} (hme : s.agenda me = .errand (.announce n) :: rest) :
    s.pending = [] ∧ (s.setAgenda me ((s.notifier.audience n.event.kind).map
      (fun (id, l) => Item.hook id l.reaction n) ++ rest)).pending = [n] := by
  obtain ⟨hdeliverer, hhooks⟩ :=
    hsound.hook_not_mem (agenda_crew hme published notified) nofun nofun
  have hrest : unheard rest = [] := unheard_eq_nil hhooks
  refine ⟨?_, (pending_of_deliverer (s := s.setAgenda me _) hdeliverer).trans ?_⟩
  · rw [pending_of_deliverer hdeliverer, hme, unheard_cons, hrest]
    rfl
  · rw [agenda_setAgenda, if_pos rfl, unheard_append, unheard_hooks, hs.audience, hrest]
    rfl

/-- What a turn leads to, announcements apart. -/
theorem Turn.pending (h : s.Turn me rest item notices s' items) (hme : s.agenda me = item :: rest)
    (hsound : (s.crew published notified).Sound) (hitem : ∀ n, item ≠ .errand (.announce n)) :
    s.pending = (s.overheard me).map Prod.fst ++ (s'.setAgenda me items).pending := by
  cases h with
  | @work item s' items _ hs ho hitems =>
    refine pending_taken hsound hme hs (by rw [ho]) ?_
    rw [unheard_append, unheard_of_works hitems, List.nil_append]
  | @publish item s' items _ _ hs ho hitems =>
    refine pending_taken hsound hme hs (by rw [ho]; rfl) ?_
    rw [unheard_append, unheard_cons, unheard_of_works hitems]
    rfl
  | @release item items others t label hwork ht hne hitems =>
    have hnone : item.audits? = none := audits?_eq_none (by rw [hwork]; exact nofun)
    have hothers : unheard others = unheard (s.agenda t) := by rw [ht]; rfl
    have hmine : (s.setAgenda t others).agenda me = item :: rest := by
      rw [agenda_setAgenda, if_neg hne.symm, hme]
    have hitems : unheard (items ++ rest) = unheard ((s.setAgenda t others).agenda me) := by
      rw [unheard_append, unheard_of_works hitems, hmine, unheard_cons, hnone]
      rfl
    rw [overheard_eq hme, hnone, pending_setAgenda rfl rfl hitems,
      pending_setAgenda rfl rfl hothers]
    rfl
  | @crash item s' hitem hs ho =>
    refine pending_taken hsound hme hs (by rw [ho]) ?_
    obtain ⟨own, last, hown, hsplit, hfree⟩ :=
      hsound.free (agenda_crew hme published notified) (.inl hitem)
    refine unheard_unwind hsplit hown fun x l hlast => ?_
    cases hfree with
    | apart => cases hlast
    | inside => exact (List.cons.inj hlast).1.symm
  | @hook id reaction n s' items hs ho hitems =>
    refine pending_taken hsound hme hs (by rw [ho]) ?_
    rw [unheard_append, unheard_of_works hitems]
    rfl
  | guard => exact pending_taken hsound hme rfl rfl rfl
  | announce => exact absurd rfl (hitem _)
  | errand _ ho =>
    rw [overheard_eq hme, pending_errand hsound hme ho]
    rfl

/-- What is done apart from hooks and the next things on agendas leaves hooks where they are. -/
theorem Does.pending (h : s.Does a s') (ha : ∀ me, a ≠ .step me)
    (hsound : (s.crew published notified).Sound) :
    s'.pending = s.pending := by
  cases h with
  | step => exact absurd rfl (ha _)
  | release hme hholder =>
    have hturn := (turn_release hme hholder).pending hme hsound (by simp)
    rw [hturn, overheard_eq hme]
    rfl
  | call idle => exact pending_setAgenda rfl rfl (by rw [idle]; rfl)
  | pickUp idle h =>
    obtain ⟨taken, -, rfl⟩ := Option.map_eq_some_iff.mp h
    simp only
    split
    · exact pending_setAgenda rfl rfl (by rw [idle]; rfl)
    · exact pending_congr (congrArg Outbox.deliverer (s.scheduler.outbox_abandon taken.job s.clock))
        fun _ => rfl
  | leave h =>
    obtain ⟨pool, -, rfl⟩ := Option.map_eq_some_iff.mp h
    exact pending_congr rfl fun _ => rfl
  | giveUp h =>
    unfold giveUp? at h
    split at h
    · rename_i hme
      rw [← Option.some.inj h]
      exact pending_setAgenda rfl rfl (by rw [hme]; rfl)
    · rename_i hme
      obtain ⟨r, -, rfl⟩ := Option.map_eq_some_iff.mp h
      exact pending_setAgenda rfl rfl (by rw [hme]; rfl)
    · cases h
  | time => exact pending_congr rfl fun _ => rfl

/-- What is announced has still to be heard, and what is heard had still to be. -/
theorem Happens.pending (h : s.Happens notices heard s') (hd : s.Distinct) (hs : s.HasAuditor id)
    (hsound : (s.crew published notified).Sound) :
    s.pending ++ notices = heard.map Prod.fst ++ s'.pending := by
  cases h with
  | @step me s' h =>
    obtain ⟨item, rest, after, items, hme, hturn, rfl⟩ := step?_turn hd h
    by_cases hannounce : ∃ n, item = .errand (.announce n)
    · obtain ⟨n, rfl⟩ := hannounce
      obtain ⟨hbefore, hafter⟩ := pending_announce hsound hs hme
      rw [step?, hme] at h
      rw [← Option.some.inj h, hbefore, hafter, overheard_eq hme, announced, hme]
      rfl
    · rw [not_exists] at hannounce
      have hnone : s.announced me = [] := by
        rw [announced, hme]
        split
        · rename_i heq
          exact absurd (List.cons.inj heq).1 (hannounce _)
        · rfl
      rw [hnone, List.append_nil]
      exact hturn.pending hme hsound hannounce
  | @hook me id l n rest hme place calls panics firings log =>
    have hturn : s.Turn me rest (.hook id (.script l) n) [] { s with firings, log } _ :=
      turn_hook (.script l) place calls panics firings log
    rw [hturn.pending hme hsound (by simp), overheard_eq hme, List.append_nil]
    rfl
  | apart h ha =>
    rw [h.pending ha hsound, List.append_nil]
    rfl

end Session

end Scenario

end Timetable
