import Timetable.Proofs.AuditLog
import Timetable.Proofs.Hearing

/-!
# The audit trail is the end of the history

The audit trail records what it hears, and it hears everything that is announced. So between
deliveries it holds the last of all notices announced, with what the clock showed when it heard of
them.
-/
namespace Timetable.Scenario.Session

variable {s s' start : Session} {me : Thread} {a : Act} {id : ListenerId}
  {published notified notices : List Notice} {heard more : List (Notice × Instant)} {capacity : Nat}

/-! ## The trail -/

theorem Does.spares (h : s.Does a s') (ha : ∀ me, a ≠ .step me) : s.Spares s' := by
  cases h with
  | step => exact absurd rfl (ha _)
  | release | call | time => exact .same rfl rfl rfl
  | pickUp idle h =>
    obtain ⟨taken, -, rfl⟩ := Option.map_eq_some_iff.mp h
    simp only
    split <;> exact .same rfl rfl rfl
  | leave h =>
    obtain ⟨pool, -, rfl⟩ := Option.map_eq_some_iff.mp h
    exact .same rfl rfl rfl
  | giveUp h =>
    obtain ⟨_, _, _, -, -, rfl⟩ := giveUp?_turn h
    exact .same rfl rfl rfl

/-- What a thread does touches the trail just when the trail hears something. -/
theorem step?_spares (h : s.step? me = some s') : (s.overheard me = [] ∧ s.Spares s') ∨
    ∃ eventId n, s.overheard me = [(n, s.clock)] ∧
    s'.trail = s.trail.record (.ofNotice eventId n s.clock) ∧
      s'.notifier = s.notifier ∧ s'.listeners = s.listeners := by
  unfold step? at h
  split at h
  · cases h
  · rename_i item rest hme
    obtain ⟨⟨after, items⟩, hrun, rfl⟩ := Option.map_eq_some_iff.mp h
    have hheard : s.overheard me = item.audits?.toList.map fun n => (n, s.clock) := by
      rw [overheard, hme]
      rfl
    rw [hheard]
    by_cases hhook : ∃ id n, item = .hook id .audit n
    · obtain ⟨id, n, rfl⟩ := hhook
      cases hrun
      exact .inr ⟨_, n, rfl, rfl, rfl, rfl⟩
    · simp only [not_exists] at hhook
      refine .inl ⟨?_, (spares_run? hrun hhook).setAgenda me items⟩
      cases item with
      | hook id reaction n =>
        cases reaction with
        | audit => exact absurd rfl (hhook id n)
        | script l => rfl
      | _ => rfl

/-- The listener that writes the trail has its place, and the trail has recorded what was heard. -/
structure Audits (s : Session) (id : ListenerId) (capacity : Nat)
    (heard : List (Notice × Instant)) : Prop where
  auditor : s.HasAuditor id
  trail : s.trail.Follows capacity heard

theorem Audits.spared (hs : s.Audits id capacity heard) (h : s.Spares s') :
    s'.Audits id capacity (heard ++ []) := by
  rw [List.append_nil]
  exact ⟨h.hasAuditor hs.auditor, h.trail ▸ hs.trail⟩

theorem Happens.audits (h : s.Happens notices more s') (hs : s.Audits id capacity heard) :
    s'.Audits id capacity (heard ++ more) := by
  cases h with
  | step h =>
    rcases step?_spares h with ⟨hnone, hspares⟩ | ⟨eventId, n, hsome, htrail, hnotifier, hlisteners⟩
    · rw [hnone]
      exact hs.spared hspares
    · rw [hsome]
      constructor
      · -- the registry is as before
        exact ⟨hnotifier ▸ hs.auditor.only, hnotifier ▸ hs.auditor.drawn,
          hlisteners ▸ hs.auditor.unnamed⟩
      · rw [htrail]
        exact hs.trail.record eventId n s.clock
  | hook => exact hs.spared (.same rfl rfl rfl)
  | apart h ha => exact hs.spared (h.spares ha)

/-! ## Whole runs -/

/-- A run of any length, with the notices published, announced and heard by the audit
trail in it. -/
inductive Tour (start : Session) :
    List Notice → List Notice → List (Notice × Instant) → Session → Prop
  | refl : Tour start [] [] [] start
  | next {published notified notices : List Notice} {heard more : List (Notice × Instant)}
    {s s' : Session}
    (tour : Tour start published notified heard s) (h : s.Happens notices more s') :
    Tour start (published ++ s.scheduler.outbox.news s'.scheduler.outbox) (notified ++ notices)
      (heard ++ more) s'

/-- What is true after every run of a session with an audit trail. -/
structure Observed (s : Session) (capacity : Nat) (published notified : List Notice)
    (heard : List (Notice × Instant)) : Prop where
  distinct : s.Distinct
  reachable : (s.crew published notified).Reachable
  audits : ∃ id, s.Audits id capacity heard
  pending : notified = heard.map Prod.fst ++ s.pending

theorem observed_of_setup {setup : Setup} (h : setup.session = .ok s)
    (haudit : setup.audit = some capacity) :
    s.Observed capacity [] [] [] := by
  obtain ⟨hagendas, houtbox⟩ := agendas_of_setup h
  obtain ⟨htrail, id, hauditor⟩ := audited_of_setup h haudit
  obtain ⟨hdistinct, hreachable⟩ := Run.reachable h .refl
  refine ⟨hdistinct, hreachable, ⟨id, hauditor, ?_⟩, ?_⟩
  · rw [htrail]
    exact AuditTrail.follows_nil capacity
  · rw [pending_of_none (by rw [houtbox])]
    rfl

/-- Every step keeps what is announced, heard and recorded together. -/
theorem Happens.observed (h : s.Happens notices more s')
    (hs : s.Observed capacity published notified heard) :
    s'.Observed capacity (published ++ s.scheduler.outbox.news s'.scheduler.outbox)
      (notified ++ notices) (heard ++ more) := by
  obtain ⟨id, haudits⟩ := hs.audits
  obtain ⟨hdistinct, hrun⟩ := h.crew hs.distinct published notified
  refine ⟨hdistinct, hs.reachable.run hrun, ⟨id, h.audits haudits⟩, ?_⟩
  calc notified ++ notices
      = heard.map Prod.fst ++ (s.pending ++ notices) := by rw [← List.append_assoc, ← hs.pending]
    _ = heard.map Prod.fst ++ (more.map Prod.fst ++ s'.pending) := by
      rw [h.pending hs.distinct haudits.auditor hs.reachable.sound]
    _ = (heard ++ more).map Prod.fst ++ s'.pending := by rw [List.map_append, List.append_assoc]

theorem Tour.observed (tour : start.Tour published notified heard s)
    (hstart : start.Observed capacity [] [] []) : s.Observed capacity published notified heard := by
  induction tour with
  | refl => exact hstart
  | next _ h ih => exact h.observed ih

/-- The audit trail shows the end of what has been announced. -/
structure Audited (s : Session) (capacity : Nat) (published notified : List Notice)
    (heard : List (Notice × Instant)) : Prop where
  /-- What is announced is what was published, in this order. -/
  order : notified <+: published
  /-- What the trail hears is what is announced, in this order. -/
  hears : heard.map Prod.fst <+: notified
  /-- Between deliveries, when no hook is still to be called, it has heard everything announced. -/
  between : (∀ t, ∀ x ∈ s.agenda t, x.chore ≠ .hook) → heard.map Prod.fst = notified
  length : s.trail.events.length = min capacity heard.length
  events : List.Forall₂ AuditEvent.Tells s.trail.events (heard.rtake capacity)
  eventsFor : ∀ id, s.trail.eventsFor id = s.trail.events.filter (fun e => e.taskId = id) ∧
    List.Forall₂ AuditEvent.Tells (s.trail.eventsFor id)
      ((heard.rtake capacity).filter fun x => x.1.task.id = id)

/-- In a session with an audit trail, whatever happens in whatever order, and whatever the hooks of
other listeners do. -/
theorem Tour.audited {setup : Setup} (hstart : setup.session = .ok start)
    (hsetup : setup.audit = some capacity) (tour : start.Tour published notified heard s) :
    s.Audited capacity published notified heard := by
  have hs := tour.observed (observed_of_setup hstart hsetup)
  obtain ⟨id, haudits⟩ := hs.audits
  have hevents := haudits.trail.events
  have horder : published = notified ++ _ ++ _ := hs.reachable.sound.accounted.order
  rw [List.append_assoc] at horder
  refine ⟨⟨_, horder.symm⟩, ⟨_, hs.pending.symm⟩, fun hquiet => ?_, ?_, hevents,
    fun id => ⟨rfl, haudits.trail.eventsFor id⟩⟩
  · have hpending : s.pending = [] := by
      cases hd : s.scheduler.outbox.deliverer with
      | none => exact pending_of_none hd
      | some t =>
        rw [pending_of_deliverer hd]
        apply unheard_eq_nil
        intro hmem
        obtain ⟨x, hx, hhook⟩ := List.mem_map.mp hmem
        exact hquiet t x hx hhook
    have hnotified := hs.pending
    rw [hpending, List.append_nil] at hnotified
    exact hnotified.symm
  · rw [hevents.length_eq, List.rtake, List.length_drop]
    omega

/-- Threads go on one after the other, with what is announced and what the audit trail hears. -/
def follow? (s : Session) : List Thread → Option (List Notice × List (Notice × Instant) × Session)
  | [] => some ([], [], s)
  | me :: threads => (s.step? me).bind fun s' =>
    (s'.follow? threads).map fun (notices, more, after) =>
      (s.announced me ++ notices, s.overheard me ++ more, after)

theorem Tour.follow (tour : start.Tour published notified heard s) {threads : List Thread}
    (h : s.follow? threads = some (notices, more, s')) :
    ∃ published, start.Tour published (notified ++ notices) (heard ++ more) s' := by
  induction threads generalizing published notified heard s notices more with
  | nil =>
    cases h
    rw [List.append_nil, List.append_nil]
    exact ⟨published, tour⟩
  | cons me threads ih =>
    obtain ⟨s₁, hs₁, h⟩ := Option.bind_eq_some_iff.mp h
    obtain ⟨⟨notices, more, after⟩, hfollow, heq⟩ := Option.map_eq_some_iff.mp h
    cases heq
    rw [← List.append_assoc, ← List.append_assoc]
    exact ih (tour.next (.step hs₁)) hfollow

/-- One listener panics when a task is scheduled, and the other one cancels it. The audit trail
keeps one event. -/
def meddled : Setup where
  clock := .epoch
  config := {}
  listeners := [{ name := "nervous", hooks := .all, crashes := [.scheduled] },
    { name := "meddler", hooks := .all, rules := [{ kind := .scheduled, steps := [.cancel "a"] }] }]
  audit := some 1

/-- The event that was published inside a hook is the last one, though its task was scheduled in
the same call. -/
theorem audited_despite_meddling : ∃ start published notified heard s, meddled.session = .ok start ∧
    start.Tour published notified heard s ∧ s.Audited 1 published notified heard ∧
    notified.map Notice.event = [.scheduled, .cancelled] ∧ heard.length = 2 ∧
    s.trail.events.map AuditEvent.action = ["cancelled"] := by
  obtain ⟨start, hsome, ⟨notices, more, s⟩, hfollow, hnotices, hmore, htrail⟩ :
      ∃ start ∈ meddled.session.toOption,
        ∃ p ∈ (start.setAgenda (.caller 0)
            [.call .user (.scheduleNow { label := "a", name := "report" })]).follow?
          (List.replicate 28 (.caller 0)),
        p.1.map Notice.event = [.scheduled, .cancelled] ∧ p.2.1.length = 2 ∧
          p.2.2.trail.events.map AuditEvent.action = ["cancelled"] := by decide +kernel
  have hstart : meddled.session = .ok start := by
    cases h : meddled.session with
    | error e =>
      rw [h] at hsome
      cases hsome
    | ok s =>
      rw [h] at hsome
      cases hsome
      rfl
  have idle : start.agenda (.caller 0) = [] := by rw [agenda, (agendas_of_setup hstart).1]; rfl
  have asked := Tour.refl.next
    (.apart (.call idle .user (.scheduleNow { label := "a", name := "report" })
      start.inTick start.log start.answer) (by simp))
  obtain ⟨published, tour⟩ := asked.follow hfollow
  exact ⟨start, published, notices, more, s, hstart, tour, tour.audited hstart rfl, hnotices,
    hmore, htrail⟩

end Timetable.Scenario.Session
