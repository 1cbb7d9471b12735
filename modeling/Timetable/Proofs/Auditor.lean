import Timetable.Proofs.Sessions

/-!
# The listener that writes the audit trail

A session with an audit trail has one listener that writes it. It is told of every kind of event,
and as it goes by no name nobody can remove it: scripted listeners come and go, and nothing but its
own hook touches the trail.
-/
namespace Timetable.Scenario

/-- Whether it writes the audit trail. -/
def Reaction.isAudit : Reaction → Bool
  | audit => true
  | script _ => false

namespace Session

/-- The listeners that write the audit trail. -/
def auditors (n : Notifier Reaction) : List (ListenerId × Listener Reaction) :=
  n.entries.filter fun e => e.2.reaction.isAudit

/-- One listener writes the audit trail. -/
structure HasAuditor (s : Session) (id : ListenerId) : Prop where
  only : auditors s.notifier = [(id, ⟨.all, .audit⟩)]
  drawn : id.number < s.notifier.added
  unnamed : ∀ named ∈ s.listeners, named.2 ≠ id

/-- At most a scripted listener has come or gone. -/
inductive Spares (s s' : Session) : Prop
  | same (htrail : s'.trail = s.trail) (hnotifier : s'.notifier = s.notifier)
    (hlisteners : s'.listeners = s.listeners)
  | added (l : ListenerScript Call) (htrail : s'.trail = s.trail)
    (hnotifier : s'.notifier = (s.notifier.add (listenerOf l)).2)
    (hlisteners : s'.listeners = (l.name, (s.notifier.add (listenerOf l)).1) :: s.listeners)
  | removed {named : String × ListenerId} (hnamed : named ∈ s.listeners)
    (htrail : s'.trail = s.trail) (hnotifier : s'.notifier = (s.notifier.remove named.2).2)
    (hlisteners : s'.listeners = s.listeners)

variable {s s' : Session} {me : Thread} {item : Item} {rest items : List Item} {id : ListenerId}

theorem auditors_add (n : Notifier Reaction) (l : Listener Reaction) :
    auditors (n.add l).2 = auditors n ++ if l.reaction.isAudit then [(⟨n.added⟩, l)] else [] := by
  unfold auditors Notifier.add
  rw [List.filter_append, List.filter_singleton]
  cases l.reaction.isAudit <;> rfl

theorem auditors_remove (n : Notifier Reaction) (id : ListenerId) :
    auditors (n.remove id).2 = (auditors n).filter fun e => e.1 ≠ id := List.filter_comm ..

/-- The listener that writes the trail stays. -/
theorem Spares.hasAuditor (h : s.Spares s') (hs : s.HasAuditor id) : s'.HasAuditor id := by
  cases h with
  | same _ hnotifier hlisteners =>
    constructor
    · rw [hnotifier]
      exact hs.only
    · rw [hnotifier]
      exact hs.drawn
    · rw [hlisteners]
      exact hs.unnamed
  | added l _ hnotifier hlisteners =>
    constructor
    · rw [hnotifier, auditors_add, hs.only]
      rfl
    · rw [hnotifier]
      exact Nat.lt_succ_of_lt hs.drawn
    · intro named hnamed heq
      rw [hlisteners, List.mem_cons] at hnamed
      rcases hnamed with rfl | hnamed
      · -- the number of a new listener is above all others
        have hdrawn := hs.drawn
        rw [← heq] at hdrawn
        exact Nat.lt_irrefl _ hdrawn
      · exact hs.unnamed named hnamed heq
  | @removed named hnamed _ hnotifier hlisteners =>
    constructor
    · have hkept : decide (id ≠ named.2) = true := decide_eq_true (hs.unnamed named hnamed).symm
      rw [hnotifier, auditors_remove, hs.only, List.filter_singleton, hkept]
      rfl
    · rw [hnotifier]
      exact hs.drawn
    · rw [hlisteners]
      exact hs.unnamed

theorem Spares.trail (h : s.Spares s') : s'.trail = s.trail := by
  cases h <;> assumption

theorem Spares.setAgenda (h : s.Spares s') (me : Thread) (items : List Item) :
    s.Spares (s'.setAgenda me items) := by
  cases h with
  | same htrail hnotifier hlisteners => exact .same htrail hnotifier hlisteners
  | added l htrail hnotifier hlisteners => exact .added l htrail hnotifier hlisteners
  | removed hnamed htrail hnotifier hlisteners => exact .removed hnamed htrail hnotifier hlisteners

/-- Whoever is told of an event, the listener that writes the trail is, and once. -/
theorem HasAuditor.audience (hs : s.HasAuditor id) (kind : EventKind) :
    (s.notifier.audience kind).filter (fun e => e.2.reaction.isAudit) = [(id, ⟨.all, .audit⟩)] := by
  have hcomm : (s.notifier.audience kind).filter (fun e => e.2.reaction.isAudit) =
      (auditors s.notifier).filter fun e => e.2.hooks.has kind := List.filter_comm ..
  rw [hcomm, hs.only, List.filter_singleton, Hooks.has_all]
  rfl

/-! ## What is done in a session -/

section Calls

variable {origin : Origin} {c : Call}

theorem spares_accept (t : TaskScript Call) (o : Offer) : s.Spares (s.accept origin c t o).1 := by
  rw [accept_eq]
  simp only [build]
  split
  · exact .same rfl rfl rfl
  · exact .same rfl rfl rfl

theorem spares_perform (origin : Origin) (c : Call) : s.Spares (s.perform origin c).1 := by
  cases c with
  | scheduleNow | scheduleAt | scheduleAfter | scheduleRecurring => exact spares_accept _ _
  | addListener l => exact .added l rfl rfl rfl
  | removeListener name =>
    simp only [perform]
    split
    · exact .same rfl rfl rfl
    · rename_i h
      exact .removed (List.mem_of_find?_eq_some h) rfl rfl rfl
  | start =>
    rw [perform_start]
    split
    · exact .same rfl rfl rfl
    · split
      · exact .same rfl rfl rfl
      · split <;> exact .same rfl rfl rfl
  | audit label => cases label <;> exact .same rfl rfl rfl
  | cancel =>
    rw [perform_cancel]
    split <;> exact .same rfl rfl rfl
  | evict =>
    rw [perform_evict]
    split <;> exact .same rfl rfl rfl
  | tick =>
    rw [perform_tick]
    split <;> exact .same rfl rfl rfl
  | stop =>
    rw [perform_stop]
    exact .same rfl rfl rfl
  | setRecurrence =>
    rw [perform_setRecurrence]
    split <;> exact .same rfl rfl rfl
  | release =>
    simp only [perform]
    split <;> exact .same rfl rfl rfl
  | _ => exact .same rfl rfl rfl

end Calls

/-- Nothing that a thread does touches the trail, but for the hook that writes it. -/
theorem spares_run? (h : s.run? me item rest = some (s', items))
    (hitem : ∀ id n, item ≠ .hook id .audit n) :
    s.Spares s' := by
  cases item with
  | call origin c =>
    cases h
    exact spares_perform origin c
  | reply origin c r => cases origin <;> cases h <;> exact .same rfl rfl rfl
  | errand e =>
    cases e with
    | announce n =>
      cases h
      exact .same rfl rfl rfl
    | _ =>
      simp only [run?] at h
      obtain ⟨_, -, heq⟩ := Option.map_eq_some_iff.mp h
      cases heq
      exact .same rfl rfl rfl
  | hook id reaction n =>
    cases reaction with
    | audit => exact absurd rfl (hitem id n)
    | script l =>
      cases h
      exact .same rfl rfl rfl
  | complete => cases me <;> cases h <;> exact .same rfl rfl rfl
  | hold label => cases h
  | rule | submit | attempt | handBack | awaitExit =>
    simp only [run?] at h
    split at h <;> cases h <;> exact .same rfl rfl rfl
  | awaitIdle origin c =>
    obtain ⟨r, -, heq⟩ := Option.map_eq_some_iff.mp h
    cases heq
    exact .same rfl rfl rfl
  | joinClock =>
    simp only [run?] at h
    split at h
    · cases h
      exact .same rfl rfl rfl
    · split at h <;> cases h
      exact .same rfl rfl rfl
  | _ =>
    cases h
    exact .same rfl rfl rfl

/-! ## The beginning -/

/-- Before the trail is set up all listeners are scripted. -/
structure Unaudited (s : Session) : Prop where
  none : auditors s.notifier = []
  drawn : ∀ named ∈ s.listeners, named.2.number < s.notifier.added

theorem Unaudited.register (hs : s.Unaudited) (l : ListenerScript Call) :
    (s.register l.name (listenerOf l)).Unaudited := by
  constructor
  · exact (auditors_add s.notifier (listenerOf l)).trans (by rw [hs.none]; rfl)
  · intro named hnamed
    show named.2.number < s.notifier.added + 1
    rcases List.mem_cons.mp hnamed with rfl | hnamed
    · exact Nat.lt_succ_self s.notifier.added
    · exact Nat.lt_succ_of_lt (hs.drawn named hnamed)

theorem Unaudited.registerAll (hs : s.Unaudited) (l : List (ListenerScript Call)) :
    (l.foldl (fun s l => s.register l.name (listenerOf l)) s).Unaudited := by
  induction l generalizing s with
  | nil => exact hs
  | cons a l ih => exact ih (hs.register a)

/-- A session that is set up with a trail has an empty one, and a listener that writes it. -/
theorem audited_of_setup {setup : Setup} {capacity : Nat} (h : setup.session = .ok s)
    (haudit : setup.audit = some capacity) : s.trail = { capacity } ∧ ∃ id, s.HasAuditor id := by
  unfold Setup.session at h
  split at h
  · cases h
  · rename_i scheduler hcreate
    have hempty : Unaudited { scheduler, clock := setup.clock } :=
      ⟨rfl, fun _ hnamed => absurd hnamed List.not_mem_nil⟩
    have hs := hempty.registerAll setup.listeners
    simp only [haudit] at h
    generalize setup.listeners.foldl (fun (s : Session) l => s.register l.name (listenerOf l)) _ =
      before at hs h
    cases h
    refine ⟨rfl, ⟨before.notifier.added⟩, ?_, Nat.lt_succ_self _, fun named hnamed heq => ?_⟩
    · rw [auditors_add, hs.none]
      rfl
    · have hdrawn := hs.drawn named hnamed
      rw [heq] at hdrawn
      exact Nat.lt_irrefl _ hdrawn

end Session

end Timetable.Scenario
