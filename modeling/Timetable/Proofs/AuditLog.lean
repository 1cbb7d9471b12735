import Mathlib.Data.List.DropRight
import Mathlib.Data.List.Forall2
import Timetable.Audit

/-!
# What an audit trail keeps

A trail keeps the end of everything that it has recorded: all of it while there is room, and as much
as there is room for after that. So its entries are those of the notices heard last.
-/
namespace Timetable

/-- What an entry tells of a notice that was heard when the clock showed that time. -/
structure AuditEvent.Tells (e : AuditEvent) (heard : Notice × Instant) : Prop where
  taskId : e.taskId = heard.1.task.id
  taskName : e.taskName = heard.1.task.name
  action : e.action = heard.1.event.name
  createdAt : e.createdAt = heard.2
  error : ∀ error, heard.1.event = .failed error → e.payload = some error
  none : heard.1.event.kind ≠ .failed → e.payload = none

theorem AuditEvent.tells_ofNotice (eventId : String) (n : Notice) (now : Instant) :
    (ofNotice eventId n now).Tells (n, now) := by
  refine ⟨rfl, rfl, rfl, rfl, fun error herror => ?_, fun hkind => ?_⟩
  · change n.event.error? = some error
    rw [show n.event = .failed error from herror]
    rfl
  · change n.event.error? = none
    change n.event.kind ≠ .failed at hkind
    cases h : n.event with
    | failed error =>
      rw [h] at hkind
      exact absurd rfl hkind
    | _ => rfl

namespace AuditTrail

variable {t : AuditTrail} {entries : List AuditEvent} {heard : List (Notice × Instant)}

@[simp] theorem capacity_record (t : AuditTrail) (e : AuditEvent) :
    (t.record e).capacity = t.capacity := by
  unfold record
  split
  · rfl
  · split <;> rfl

/-- One more entry: the oldest goes if there is no room for it. -/
theorem events_record (h : t.events = entries.rtake t.capacity) (e : AuditEvent) :
    (t.record e).events = (entries ++ [e]).rtake t.capacity := by
  unfold record
  cases hcapacity : t.capacity with
  | zero =>
    rw [hcapacity, List.rtake_zero] at h
    rw [if_pos rfl, List.rtake_zero, h]
  | succ room =>
    rw [hcapacity] at h
    have hlength : t.events.length = entries.length - (entries.length - (room + 1)) := by
      rw [h, List.rtake, List.length_drop]
    rw [List.rtake_concat_succ, if_neg (Nat.succ_ne_zero room)]
    by_cases hfull : room + 1 ≤ t.events.length
    · have hnext : entries.length - (room + 1) + 1 = entries.length - room := by omega
      rw [if_pos hfull, h, List.rtake, List.rtake, List.tail_drop, hnext]
    · have hall : entries.length - (room + 1) = 0 := by omega
      have hroom : entries.length - room = 0 := by omega
      rw [if_neg hfull, h, List.rtake, List.rtake, hall, hroom]

/-- The trail after these entries, and no others. -/
def keeping (capacity : Nat) (entries : List AuditEvent) : AuditTrail :=
  entries.foldl record { capacity }

theorem keeping_append (capacity : Nat) (entries more : List AuditEvent) :
    keeping capacity (entries ++ more) = more.foldl record (keeping capacity entries) :=
      List.foldl_append

@[simp] theorem capacity_keeping (capacity : Nat) (entries : List AuditEvent) :
    (keeping capacity entries).capacity = capacity := by
  induction entries using List.reverseRecOn with
  | nil => rfl
  | append_singleton entries e ih =>
    rw [keeping_append]
    exact (capacity_record _ e).trans ih

/-- A trail keeps the last entries. -/
theorem events_keeping (capacity : Nat) (entries : List AuditEvent) :
    (keeping capacity entries).events = entries.rtake capacity := by
  induction entries using List.reverseRecOn with
  | nil => exact (List.rtake_nil capacity).symm
  | append_singleton entries e ih =>
    have h := events_record (t := keeping capacity entries) (by rw [capacity_keeping]; exact ih) e
    rw [capacity_keeping] at h
    rw [keeping_append]
    exact h

/-- The trail has recorded the notices heard, in this order, and nothing else. -/
def Follows (t : AuditTrail) (capacity : Nat) (heard : List (Notice × Instant)) : Prop :=
  ∃ entries, t = keeping capacity entries ∧ List.Forall₂ AuditEvent.Tells entries heard

theorem follows_nil (capacity : Nat) : Follows { capacity } capacity [] := ⟨[], rfl, .nil⟩

theorem Follows.record {capacity : Nat} (h : t.Follows capacity heard)
    (eventId : String) (n : Notice) (now : Instant) :
    (t.record (.ofNotice eventId n now)).Follows capacity (heard ++ [(n, now)]) := by
  obtain ⟨entries, rfl, htells⟩ := h
  refine ⟨entries ++ [.ofNotice eventId n now], ?_, ?_⟩
  · rw [keeping_append]
    rfl
  · exact List.rel_append htells (.cons (AuditEvent.tells_ofNotice eventId n now) .nil)

theorem Follows.events {capacity : Nat} (h : t.Follows capacity heard) :
    List.Forall₂ AuditEvent.Tells t.events (heard.rtake capacity) := by
  obtain ⟨entries, rfl, htells⟩ := h
  rw [events_keeping, List.rtake, List.rtake, htells.length_eq]
  exact List.forall₂_drop _ htells

/-- The entries of one task are those of the notices about it. -/
theorem Follows.eventsFor {capacity : Nat} (h : t.Follows capacity heard) (id : TaskId) :
    List.Forall₂ AuditEvent.Tells (t.eventsFor id)
      ((heard.rtake capacity).filter fun x => x.1.task.id = id) := by
  refine List.rel_filter (fun e x htells => ?_) h.events
  show decide (e.taskId = id) = true ↔ decide (x.1.task.id = id) = true
  rw [htells.taskId]

end AuditTrail

end Timetable
