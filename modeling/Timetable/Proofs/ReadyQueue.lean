import Mathlib.Data.List.Nodup
import Mathlib.Data.List.Perm.Basic
import Mathlib.Data.List.TakeWhile
import Timetable.ReadyQueue.Plain

/-!
# The views of the ready queue

The three views of a ready queue hold the same entries, and an identifier has one entry at most.
Every operation keeps it so, and what an operation does to the entry of one identifier is said by
one equation.
-/
namespace Timetable

variable {α κ : Type} [DecidableEq κ]

theorem insertSorted_perm (before : α → α → Bool) (a : α) (l : List α) :
    (insertSorted before a l).Perm (a :: l) := by
  induction l with
  | nil => exact List.Perm.refl _
  | cons b l ih =>
    rw [insertSorted]
    split
    · exact List.Perm.refl _
    · exact (ih.cons b).trans (List.Perm.swap a b l)

theorem sortBy_perm (before : α → α → Bool) (l : List α) : (sortBy before l).Perm l := by
  induction l with
  | nil => exact List.Perm.refl _
  | cons a l ih => exact (insertSorted_perm before a _).trans (ih.cons a)

/-- Where a key is found once at most, looking it up finds it. -/
theorem find?_of_nodup {l : List α} {key : α → κ} (h : (l.map key).Nodup) {k : κ} {a : α} :
    (l.find? fun b => key b = k) = some a ↔ a ∈ l ∧ key a = k := by
  constructor
  · intro ha
    exact ⟨List.mem_of_find?_eq_some ha, by simpa using List.find?_some ha⟩
  · rintro ⟨ha, rfl⟩
    cases hf : l.find? fun b => key b = key a with
    | none => exact absurd (decide_eq_true rfl) (List.find?_eq_none.mp hf a ha)
    | some b =>
      have hkey : key b = key a := by simpa using List.find?_some hf
      rw [List.inj_on_of_nodup_map h (List.mem_of_find?_eq_some hf) ha hkey]

/-- Looking up a key where everything of one key has been left out. -/
theorem find?_filter_ne (l : List α) (key : α → κ) (k other : κ) :
    ((l.filter fun a => key a ≠ k).find? fun a => key a = other) =
      if other = k then none else l.find? fun a => key a = other := by
  rw [List.find?_filter]
  split
  · subst other
    exact List.find?_eq_none.mpr fun a _ => by simp
  · rename_i hne
    congr 1
    funext a
    by_cases ha : key a = other
    · simp [ha, hne]
    · simp [ha]

/-- The entry as a plain queue keeps it. -/
def QueueEntry.waiting (e : QueueEntry) : Waiting :=
  { id := e.id, priority := e.priority, due := e.due }

namespace ReadyQueue

/-- The views agree, and no identifier is queued twice. -/
structure Consistent (q : ReadyQueue) : Prop where
  once : (q.byId.map QueueEntry.id).Nodup
  ranked : q.byRank.Perm q.byId
  dated : q.byDue.Perm (q.byId.filter fun e => e.due.isSome)

/-- What waits under an identifier. -/
def waiting? (q : ReadyQueue) (id : TaskId) : Option Waiting :=
  (q.entryOf? id).map QueueEntry.waiting

variable {q : ReadyQueue}

theorem consistent_empty : empty.Consistent where
  once := List.nodup_nil
  ranked := List.Perm.refl _
  dated := List.Perm.refl _

namespace Consistent

theorem entryOf?_eq_some (h : q.Consistent) {id : TaskId} {e : QueueEntry} :
    q.entryOf? id = some e ↔ e ∈ q.byId ∧ e.id = id := find?_of_nodup h.once

theorem mem_toList (h : q.Consistent) {id : TaskId} :
    id ∈ q.toList ↔ ∃ e, q.entryOf? id = some e := by
  simp only [toList, List.mem_map, h.ranked.mem_iff, h.entryOf?_eq_some]

theorem nodup_toList (h : q.Consistent) : q.toList.Nodup :=
  (h.ranked.map QueueEntry.id).nodup_iff.mpr h.once

/-- Leaving out some entries from each view keeps the views in agreement. -/
theorem filter (h : q.Consistent) (keep : QueueEntry → Bool) {byDue : List QueueEntry} {n : Nat}
    (hd : byDue.Perm (q.byDue.filter keep)) :
    Consistent ⟨q.byRank.filter keep, byDue, q.byId.filter keep, n⟩ where
  once := h.once.sublist (List.filter_sublist.map _)
  ranked := h.ranked.filter keep
  dated := by
    refine hd.trans ((h.dated.filter keep).trans ?_)
    rw [List.filter_filter, List.filter_filter]
    simp only [Bool.and_comm]
    exact List.Perm.refl _

end Consistent

/-! ## Removal -/

theorem remove_of_none {id : TaskId} (he : q.entryOf? id = none) : (q.remove id).2 = q := by
  simp only [remove, he]

/-- On a consistent queue the views lose the same entries. -/
theorem Consistent.remove_eq (h : q.Consistent) (id : TaskId) :
    (q.remove id).2 = { q with
      byRank := q.byRank.filter fun e => e.id ≠ id
      byDue := q.byDue.filter fun e => e.id ≠ id
      byId := q.byId.filter fun e => e.id ≠ id } := by
  cases he : q.entryOf? id with
  | none =>
    have hid : ∀ e ∈ q.byId, e.id ≠ id := by simpa using List.find?_eq_none.mp he
    have hdue : ∀ e ∈ q.byDue, e.id ≠ id := fun e hm =>
      hid e (List.mem_filter.mp (h.dated.mem_iff.mp hm)).1
    have hrank : ∀ e ∈ q.byRank, e.id ≠ id := fun e hm => hid e (h.ranked.mem_iff.mp hm)
    have all (l : List QueueEntry) (hl : ∀ e ∈ l, e.id ≠ id) : (l.filter fun e => e.id ≠ id) = l :=
      List.filter_eq_self.mpr fun e he => decide_eq_true (hl e he)
    rw [remove_of_none he, all _ hid, all _ hdue, all _ hrank]
  | some e =>
    obtain ⟨hm, rfl⟩ := h.entryOf?_eq_some.mp he
    have same : ∀ x ∈ q.byId, (x = e ↔ x.id = e.id) := fun x hx =>
      ⟨fun hxe => hxe ▸ rfl, List.inj_on_of_nodup_map h.once hx hm⟩
    have hdue : (if e.due.isSome then q.byDue.filter fun x => x ≠ e else q.byDue) =
        q.byDue.filter fun x => x.id ≠ e.id := by
      have hsub : ∀ x ∈ q.byDue, x ∈ q.byId ∧ x.due.isSome := fun x hx => by
        simpa using h.dated.mem_iff.mp hx
      have hkeep : (q.byDue.filter fun x => x ≠ e) = q.byDue.filter fun x => x.id ≠ e.id :=
        List.filter_congr fun x hx => by simpa using same x (hsub x hx).1
      rw [← hkeep]
      split
      · rfl
      · rename_i hnone
        refine (List.filter_eq_self.mpr fun x hx => ?_).symm
        have : x ≠ e := fun hxe => hnone (hxe ▸ (hsub x hx).2)
        simpa using this
    have hrank : (q.byRank.filter fun x => x ≠ e) = q.byRank.filter fun x => x.id ≠ e.id :=
      List.filter_congr fun x hx => by simpa using same x (h.ranked.mem_iff.mp hx)
    simp only [remove, he, hdue, hrank]

theorem Consistent.remove (h : q.Consistent) (id : TaskId) : (q.remove id).2.Consistent := by
  rw [h.remove_eq]
  exact h.filter _ (List.Perm.refl _)

theorem Consistent.entryOf?_remove (h : q.Consistent) (id other : TaskId) :
    (q.remove id).2.entryOf? other = if other = id then none else q.entryOf? other := by
  rw [h.remove_eq]
  exact find?_filter_ne q.byId QueueEntry.id id other

/-! ## Insertion -/

/-- Insertion in two parts: the older entry leaves, and the new one enters every view. -/
theorem insert_eq (q : ReadyQueue) (id : TaskId) (priority : Priority) (due : Option Instant) :
    (q.insert id priority due).2 =
      let r := (q.remove id).2
      let e : QueueEntry := { id, priority, due, number := r.nextNumber }
      { byRank := insertSorted QueueEntry.dispatchedBefore e r.byRank
        byDue := if due.isSome then insertSorted QueueEntry.dueSooner e r.byDue else r.byDue
        byId := e :: r.byId
        nextNumber := r.nextNumber + 1 } := rfl

theorem Consistent.insert (h : q.Consistent) (id : TaskId) (priority : Priority)
    (due : Option Instant) : (q.insert id priority due).2.Consistent := by
  have hr := h.remove id
  rw [insert_eq]
  refine ⟨?_, ?_, ?_⟩
  · refine List.nodup_cons.mpr ⟨?_, hr.once⟩
    rw [h.remove_eq]
    simp
  · exact (insertSorted_perm _ _ _).trans (hr.ranked.cons _)
  · cases due with
    | none => simpa using hr.dated
    | some t => simpa using (insertSorted_perm _ _ _).trans (hr.dated.cons _)

theorem Consistent.waiting?_insert (h : q.Consistent) (id other : TaskId) (priority : Priority)
    (due : Option Instant) :
    (q.insert id priority due).2.waiting? other =
      if other = id then some { id, priority, due } else q.waiting? other := by
  have hr := h.entryOf?_remove id other
  simp only [waiting?, insert_eq, entryOf?, List.find?_cons] at hr ⊢
  by_cases hid : other = id
  · subst other
    simp [QueueEntry.waiting]
  · have hne : id ≠ other := fun e => hid e.symm
    rw [if_neg hid] at hr
    simp only [hne, decide_false, hr, if_neg hid]

theorem Consistent.waiting?_remove (h : q.Consistent) (id other : TaskId) :
    (q.remove id).2.waiting? other = if other = id then none else q.waiting? other := by
  rw [waiting?, h.entryOf?_remove]
  split <;> rfl

/-! ## Extraction -/

/-- The entries that an extraction takes out. -/
def taken (q : ReadyQueue) (now : Instant) : List QueueEntry :=
  q.byDue.takeWhile fun e => e.isDue now

theorem Consistent.mem_byId_of_mem_taken (h : q.Consistent) {now : Instant} {e : QueueEntry}
    (he : e ∈ q.taken now) : e ∈ q.byId ∧ e.isDue now := by
  have hdue := List.mem_takeWhile_imp he
  have hm := (List.takeWhile_prefix _).subset he
  exact ⟨(List.mem_filter.mp (h.dated.mem_iff.mp hm)).1, hdue⟩

theorem Consistent.nodup_taken (h : q.Consistent) (now : Instant) :
    ((q.taken now).map QueueEntry.id).Nodup := by
  have hdue : (q.byDue.map QueueEntry.id).Nodup :=
    (h.dated.map QueueEntry.id).nodup_iff.mpr (h.once.sublist (List.filter_sublist.map _))
  exact hdue.sublist ((List.takeWhile_prefix _).sublist.map _)

theorem mem_extractDue {now : Instant} {id : TaskId} :
    id ∈ (q.extractDue now).1 ↔ ∃ e ∈ q.taken now, e.id = id := by
  simp only [extractDue, List.mem_map, (sortBy_perm _ _).mem_iff, taken]

theorem Consistent.nodup_extractDue (h : q.Consistent) (now : Instant) :
    (q.extractDue now).1.Nodup :=
  ((sortBy_perm QueueEntry.dispatchedBefore (q.taken now)).map QueueEntry.id).nodup_iff.mpr
    (h.nodup_taken now)

/-- What is extracted was queued and due. -/
theorem Consistent.due_of_mem_extractDue (h : q.Consistent) {now : Instant} {id : TaskId}
    (hid : id ∈ (q.extractDue now).1) : ∃ e, q.entryOf? id = some e ∧ e.isDue now := by
  obtain ⟨e, he, rfl⟩ := mem_extractDue.mp hid
  obtain ⟨hm, hdue⟩ := h.mem_byId_of_mem_taken he
  exact ⟨e, h.entryOf?_eq_some.mpr ⟨hm, rfl⟩, hdue⟩

theorem Consistent.extractDue (h : q.Consistent) (now : Instant) :
    (q.extractDue now).2.Consistent := by
  refine h.filter (fun e => e ∉ q.taken now) ?_
  have hnodup : q.byDue.Nodup :=
    h.dated.nodup_iff.mpr (h.once.of_map.filter _)
  have hsplit : q.taken now ++ q.byDue.dropWhile (fun e => e.isDue now) = q.byDue :=
    List.takeWhile_append_dropWhile
  have hdisj := List.disjoint_of_nodup_append (hsplit.symm ▸ hnodup)
  conv_rhs => rw [← hsplit]
  rw [List.filter_append, List.filter_eq_nil_iff.mpr (by simp), List.nil_append,
    List.filter_eq_self.mpr fun e he => by simpa using fun ht => hdisj ht he]

theorem Consistent.waiting?_extractDue (h : q.Consistent) (now : Instant) (id : TaskId) :
    (q.extractDue now).2.waiting? id =
      if id ∈ (q.extractDue now).1 then none else q.waiting? id := by
  have hafter : ∀ e, (q.extractDue now).2.entryOf? id = some e ↔
      q.entryOf? id = some e ∧ e ∉ q.taken now := by
    intro e
    rw [(h.extractDue now).entryOf?_eq_some, h.entryOf?_eq_some]
    simp only [ReadyQueue.extractDue, List.mem_filter, taken]
    exact ⟨fun ⟨⟨a, b⟩, c⟩ => ⟨⟨a, c⟩, by simpa using b⟩,
      fun ⟨⟨a, c⟩, b⟩ => ⟨⟨a, by simpa using b⟩, c⟩⟩
  rw [waiting?, waiting?]
  cases he : (q.extractDue now).2.entryOf? id with
  | some e =>
    obtain ⟨hq, ht⟩ := (hafter e).mp he
    have hid : id ∉ (q.extractDue now).1 := by
      intro hmem
      obtain ⟨f, hf, hfid⟩ := mem_extractDue.mp hmem
      have hfq := h.entryOf?_eq_some.mpr ⟨(h.mem_byId_of_mem_taken hf).1, hfid⟩
      rw [hq] at hfq
      exact ht (Option.some.inj hfq ▸ hf)
    rw [if_neg hid, hq]
  | none =>
    split
    · rfl
    · rename_i hid
      cases hq : q.entryOf? id with
      | none => rfl
      | some e =>
        have ht : e ∈ q.taken now := by
          by_contra ht
          rw [(hafter e).mpr ⟨hq, ht⟩] at he
          cases he
        exact absurd (mem_extractDue.mpr ⟨e, ht, (h.entryOf?_eq_some.mp hq).2⟩) hid

end ReadyQueue

end Timetable
