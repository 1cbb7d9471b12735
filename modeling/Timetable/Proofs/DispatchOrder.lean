import Mathlib.Data.Prod.Lex
import Timetable.Proofs.ReadyQueue

/-!
# Dispatch order

Entries of the ready queue have a place: the more urgent come first, then the earlier due, then the
earlier inserted. No two entries share a place, so a set of entries can be put in order in one way
only. Every operation keeps the first view of the queue in the order of the places and the second in
the order of the due times.
-/
namespace Timetable

/-! ## Lists in the order of a key -/

section Keys

variable {α κ : Type} [LinearOrder κ] {key : α → κ} {before : α → α → Bool}

/-- There is one way only to put elements in the order of their keys. -/
theorem eq_of_perm_of_increasing {l₁ l₂ : List α} (h₁ : l₁.Pairwise fun a b => key a < key b)
    (h₂ : l₂.Pairwise fun a b => key a < key b) (h : l₁.Perm l₂) : l₁ = l₂ :=
  h.eq_of_pairwise (fun _ _ _ _ hab hba => absurd hab (lt_asymm hba)) h₁ h₂

theorem insertSorted_increasing (key : α → κ) (hb : ∀ a b, before a b = true ↔ key a < key b)
    {a : α} {l : List α} (h : l.Pairwise fun a b => key a < key b) (ha : ∀ b ∈ l, key b ≠ key a) :
    (insertSorted before a l).Pairwise fun a b => key a < key b := by
  induction l with
  | nil => exact List.pairwise_singleton _ _
  | cons b l ih =>
    obtain ⟨hbl, hl⟩ := List.pairwise_cons.mp h
    rw [insertSorted]
    split
    · rename_i hab
      refine List.pairwise_cons.mpr ⟨fun c hc => ?_, h⟩
      rcases List.mem_cons.mp hc with rfl | hc
      · exact (hb a c).mp hab
      · exact ((hb a b).mp hab).trans (hbl c hc)
    · rename_i hab
      have hba : key b < key a :=
        lt_of_le_of_ne (not_lt.mp fun hlt => hab ((hb a b).mpr hlt)) (ha b (List.mem_cons_self ..))
      refine List.pairwise_cons.mpr ⟨fun c hc => ?_, ih hl fun c hc =>
        ha c (List.mem_cons_of_mem _ hc)⟩
      rcases List.mem_cons.mp ((insertSorted_perm before a l).mem_iff.mp hc) with rfl | hc
      · exact hba
      · exact hbl c hc

theorem sortBy_increasing (key : α → κ) (hb : ∀ a b, before a b = true ↔ key a < key b) {l : List α}
    (h : (l.map key).Nodup) : (sortBy before l).Pairwise fun a b => key a < key b := by
  induction l with
  | nil => exact List.Pairwise.nil
  | cons a l ih =>
    obtain ⟨ha, hl⟩ := List.nodup_cons.mp h
    refine insertSorted_increasing key hb (ih hl) fun b hb' e => ha ?_
    exact e ▸ List.mem_map_of_mem ((sortBy_perm before l).mem_iff.mp hb')

/-- Where a test fails for all later keys once it has failed, the elements that pass
it come first. -/
theorem takeWhile_eq_filter {l : List α} {p : α → Bool} (h : l.Pairwise fun a b => key a < key b)
    (hp : ∀ a b, key a < key b → p b → p a) : l.takeWhile p = l.filter p := by
  induction l with
  | nil => rfl
  | cons a l ih =>
    obtain ⟨hal, hl⟩ := List.pairwise_cons.mp h
    rw [List.takeWhile_cons, List.filter_cons]
    split
    · rw [ih hl]
    · rename_i ha
      exact (List.filter_eq_nil_iff.mpr fun b hb hpb => ha (hp a b (hal b hb) hpb)).symm

theorem dropWhile_eq_filter {l : List α} {p : α → Bool} (h : l.Pairwise fun a b => key a < key b)
    (hp : ∀ a b, key a < key b → p b → p a) : l.dropWhile p = l.filter fun a => !p a := by
  induction l with
  | nil => rfl
  | cons a l ih =>
    obtain ⟨hal, hl⟩ := List.pairwise_cons.mp h
    rw [List.dropWhile_cons, List.filter_cons]
    cases ha : p a with
    | true =>
      simp only [if_true, Bool.not_true, Bool.false_eq_true, if_false]
      exact ih hl
    | false =>
      have hall : (l.filter fun b => !p b) = l := List.filter_eq_self.mpr fun b hb => by
        cases hpb : p b with
        | true => rw [hp a b (hal b hb) hpb] at ha; cases ha
        | false => rfl
      simp [hall]

end Keys

/-! ## Places -/

/-- Due times as keys: later ones are larger, and no due time is the largest. -/
def dueKey : Option Instant → ℕ ×ₗ ℤ
  | some t => toLex (0, t.rank)
  | none => toLex (1, 0)

theorem dueKey_lt {t u : Instant} : dueKey (some t) < dueKey (some u) ↔ t.rank < u.rank := by
  simp [dueKey, Prod.Lex.toLex_lt_toLex]

theorem dueKey_le {t u : Instant} : dueKey (some t) ≤ dueKey (some u) ↔ t.rank ≤ u.rank := by
  simp [dueKey, Prod.Lex.toLex_le_toLex]

theorem dueKey_lt_none {t : Instant} : dueKey (some t) < dueKey none :=
  Prod.Lex.toLex_lt_toLex.mpr (.inl Nat.zero_lt_one)

theorem dueBefore_iff {a b : Option Instant} : dueBefore a b ↔ dueKey a < dueKey b := by
  cases a with
  | none =>
    cases b with
    | none => simp [dueBefore]
    | some u => simp [dueBefore, dueKey_lt_none.asymm]
  | some t =>
    cases b with
    | none => simp [dueBefore, dueKey_lt_none]
    | some u => simp [dueBefore, dueKey_lt, Instant.lt_def]

theorem dueKey_inj {a b : Option Instant} : dueKey a = dueKey b ↔ a = b := by
  cases a with
  | none => cases b <;> simp [dueKey]
  | some t =>
    cases b with
    | none => simp [dueKey]
    | some u =>
      simp only [dueKey, toLex_inj, Prod.mk.injEq, true_and, Option.some.injEq]
      exact ⟨Instant.rank_injective, fun e => e ▸ rfl⟩

/-- What is dispatched first has the least urgency key. -/
def Waiting.urgency (e : Waiting) : ℕᵒᵈ ×ₗ ℕ ×ₗ ℤ :=
  toLex (OrderDual.toDual e.priority.rank, dueKey e.due)

theorem Waiting.mayPrecede_iff {a b : Waiting} : a.mayPrecede b ↔ a.urgency ≤ b.urgency := by
  rw [mayPrecede, urgency, urgency, Prod.Lex.toLex_le_toLex]
  split
  · rename_i h
    simp [h, Bool.eq_false_iff, dueBefore_iff]
  · rename_i h
    have hne : a.priority.rank ≠ b.priority.rank := fun e => h (Priority.rank_inj.mp e)
    simp [hne]

namespace QueueEntry

/-- The place of an entry in dispatch order. -/
def place (e : QueueEntry) : (ℕᵒᵈ ×ₗ ℕ ×ₗ ℤ) ×ₗ ℕ := toLex (e.waiting.urgency, e.number)

/-- The place of an entry in the order of due times. -/
def deadline (e : QueueEntry) : (ℕ ×ₗ ℤ) ×ₗ ℕ := toLex (dueKey e.due, e.number)

variable {a b : QueueEntry}

theorem dispatchedBefore_iff : a.dispatchedBefore b ↔ a.place < b.place := by
  rw [dispatchedBefore, place, place, Prod.Lex.toLex_lt_toLex, Waiting.urgency, Waiting.urgency,
    Prod.Lex.toLex_lt_toLex]
  by_cases hp : a.priority = b.priority
  · by_cases hd : a.due = b.due
    · simp [hp, hd, waiting]
    · have hne : dueKey a.due ≠ dueKey b.due := fun e => hd (dueKey_inj.mp e)
      simp [hp, hd, hne, waiting, dueBefore_iff]
  · have hne : a.priority.rank ≠ b.priority.rank := fun e => hp (Priority.rank_inj.mp e)
    simp [hp, hne, waiting]

theorem dueSooner_iff : a.dueSooner b ↔ a.deadline < b.deadline := by
  rw [dueSooner, deadline, deadline, Prod.Lex.toLex_lt_toLex]
  by_cases hd : a.due = b.due
  · simp [hd]
  · have hne : dueKey a.due ≠ dueKey b.due := fun e => hd (dueKey_inj.mp e)
    simp [hd, hne, dueBefore_iff]

theorem isDue_iff {e : QueueEntry} {now : Instant} :
    e.isDue now ↔ dueKey e.due ≤ dueKey (some now) := by
  cases hd : e.due with
  | none => simp [isDue, hd, dueKey_lt_none.not_ge]
  | some t => simp [isDue, hd, dueKey_le, Instant.le_def]

/-- What is due later than a due entry is due only if both are. -/
theorem isDue_of_lt {now : Instant} (h : a.deadline < b.deadline) (hb : b.isDue now) :
    a.isDue now := by
  rw [isDue_iff] at hb ⊢
  rcases Prod.Lex.toLex_lt_toLex.mp h with hlt | ⟨heq, -⟩
  · exact hlt.le.trans hb
  · exact heq.le.trans hb

theorem number_eq_of_place_eq (h : a.place = b.place) : a.number = b.number :=
  (Prod.ext_iff.mp (toLex_inj.mp h)).2

theorem number_eq_of_deadline_eq (h : a.deadline = b.deadline) : a.number = b.number :=
  (Prod.ext_iff.mp (toLex_inj.mp h)).2

/-- Of entries that wait alike the earlier inserted is dispatched first. -/
theorem place_lt_of_number_lt (hp : a.priority = b.priority) (hd : a.due = b.due)
    (h : a.number < b.number) : a.place < b.place := by
  refine Prod.Lex.toLex_lt_toLex.mpr (.inr ⟨?_, h⟩)
  simp only [Waiting.urgency, waiting, hp, hd]

end QueueEntry

namespace ReadyQueue

/-! ## Every view in its order -/

/-- The views agree and are in order. The third holds the entries by their age, the newest first. -/
structure Ordered (q : ReadyQueue) : Prop extends q.Consistent where
  byPlace : q.byRank.Pairwise fun a b => a.place < b.place
  byDeadline : q.byDue.Pairwise fun a b => a.deadline < b.deadline
  byAge : q.byId.Pairwise fun a b => b.number < a.number
  fresh : ∀ e ∈ q.byId, e.number < q.nextNumber

variable {q : ReadyQueue}

theorem nextNumber_remove (q : ReadyQueue) (id : TaskId) :
    (q.remove id).2.nextNumber = q.nextNumber := by
  unfold remove
  split <;> rfl

theorem ordered_empty : empty.Ordered :=
  ⟨consistent_empty, .nil, .nil, .nil, by simp [empty]⟩

namespace Ordered

/-- Leaving out the same entries from each view. -/
theorem filter (h : q.Ordered) (keep : QueueEntry → Bool) {byDue : List QueueEntry}
    (hd : byDue = q.byDue.filter keep) :
    Ordered ⟨q.byRank.filter keep, byDue, q.byId.filter keep, q.nextNumber⟩ where
  toConsistent := h.toConsistent.filter keep (hd ▸ List.Perm.refl _)
  byPlace := h.byPlace.filter keep
  byDeadline := hd ▸ h.byDeadline.filter keep
  byAge := h.byAge.filter keep
  fresh := fun e he => h.fresh e (List.mem_of_mem_filter he)

theorem remove (h : q.Ordered) (id : TaskId) : (q.remove id).2.Ordered := by
  rw [h.toConsistent.remove_eq]
  exact h.filter _ rfl

/-- An entry with the next number enters every view at its place. -/
theorem insert (h : q.Ordered) (id : TaskId) (priority : Priority) (due : Option Instant) :
    (q.insert id priority due).2.Ordered := by
  have hr := h.remove id
  have hconsistent := h.toConsistent.insert id priority due
  rw [insert_eq] at hconsistent ⊢
  generalize (q.remove id).2 = r at hr hconsistent ⊢
  have hnew : ∀ e ∈ r.byId, e.number ≠ r.nextNumber := fun e he => (hr.fresh e he).ne
  refine ⟨hconsistent, ?_, ?_, ?_, ?_⟩
  · refine insertSorted_increasing QueueEntry.place (fun _ _ => QueueEntry.dispatchedBefore_iff)
      hr.byPlace fun e he heq => ?_
    exact hnew e (hr.ranked.mem_iff.mp he) (QueueEntry.number_eq_of_place_eq heq)
  · cases due with
    | none => exact hr.byDeadline
    | some t =>
      refine insertSorted_increasing QueueEntry.deadline
        (fun _ _ => QueueEntry.dueSooner_iff) hr.byDeadline fun e he heq => ?_
      have hmem := (List.mem_filter.mp (hr.dated.mem_iff.mp he)).1
      exact hnew e hmem (QueueEntry.number_eq_of_deadline_eq heq)
  · exact List.pairwise_cons.mpr ⟨hr.fresh, hr.byAge⟩
  · intro e he
    rcases List.mem_cons.mp he with rfl | he
    · exact Nat.lt_succ_self _
    · exact (hr.fresh e he).trans (Nat.lt_succ_self _)

/-- An extraction takes out what is due. -/
theorem taken_eq (h : q.Ordered) (now : Instant) :
    q.taken now = q.byDue.filter fun e => e.isDue now :=
  takeWhile_eq_filter h.byDeadline fun _ _ hlt => QueueEntry.isDue_of_lt hlt

theorem mem_taken (h : q.Ordered) {now : Instant} {e : QueueEntry} (he : e ∈ q.byId) :
    e ∈ q.taken now ↔ e.isDue now := by
  rw [h.taken_eq, List.mem_filter, h.dated.mem_iff, List.mem_filter]
  refine ⟨fun hm => hm.2, fun hdue => ⟨⟨he, ?_⟩, hdue⟩⟩
  cases hd : e.due with
  | none => simp [QueueEntry.isDue, hd] at hdue
  | some t => rfl

/-- An extraction leaves in each view what is not due. -/
theorem extractDue_eq (h : q.Ordered) (now : Instant) : (q.extractDue now).2 =
    { q with
      byRank := q.byRank.filter fun e => !e.isDue now
      byDue := q.byDue.filter fun e => !e.isDue now
      byId := q.byId.filter fun e => !e.isDue now } := by
  have hid : (q.byId.filter fun e => e ∉ q.taken now) = q.byId.filter fun e => !e.isDue now :=
    List.filter_congr fun e he => by simp [h.mem_taken he]
  have hrank : (q.byRank.filter fun e => e ∉ q.taken now) = q.byRank.filter fun e => !e.isDue now :=
    List.filter_congr fun e he => by simp [h.mem_taken (h.ranked.mem_iff.mp he)]
  have hdue : (q.byDue.dropWhile fun e => e.isDue now) = q.byDue.filter fun e => !e.isDue now :=
    dropWhile_eq_filter h.byDeadline fun _ _ hlt => QueueEntry.isDue_of_lt hlt
  rw [← hid, ← hrank, ← hdue]
  rfl

theorem extractDue (h : q.Ordered) (now : Instant) : (q.extractDue now).2.Ordered := by
  rw [h.extractDue_eq]
  exact h.filter _ rfl

/-- What is extracted is the due part of the first view, in its order. -/
theorem extracted_eq (h : q.Ordered) (now : Instant) :
    (q.extractDue now).1 = (q.byRank.filter fun e => e.isDue now).map QueueEntry.id := by
  have hperm : (sortBy QueueEntry.dispatchedBefore (q.taken now)).Perm
      (q.byRank.filter fun e => e.isDue now) := by
    have hrank : (q.byRank.filter fun e => e.isDue now).Perm
        ((q.byId.filter fun e => e.due.isSome).filter fun e => e.isDue now) := by
      rw [List.filter_filter]
      have hkeep : (q.byId.filter fun e => e.isDue now && e.due.isSome) =
          q.byId.filter fun e => e.isDue now :=
        List.filter_congr fun e _ => by cases hd : e.due <;> simp [QueueEntry.isDue, hd]
      rw [hkeep]
      exact h.ranked.filter _
    rw [h.taken_eq]
    exact (sortBy_perm _ _).trans ((h.dated.filter _).trans hrank.symm)
  have hnodup : ((q.taken now).map QueueEntry.place).Nodup := by
    refine List.Nodup.map_on (fun a ha b hb heq => ?_) (h.nodup_taken now).of_map
    have ha' := (h.toConsistent.mem_byId_of_mem_taken ha).1
    have hb' := (h.toConsistent.mem_byId_of_mem_taken hb).1
    have hnumbers : (q.byId.map QueueEntry.number).Nodup :=
      List.pairwise_map.mpr (h.byAge.imp fun hlt => hlt.ne')
    exact List.inj_on_of_nodup_map hnumbers ha' hb' (QueueEntry.number_eq_of_place_eq heq)
  have hsorted :=
    sortBy_increasing QueueEntry.place (fun _ _ => QueueEntry.dispatchedBefore_iff) hnodup
  have heq := eq_of_perm_of_increasing hsorted (h.byPlace.filter _) hperm
  rw [← heq]
  rfl

end Ordered

end ReadyQueue

end Timetable
