import Timetable.Proofs.QueueOrder

/-!
# Edits of the ready queue

What a section about one task does to the queue is an edit of one identifier: it keeps the entry,
drops it, or places a new one. Edits of different identifiers may be made in either order. The same
entries wait afterwards, and they are listed in the same order, except that two new entries that
wait alike are listed in the order in which they were placed.
-/
namespace Timetable

/-- In a list sorted by a key two elements stand in the order of their keys. -/
theorem pair_sublist_iff {α κ : Type} [LinearOrder κ] {key : α → κ} {l : List α}
    (h : l.Pairwise fun a b => key a < key b) {a b : α} :
    [a, b].Sublist l ↔ a ∈ l ∧ b ∈ l ∧ key a < key b := by
  constructor
  · intro hsub
    exact ⟨hsub.subset (by simp), hsub.subset (by simp), by simpa using h.sublist hsub⟩
  · rintro ⟨ha, hb, hlt⟩
    obtain ⟨front, back, rfl⟩ := List.append_of_mem ha
    have hback : b ∈ back := by
      rcases List.mem_append.mp hb with hfront | hrest
      · exact absurd hlt ((List.pairwise_append.mp h).2.2 b hfront a (List.mem_cons_self ..)).asymm
      · exact (List.mem_cons.mp hrest).resolve_left fun e => (e ▸ hlt).false
    exact ((List.singleton_sublist.mpr hback).cons_cons a).trans (List.sublist_append_right front _)

/-- What is done to the entry of one identifier. -/
inductive QueueEdit where
  | keep
  | drop
  | place (priority : Priority) (due : Option Instant)

namespace QueueEntry

/-- Two entries that wait alike in two queues: an older entry is in both, and a newer one has been
placed in both after all that is older. -/
inductive Matches (limit : Nat) : QueueEntry → QueueEntry → Prop
  | old {e : QueueEntry} (h : e.number < limit) : Matches limit e e
  | new {e f : QueueEntry} (he : limit ≤ e.number) (hf : limit ≤ f.number)
    (h : e.waiting = f.waiting) :
    Matches limit e f

variable {limit : Nat} {e e' f f' : QueueEntry}

theorem Matches.waiting (h : e.Matches limit e') : e.waiting = e'.waiting := by
  cases h with
  | old => rfl
  | new _ _ h => exact h

theorem Matches.symm (h : e.Matches limit e') : e'.Matches limit e := by
  cases h with
  | old h => exact .old h
  | new he hf h => exact .new hf he h.symm

theorem matches_symm {x y : Option QueueEntry} (h : Option.Rel (Matches limit) x y) :
    Option.Rel (Matches limit) y x := by
  cases h with
  | none => exact .none
  | some h => exact .some h.symm

theorem waiting_of_matches {x y : Option QueueEntry} (h : Option.Rel (Matches limit) x y) :
    x.map waiting = y.map waiting := by
  cases h with
  | none => rfl
  | some h => exact congrArg some h.waiting

theorem exists_of_matches {y : Option QueueEntry} (h : Option.Rel (Matches limit) (some e) y) :
    ∃ f, y = some f ∧ e.Matches limit f := by
  cases h with
  | some h => exact ⟨_, rfl, h⟩

/-- Where two entries stand to one another depends on their age only if both wait alike; and an
older entry stays before a newer one. -/
theorem Matches.place_lt (he : e.Matches limit e') (hf : f.Matches limit f')
    (h : e.place < f.place) :
    e'.place < f'.place ∨
      limit ≤ e.number ∧ limit ≤ f.number ∧ e.priority = f.priority ∧ e.due = f.due := by
  rcases Prod.Lex.toLex_lt_toLex.mp h with hurgency | ⟨hurgency, hnumber⟩
  · left
    rw [he.waiting, hf.waiting] at hurgency
    exact Prod.Lex.toLex_lt_toLex.mpr (.inl hurgency)
  · have hurgency' := hurgency
    rw [he.waiting, hf.waiting] at hurgency'
    have hless (hless : e'.number < f'.number) : e'.place < f'.place :=
      Prod.Lex.toLex_lt_toLex.mpr (.inr ⟨hurgency', hless⟩)
    cases he with
    | old he =>
      cases hf with
      | old hf => exact .inl h
      | new hf hf' => exact .inl (hless (he.trans_le hf'))
    | new he he' =>
      cases hf with
      | old hf => exact absurd (he.trans_lt hnumber) hf.not_gt
      | new hf hf' =>
        simp only [Waiting.urgency, QueueEntry.waiting] at hurgency
        obtain ⟨hrank, hdue⟩ := Prod.ext_iff.mp (toLex_inj.mp hurgency)
        exact .inr ⟨he, hf, Priority.rank_inj.mp (OrderDual.toDual_inj.mp hrank),
          dueKey_inj.mp hdue⟩

end QueueEntry

namespace ReadyQueue

variable {q : ReadyQueue} {i j a b : TaskId} {x y : QueueEdit}

/-- The queue with the entry of one identifier edited. -/
def edit (q : ReadyQueue) (id : TaskId) : QueueEdit → ReadyQueue
  | .keep => q
  | .drop => (q.remove id).2
  | .place priority due => (q.insert id priority due).2

theorem turn_edit (q : ReadyQueue) (id : TaskId) (x : QueueEdit) : q.Turn id (q.edit id x) := by
  cases x with
  | keep => exact .same
  | drop => exact .remove
  | place priority due => exact .insert priority due

/-- The entry that an edit leaves under its identifier. -/
def edited? (q : ReadyQueue) (id : TaskId) : QueueEdit → Option QueueEntry
  | .keep => q.entryOf? id
  | .drop => none
  | .place priority due => some { id, priority, due, number := q.nextNumber }

theorem nextNumber_le_edit (q : ReadyQueue) (id : TaskId) (x : QueueEdit) :
    q.nextNumber ≤ (q.edit id x).nextNumber := by
  cases x with
  | keep => exact Nat.le_refl _
  | drop => exact (nextNumber_remove q id).ge
  | place priority due =>
    show q.nextNumber ≤ (q.remove id).2.nextNumber + 1
    rw [nextNumber_remove]
    exact Nat.le_succ _

namespace Ordered

theorem edit (h : q.Ordered) (id : TaskId) (x : QueueEdit) : (q.edit id x).Ordered :=
  h.turn (q.turn_edit id x)

/-- An edit touches the entry of its identifier alone. -/
theorem entryOf?_edit (h : q.Ordered) (id other : TaskId) (x : QueueEdit) :
    (q.edit id x).entryOf? other = if other = id then q.edited? id x else q.entryOf? other := by
  cases x with
  | keep =>
    split
    · subst other
      rfl
    · rfl
  | drop => exact h.toConsistent.entryOf?_remove id other
  | place priority due =>
    have hremove := h.toConsistent.entryOf?_remove id other
    simp only [ReadyQueue.edit, insert_eq, edited?, entryOf?, List.find?_cons,
      nextNumber_remove] at hremove ⊢
    by_cases hid : other = id
    · subst other
      simp
    · have hne : id ≠ other := fun e => hid e.symm
      rw [if_neg hid] at hremove
      simp only [hne, decide_false, hremove, if_neg hid]

/-- Two identifiers are listed in this order if the entry of the first has the smaller place. -/
theorem pair_sublist_toList (h : q.Ordered) :
    [a, b].Sublist q.toList ↔
      ∃ e f, q.entryOf? a = some e ∧ q.entryOf? b = some f ∧ e.place < f.place := by
  constructor
  · intro hsub
    obtain ⟨l, hl, hmap⟩ := List.sublist_map_iff.mp hsub
    obtain ⟨e, tail, rfl, rfl, htail⟩ := List.map_eq_cons_iff.mp hmap.symm
    obtain ⟨f, rest, rfl, rfl, hrest⟩ := List.map_eq_cons_iff.mp htail
    obtain rfl := List.map_eq_nil_iff.mp hrest
    obtain ⟨he, hf, hlt⟩ := (pair_sublist_iff h.byPlace).mp hl
    exact ⟨e, f, h.entryOf?_eq_some.mpr ⟨h.ranked.mem_iff.mp he, rfl⟩,
      h.entryOf?_eq_some.mpr ⟨h.ranked.mem_iff.mp hf, rfl⟩, hlt⟩
  · rintro ⟨e, f, he, hf, hlt⟩
    obtain ⟨hemem, rfl⟩ := h.entryOf?_eq_some.mp he
    obtain ⟨hfmem, rfl⟩ := h.entryOf?_eq_some.mp hf
    have hsub := (pair_sublist_iff h.byPlace).mpr
      ⟨h.ranked.mem_iff.mpr hemem, h.ranked.mem_iff.mpr hfmem, hlt⟩
    exact hsub.map QueueEntry.id

/-- Identifiers that an edit does not touch are listed as before. -/
theorem pair_sublist_edit (h : q.Ordered) (x : QueueEdit) (ha : a ≠ i) (hb : b ≠ i) :
    [a, b].Sublist (q.edit i x).toList ↔ [a, b].Sublist q.toList := by
  rw [(h.edit i x).pair_sublist_toList, h.pair_sublist_toList, h.entryOf?_edit,
    h.entryOf?_edit, if_neg ha, if_neg hb]

/-- Queues in which the same waits have the same entries. -/
theorem waiting_perm {r : ReadyQueue} (hq : q.Ordered) (hr : r.Ordered)
    (h : ∀ id, q.waiting? id = r.waiting? id) :
    (q.byRank.map QueueEntry.waiting).Perm (r.byRank.map QueueEntry.waiting) := by
  have hnodup {s : ReadyQueue} (hs : s.Ordered) : (s.byRank.map QueueEntry.waiting).Nodup := by
    have hids : ((s.byRank.map QueueEntry.waiting).map Waiting.id).Nodup := by
      rw [List.map_map]
      exact hs.toConsistent.nodup_toList
    exact hids.of_map _
  have hmem {s : ReadyQueue} (hs : s.Ordered) (w : Waiting) :
      w ∈ s.byRank.map QueueEntry.waiting ↔ s.waiting? w.id = some w := by
    rw [waiting?, Option.map_eq_some_iff, List.mem_map]
    constructor
    · rintro ⟨e, he, rfl⟩
      exact ⟨e, hs.entryOf?_eq_some.mpr ⟨hs.ranked.mem_iff.mp he, rfl⟩, rfl⟩
    · rintro ⟨e, he, hw⟩
      exact ⟨e, hs.ranked.mem_iff.mpr (hs.entryOf?_eq_some.mp he).1, hw⟩
  refine (List.perm_ext_iff_of_nodup (hnodup hq) (hnodup hr)).mpr fun w => ?_
  rw [hmem hq, hmem hr, h]

end Ordered

/-! ## Two edits -/

/-- The two identifiers wait under the same priority and due time. -/
def Ties (q : ReadyQueue) (i j : TaskId) : Prop :=
  ∃ priority due, q.waiting? i = some { id := i, priority, due } ∧
    q.waiting? j = some { id := j, priority, due }

/-- What an edit leaves under its identifier in one queue and in another that agrees
with it there. -/
theorem Ordered.matches_edited {r : ReadyQueue} (h : q.Ordered) (hle : q.nextNumber ≤ r.nextNumber)
    (hsame : r.entryOf? i = q.entryOf? i) (x : QueueEdit) :
    Option.Rel (QueueEntry.Matches q.nextNumber) (q.edited? i x) (r.edited? i x) := by
  cases x with
  | keep =>
    rw [edited?, edited?, hsame]
    cases he : q.entryOf? i with
    | none => exact .none
    | some e => exact .some (.old (h.fresh e (h.entryOf?_eq_some.mp he).1))
  | drop => exact .none
  | place priority due => exact .some (.new (Nat.le_refl _) hle rfl)

/-- Whichever of two edits of different identifiers is made first, the same entries result but
for their age. -/
theorem Ordered.matches_edits (h : q.Ordered) (hij : i ≠ j) (x y : QueueEdit) (id : TaskId) :
    Option.Rel (QueueEntry.Matches q.nextNumber) (((q.edit i x).edit j y).entryOf? id)
      (((q.edit j y).edit i x).entryOf? id) := by
  have hi : (q.edit j y).entryOf? i = q.entryOf? i := by rw [h.entryOf?_edit, if_neg hij]
  have hj : (q.edit i x).entryOf? j = q.entryOf? j := by rw [h.entryOf?_edit, if_neg hij.symm]
  rw [(h.edit i x).entryOf?_edit, (h.edit j y).entryOf?_edit, h.entryOf?_edit, h.entryOf?_edit]
  by_cases hidj : id = j
  · subst id
    rw [if_pos rfl, if_neg hij.symm, if_pos rfl]
    exact QueueEntry.matches_symm (h.matches_edited (q.nextNumber_le_edit i x) hj y)
  · rw [if_neg hidj, if_neg hidj]
    by_cases hidi : id = i
    · subst id
      rw [if_pos rfl, if_pos rfl]
      exact h.matches_edited (q.nextNumber_le_edit j y) hi x
    · rw [if_neg hidi, if_neg hidi]
      exact h.matches_edited (i := id) (Nat.le_refl _) rfl .keep

/-- What is left of an edit is new only under the identifier of an edit. -/
theorem Ordered.of_new (h : q.Ordered) (x y : QueueEdit) {id : TaskId} {e : QueueEntry}
    (he : ((q.edit i x).edit j y).entryOf? id = some e) (hnew : q.nextNumber ≤ e.number) :
    id = i ∨ id = j := by
  by_contra hne
  rw [not_or] at hne
  rw [(h.edit i x).entryOf?_edit, if_neg hne.2, h.entryOf?_edit, if_neg hne.1] at he
  exact absurd (h.fresh e (h.entryOf?_eq_some.mp he).1) hnew.not_gt

/-- Two queues in which the same waits and is listed in the same order, but for ties of two
identifiers. -/
structure SameUpToTies (q r : ReadyQueue) (i j : TaskId) : Prop where
  waiting : ∀ id, q.waiting? id = r.waiting? id
  entries : (q.byRank.map QueueEntry.waiting).Perm (r.byRank.map QueueEntry.waiting)
  order : ∀ a b, [a, b].Sublist q.toList →
    [a, b].Sublist r.toList ∨ ((a = i ∧ b = j ∨ a = j ∧ b = i) ∧ q.Ties a b)

/-- Edits of different identifiers may be made in either order. -/
theorem Ordered.edit_comm (h : q.Ordered) (hij : i ≠ j) (x y : QueueEdit) :
    ((q.edit i x).edit j y).SameUpToTies ((q.edit j y).edit i x) i j := by
  have hfirst := (h.edit i x).edit j y
  have hsecond := (h.edit j y).edit i x
  have hmatch := h.matches_edits hij x y
  have hwaiting (id : TaskId) :
      ((q.edit i x).edit j y).waiting? id = ((q.edit j y).edit i x).waiting? id :=
    QueueEntry.waiting_of_matches (hmatch id)
  refine ⟨hwaiting, hfirst.waiting_perm hsecond hwaiting, fun a b hsub => ?_⟩
  obtain ⟨e, f, he, hf, hlt⟩ := hfirst.pair_sublist_toList.mp hsub
  obtain ⟨e', he', hee⟩ := QueueEntry.exists_of_matches (he ▸ hmatch a)
  obtain ⟨f', hf', hff⟩ := QueueEntry.exists_of_matches (hf ▸ hmatch b)
  rcases hee.place_lt hff hlt with hlt' | ⟨hnewe, hnewf, hpriority, hdue⟩
  · exact .inl (hsecond.pair_sublist_toList.mpr ⟨e', f', he', hf', hlt'⟩)
  · right
    have hne : a ≠ b := fun hab => by
      obtain rfl := Option.some.inj ((hab ▸ he).symm.trans hf)
      exact lt_irrefl _ hlt
    refine ⟨?_, e.priority, e.due, ?_, ?_⟩
    · rcases h.of_new x y he hnewe with rfl | rfl <;> rcases h.of_new x y hf hnewf with rfl | rfl
      · exact absurd rfl hne
      · exact .inl ⟨rfl, rfl⟩
      · exact .inr ⟨rfl, rfl⟩
      · exact absurd rfl hne
    · rw [waiting?, he, ← (hfirst.entryOf?_eq_some.mp he).2]
      rfl
    · rw [waiting?, hf, ← (hfirst.entryOf?_eq_some.mp hf).2, hpriority, hdue]
      rfl

end ReadyQueue

end Timetable
