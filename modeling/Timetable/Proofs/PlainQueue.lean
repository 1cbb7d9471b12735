import Mathlib.Data.List.Sort
import Timetable.Proofs.DispatchOrder
import Timetable.Span

/-!
# The ready queue against one list

The plain queue keeps one list in the order of insertion and sorts it whenever it is read. Given the
same operations, the ready queue answers each as the plain one does and looks the same afterwards.
The plain queue that goes with a ready one lists its entries by age.
-/
namespace Timetable

/-! ## Operations and what they show -/

/-- An operation on a queue. -/
inductive QueueOp where
  | insert (id : TaskId) (priority : Priority) (due : Option Instant)
  | remove (id : TaskId)
  | extractDue (now : Instant)

/-- What an operation returns. -/
inductive QueueAnswer where
  | flag (b : Bool)
  | ids (l : List TaskId)
deriving DecidableEq

/-- What can be read off a queue. -/
structure QueueView where
  order : List TaskId
  size : Nat
  isEmpty : Bool
  nextDue? : Option Instant
deriving DecidableEq

namespace QueueOp

def isInsert : QueueOp → Bool
  | insert .. => true
  | _ => false

variable {Q : Type}

/-- What some operations return, one after the other, and the queue they leave. -/
def run (apply : Q → QueueOp → QueueAnswer × Q) (q : Q) : List QueueOp → List QueueAnswer × Q
  | [] => ([], q)
  | op :: ops =>
    let (answer, q) := apply q op
    let (answers, q) := run apply q ops
    (answer :: answers, q)

end QueueOp

namespace ReadyQueue

def apply (q : ReadyQueue) : QueueOp → QueueAnswer × ReadyQueue
  | .insert i priority due => (q.insert i priority due).map .flag id
  | .remove i => (q.remove i).map .flag id
  | .extractDue now => (q.extractDue now).map .ids id

def run : ReadyQueue → List QueueOp → List QueueAnswer × ReadyQueue := QueueOp.run apply

def view (q : ReadyQueue) : QueueView where
  order := q.toList
  size := q.size
  isEmpty := q.isEmpty
  nextDue? := q.nextDue?

end ReadyQueue

namespace PlainQueue

def apply (q : PlainQueue) : QueueOp → QueueAnswer × PlainQueue
  | .insert i priority due => (q.insert i priority due).map .flag id
  | .remove i => (q.remove i).map .flag id
  | .extractDue now => (q.extractDue now).map .ids id

def run : PlainQueue → List QueueOp → List QueueAnswer × PlainQueue := QueueOp.run apply

def view (q : PlainQueue) : QueueView where
  order := q.toList
  size := q.size
  isEmpty := q.entries.isEmpty
  nextDue? := q.nextDue?

end PlainQueue

/-! ## A stable sort by urgency -/

theorem Waiting.mayPrecede_trans (a b c : Waiting) (hab : a.mayPrecede b) (hbc : b.mayPrecede c) :
    a.mayPrecede c := by
  rw [mayPrecede_iff] at *
  exact hab.trans hbc

theorem Waiting.mayPrecede_total (a b : Waiting) : (a.mayPrecede b || b.mayPrecede a) := by
  rw [Bool.or_eq_true, mayPrecede_iff, mayPrecede_iff]
  exact le_total _ _

namespace QueueEntry

/-- Whether one may be dispatched no later than the other, whichever was inserted first. -/
def mayPrecede (a b : QueueEntry) : Bool := a.waiting.mayPrecede b.waiting

theorem mayPrecede_trans (a b c : QueueEntry) : a.mayPrecede b → b.mayPrecede c → a.mayPrecede c :=
  Waiting.mayPrecede_trans _ _ _

theorem mayPrecede_total (a b : QueueEntry) : (a.mayPrecede b || b.mayPrecede a) :=
  Waiting.mayPrecede_total _ _

theorem place_lt_of_mayPrecede {a b : QueueEntry} (h : a.mayPrecede b) (hn : a.number < b.number) :
    a.place < b.place := by
  rcases (Waiting.mayPrecede_iff.mp h).lt_or_eq with hlt | heq
  · exact Prod.Lex.toLex_lt_toLex.mpr (.inl hlt)
  · exact Prod.Lex.toLex_lt_toLex.mpr (.inr ⟨heq, hn⟩)

theorem place_lt_of_not_mayPrecede {a b : QueueEntry} (h : ¬a.mayPrecede b) :
    b.place < a.place := by
  have hlt : b.waiting.urgency < a.waiting.urgency :=
    not_le.mp fun hle => h (Waiting.mayPrecede_iff.mpr hle)
  exact Prod.Lex.toLex_lt_toLex.mpr (.inl hlt)

/-- A stable sort of entries in the order of insertion puts them in their places. -/
theorem mergeSort_increasing {l : List QueueEntry} (h : l.Pairwise fun a b => a.number < b.number) :
    (l.mergeSort mayPrecede).Pairwise fun a b => a.place < b.place := by
  induction l with
  | nil => simp
  | cons a l ih =>
    obtain ⟨hal, hl⟩ := List.pairwise_cons.mp h
    -- the first of the list goes past what is strictly more urgent and nothing else
    obtain ⟨front, back, hs, hsl, hfront⟩ :=
      List.mergeSort_cons mayPrecede_trans mayPrecede_total a l
    have hsorted := List.pairwise_mergeSort mayPrecede_trans mayPrecede_total (a :: l)
    have ih := ih hl
    rw [hs] at hsorted ⊢
    rw [hsl] at ih
    have hnumber : ∀ b ∈ back, a.number < b.number := fun b hb => hal b <|
      (List.mergeSort_perm l mayPrecede).mem_iff.mp (hsl ▸ List.mem_append_right _ hb)
    have hbehind : ∀ b ∈ back, a.mayPrecede b :=
      (List.pairwise_cons.mp (List.pairwise_append.mp hsorted).2.1).1
    obtain ⟨hf, hb, hfb⟩ := List.pairwise_append.mp ih
    refine List.pairwise_append.mpr ⟨hf, List.pairwise_cons.mpr ⟨fun b hb => ?_, hb⟩,
      fun c hc b hb => ?_⟩
    · exact place_lt_of_mayPrecede (hbehind b hb) (hnumber b hb)
    · rcases List.mem_cons.mp hb with rfl | hb
      · exact place_lt_of_not_mayPrecede (by simpa using hfront c hc)
      · exact hfb c hc b hb

end QueueEntry

/-! ## The least due time -/

/-- A due time no later than all others is the one that the plain queue finds. -/
theorem PlainQueue.foldl_least {l : List Instant} {o : Option Instant} {m : Instant}
    (hm : m ∈ o.toList ++ l) (hle : ∀ t ∈ o.toList ++ l, m ≤ t) :
    l.foldl (fun least t => some (match least with
      | none => t
      | some s => if t < s then t else s)) o = some m := by
  induction l generalizing o with
  | nil =>
    cases o with
    | none => simp at hm
    | some s => simpa using (by simpa using hm : m = s).symm
  | cons t l ih =>
    rw [List.foldl_cons]
    cases o with
    | none => exact ih hm hle
    | some s =>
      have hms : m.rank ≤ s.rank := hle s (by simp)
      have hmt : m.rank ≤ t.rank := hle t (by simp)
      refine ih ?_ fun u hu => ?_
      · rcases List.mem_append.mp hm with hs | hl
        · have e : m = s := by simpa using hs
          have hst : ¬t < s := by
            rw [Instant.lt_def, ← e]
            omega
          simp [hst, e]
        · rcases List.mem_cons.mp hl with e | hl
          · by_cases hts : t < s
            · simp [hts, e]
            · have hms' : m = s := Instant.rank_injective (by
                rw [Instant.lt_def] at hts
                rw [e] at hms ⊢
                omega)
              simp [hts, hms']
          · exact List.mem_append_right _ hl
      · rcases List.mem_append.mp hu with hs | hl
        · have hu' : u = s ∨ u = t := by
            by_cases hts : t < s
            · exact .inr (by simpa [hts] using hs)
            · exact .inl (by simpa [hts] using hs)
          rcases hu' with rfl | rfl
          · exact hms
          · exact hmt
        · exact hle u (by simp [hl])

/-! ## The queue as one list -/

namespace ReadyQueue

/-- The entries in the order of insertion. -/
def plain (q : ReadyQueue) : PlainQueue := ⟨q.byId.reverse.map QueueEntry.waiting⟩

variable {q : ReadyQueue}

/-- Entries left out of the third view are left out of the plain list. -/
theorem map_waiting_filter (l : List QueueEntry) (keep : Waiting → Bool) :
    (l.filter fun e => keep e.waiting).reverse.map QueueEntry.waiting =
      (l.reverse.map QueueEntry.waiting).filter keep := by
  rw [List.filter_map, List.filter_reverse]
  rfl

theorem remove_fst (q : ReadyQueue) (id : TaskId) :
    (q.remove id).1 = q.byId.any fun e => e.id = id := by
  cases he : q.entryOf? id with
  | none =>
    have hany : (q.byId.any fun e => e.id = id) = false := by
      simpa using List.find?_eq_none.mp he
    simp only [remove, he, hany]
  | some e =>
    have hany : (q.byId.any fun e => e.id = id) = true :=
      List.any_eq_true.mpr ⟨e, List.mem_of_find?_eq_some he, by simpa using List.find?_some he⟩
    simp only [remove, he, hany]

namespace Ordered

/-- The first view is the plain list sorted. -/
theorem inOrder_plain (h : q.Ordered) : q.plain.inOrder = q.byRank.map QueueEntry.waiting := by
  have hage : q.byId.reverse.Pairwise fun a b => a.number < b.number :=
    List.pairwise_reverse.mpr h.byAge
  have hperm : (q.byId.reverse.mergeSort QueueEntry.mayPrecede).Perm q.byRank :=
    (List.mergeSort_perm ..).trans ((List.reverse_perm _).trans h.ranked.symm)
  have hsort := eq_of_perm_of_increasing (QueueEntry.mergeSort_increasing hage) h.byPlace hperm
  rw [PlainQueue.inOrder, plain, ← hsort]
  exact (List.map_mergeSort (f := QueueEntry.waiting) fun _ _ _ _ => rfl).symm

theorem toList_plain (h : q.Ordered) : q.plain.toList = q.toList := by
  rw [PlainQueue.toList, h.inOrder_plain, List.map_map]
  rfl

/-- What is due first has the least of the due times. -/
theorem nextDue?_plain (h : q.Ordered) : q.plain.nextDue? = q.nextDue? := by
  have hdues : ∀ u, u ∈ q.plain.entries.filterMap Waiting.due ↔ ∃ e ∈ q.byDue, e.due = some u := by
    intro u
    simp only [plain, List.mem_filterMap, List.mem_map, List.mem_reverse, h.dated.mem_iff,
      List.mem_filter]
    constructor
    · rintro ⟨-, ⟨e, he, rfl⟩, hu⟩
      have hu' : e.due = some u := hu
      exact ⟨e, ⟨he, by rw [hu']; rfl⟩, hu'⟩
    · rintro ⟨e, ⟨he, -⟩, hu⟩
      exact ⟨_, ⟨e, he, rfl⟩, hu⟩
  cases hd : q.byDue with
  | nil =>
    have hnil : q.plain.entries.filterMap Waiting.due = [] :=
      List.eq_nil_iff_forall_not_mem.mpr fun u hu => by
        obtain ⟨e, he, -⟩ := (hdues u).mp hu
        simp [hd] at he
    rw [PlainQueue.nextDue?, hnil, nextDue?, hd]
    rfl
  | cons e later =>
    have hmem : e ∈ q.byDue := by simp [hd]
    obtain ⟨t, ht⟩ := Option.isSome_iff_exists.mp (List.mem_filter.mp (h.dated.mem_iff.mp hmem)).2
    have hleast : q.plain.nextDue? = some t := by
      refine PlainQueue.foldl_least ((hdues t).mpr ⟨e, hmem, ht⟩) fun u hu => ?_
      obtain ⟨f, hf, hfu⟩ := (hdues u).mp hu
      rw [hd] at hf
      rcases List.mem_cons.mp hf with rfl | hf
      · rw [ht] at hfu
        exact le_of_eq (congrArg Instant.rank (Option.some.inj hfu))
      · have hlt := (List.pairwise_cons.mp (hd ▸ h.byDeadline)).1 f hf
        have hkey : dueKey e.due ≤ dueKey f.due :=
          (Prod.Lex.toLex_lt_toLex.mp hlt).elim le_of_lt fun heq => heq.1.le
        simpa [ht, hfu, dueKey_le, Instant.le_def] using hkey
    rw [hleast, nextDue?, hd]
    exact ht.symm

theorem view_plain (h : q.Ordered) : q.plain.view = q.view := by
  rw [view, PlainQueue.view, h.toList_plain, h.nextDue?_plain]
  congr 1
  · simp [PlainQueue.size, plain, size]
  · simp [plain, isEmpty]

theorem remove_plain (h : q.Ordered) (id : TaskId) :
    q.plain.remove id = ((q.remove id).1, (q.remove id).2.plain) := by
  refine Prod.ext ?_ ?_
  · rw [remove_fst, PlainQueue.remove, plain, List.any_map, List.any_reverse]
    rfl
  · rw [h.toConsistent.remove_eq]
    exact congrArg PlainQueue.mk (map_waiting_filter q.byId fun e => e.id ≠ id).symm

theorem insert_plain (h : q.Ordered) (id : TaskId) (priority : Priority) (due : Option Instant) :
    q.plain.insert id priority due =
      ((q.insert id priority due).1, (q.insert id priority due).2.plain) := by
  rw [PlainQueue.insert, h.remove_plain id]
  refine Prod.ext rfl ?_
  simp [insert_eq, plain, QueueEntry.waiting]

theorem extractDue_plain (h : q.Ordered) (now : Instant) :
    q.plain.extractDue now = ((q.extractDue now).1, (q.extractDue now).2.plain) := by
  refine Prod.ext ?_ ?_
  · rw [h.extracted_eq, PlainQueue.extractDue, h.inOrder_plain, List.filter_map, List.map_map]
    rfl
  · rw [h.extractDue_eq]
    exact congrArg PlainQueue.mk (map_waiting_filter q.byId fun e => !PlainQueue.isDue now e).symm

/-- One operation is answered alike, and the queues still go together. -/
theorem apply_plain (h : q.Ordered) (op : QueueOp) :
    q.plain.apply op = ((q.apply op).1, (q.apply op).2.plain) ∧ (q.apply op).2.Ordered := by
  cases op with
  | insert i priority due =>
    exact ⟨congrArg (Prod.map _ _) (h.insert_plain i priority due), h.insert i priority due⟩
  | remove i => exact ⟨congrArg (Prod.map _ _) (h.remove_plain i), h.remove i⟩
  | extractDue now => exact ⟨congrArg (Prod.map _ _) (h.extractDue_plain now), h.extractDue now⟩

/-- So are any number of operations. -/
theorem run_plain (h : q.Ordered) (ops : List QueueOp) :
    q.plain.run ops = ((q.run ops).1, (q.run ops).2.plain) ∧ (q.run ops).2.Ordered := by
  induction ops generalizing q with
  | nil => exact ⟨rfl, h⟩
  | cons op ops ih =>
    obtain ⟨heq, hord⟩ := h.apply_plain op
    obtain ⟨ihe, iho⟩ := ih hord
    refine ⟨?_, iho⟩
    simp only [PlainQueue.run, run, QueueOp.run] at ihe ⊢
    rw [heq, ihe]

end Ordered

/-! ## The number of an insertion -/

theorem nextNumber_apply_le (q : ReadyQueue) (op : QueueOp) :
    (q.apply op).2.nextNumber ≤ q.nextNumber + [op].countP QueueOp.isInsert := by
  cases op with
  | insert i priority due =>
    show (q.remove i).2.nextNumber + 1 ≤ q.nextNumber + 1
    rw [nextNumber_remove]
  | remove i =>
    show (q.remove i).2.nextNumber ≤ q.nextNumber
    rw [nextNumber_remove]
  | extractDue now => exact le_rfl

/-- Insertions are counted, and nothing else is. -/
theorem nextNumber_run_le (q : ReadyQueue) (ops : List QueueOp) :
    (q.run ops).2.nextNumber ≤ q.nextNumber + ops.countP QueueOp.isInsert := by
  induction ops generalizing q with
  | nil => exact le_rfl
  | cons op ops ih =>
    have hop := q.nextNumber_apply_le op
    have hrest : ((q.apply op).2.run ops).2.nextNumber ≤ _ := ih (q.apply op).2
    show ((q.apply op).2.run ops).2.nextNumber ≤ _
    rw [← List.singleton_append, List.countP_append]
    omega

theorem takeWhile_congr_mem {l : List QueueEntry} {p r : QueueEntry → Bool}
    (h : ∀ e ∈ l, p e = r e) :
    l.takeWhile p = l.takeWhile r := by
  induction l with
  | nil => rfl
  | cons e l ih =>
    have hl : ∀ e' ∈ l, p e' = r e' := fun e' he' => h e' (List.mem_cons_of_mem _ he')
    rw [List.takeWhile_cons, List.takeWhile_cons, h e (List.mem_cons_self ..), ih hl]

/-- The last place that an entry due at that time can have in the order of due times. No entry of a
queue stands there. -/
def boundary (now : Instant) : QueueEntry :=
  { id := default, priority := .low, due := some now, number := wordLimit - 1 }

/-- As long as all numbers are less than the last word, cutting the order of due times at the last
place cuts off what is due. -/
theorem dueSooner_boundary {e : QueueEntry} {now : Instant} (h : e.number < wordLimit - 1) :
    e.dueSooner (boundary now) = e.isDue now := by
  cases hd : e.due with
  | none => simp [QueueEntry.dueSooner, QueueEntry.isDue, boundary, dueBefore, hd]
  | some t =>
    by_cases ht : t = now
    · have hdue : e.isDue now = true := by simp [QueueEntry.isDue, hd, ht, Instant.le_def]
      rw [hdue, QueueEntry.dueSooner, if_neg (by simp [hd, ht, boundary])]
      exact decide_eq_true h
    · have hne : t.rank ≠ now.rank := fun e => ht (Instant.rank_injective e)
      have hlt : t < now ↔ t ≤ now := by
        rw [Instant.lt_def, Instant.le_def]
        omega
      simp [QueueEntry.dueSooner, QueueEntry.isDue, boundary, dueBefore, hd, ht, hlt]

/-- What is known of a ready queue and a plain one that were given the same operations. -/
structure Refines (q : ReadyQueue) (p : PlainQueue) : Prop where
  /-- They look the same. -/
  view : q.view = p.view
  /-- The three views hold the same entries. -/
  consistent : q.Consistent
  /-- An extraction takes what is due, as the sorted list has it. -/
  extracted : ∀ now, (q.extractDue now).1 = (p.inOrder.filter (PlainQueue.isDue now)).map Waiting.id
  /-- The next number is a word. -/
  numbered : q.nextNumber < wordLimit
  /-- The order of due times may be cut at the last place of an instant. -/
  cut : ∀ now, (q.byDue.takeWhile fun e => e.dueSooner (boundary now)) = q.taken now

/-- The ready queue refines the plain one, as long as the numbers of the insertions are words and
less than the last one. -/
theorem refines_plain (ops : List QueueOp) (h : ops.countP QueueOp.isInsert < wordLimit - 1) :
    (empty.run ops).1 = (PlainQueue.run {} ops).1 ∧
      (empty.run ops).2.Refines (PlainQueue.run {} ops).2 := by
  obtain ⟨heq, hord⟩ := ordered_empty.run_plain ops
  have hplain : PlainQueue.run {} ops = ((empty.run ops).1, (empty.run ops).2.plain) := heq
  have hnext : (empty.run ops).2.nextNumber ≤ 0 + ops.countP QueueOp.isInsert :=
    nextNumber_run_le empty ops
  rw [hplain]
  generalize (empty.run ops).2 = q at hord hnext ⊢
  refine ⟨rfl, hord.view_plain.symm, hord.toConsistent, fun now => ?_, by omega, fun now => ?_⟩
  · exact (congrArg Prod.fst (hord.extractDue_plain now)).symm
  · have hnumber : ∀ e ∈ q.byDue, e.number < wordLimit - 1 := fun e he => by
      have hid := (List.mem_filter.mp (hord.dated.mem_iff.mp he)).1
      have := hord.fresh e hid
      omega
    exact takeWhile_congr_mem fun e he => dueSooner_boundary (hnumber e he)

/-- Three entries of which one is put in again, an extraction at the instant when two of them are
due, and two removals. -/
def sampleOps : List QueueOp :=
  [.insert (.ofNat 1) .normal (some .epoch), .insert (.ofNat 2) .critical none,
    .insert (.ofNat 3) .normal (some .epoch), .insert (.ofNat 1) .normal (some .epoch),
    .extractDue .epoch, .remove (.ofNat 1), .remove (.ofNat 2)]

/-- The entry that was put in again comes out last. -/
theorem refines_plain_reinserted : sampleOps.countP QueueOp.isInsert = 4 ∧
    (PlainQueue.run {} sampleOps).1 =
      [.flag true, .flag true, .flag true, .flag false, .ids [.ofNat 3, .ofNat 1],
        .flag false, .flag true] ∧
    (empty.run sampleOps).2.Refines (PlainQueue.run {} sampleOps).2 := by
  obtain ⟨heq, hrefines⟩ := refines_plain sampleOps (by decide)
  exact ⟨by decide, heq.symm.trans (by decide), hrefines⟩

end ReadyQueue

end Timetable
