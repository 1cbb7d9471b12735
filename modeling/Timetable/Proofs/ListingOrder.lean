import Mathlib.Data.List.NodupEquivFin
import Timetable.Proofs.Listings
import Timetable.Proofs.QueueEdits
import Timetable.Proofs.Rehearsal

/-!
# The order of listings

At its acceptance a task is marked with what the clock shows and with the number of the acceptance.
Nothing that happens to it later touches these marks, and no two tasks have the same number.
Listings go by them. So the order of a listing is the same in whatever order the index is gone
through, and two tasks are listed in the same order as long as both are there.
-/
namespace Timetable

variable {W : Type}

/-- Elements with rising positions in a list stand in it in this order. -/
theorem sublist_of_positions {α β : Type} {as : List α} {l : List β}
    {position : α → Nat} {f : α → β} (hrise : as.Pairwise fun a b => position a < position b)
    (hat : ∀ a ∈ as, l[position a]? = some (f a)) :
    (as.map f).Sublist l := by
  have hget (i : Fin as.length) : l[position (as.get i)]? = some (f (as.get i)) :=
    hat _ (as.get_mem i)
  have hbound (i : Fin as.length) : position (as.get i) < l.length :=
    (List.getElem?_eq_some_iff.mp (hget i)).1
  let place (i : Fin (as.map f).length) : Fin l.length := ⟨_, hbound (i.cast (List.length_map f))⟩
  refine List.sublist_iff_exists_fin_orderEmbedding_get_eq.mpr
    ⟨OrderEmbedding.ofStrictMono place fun i j hij => ?_, fun i => ?_⟩
  · exact List.pairwise_iff_get.mp hrise _ _ hij
  · have hat := (List.getElem?_eq_some_iff.mp (hget (i.cast (List.length_map f)))).2
    exact (List.getElem_map f).trans hat.symm

/-! ## Marks -/

/-- What a task is marked with at its acceptance, in the order in which it counts: the time,
then the number. -/
def Task.seniority (t : Task W) : Int ×ₗ Nat := toLex (t.createdAt.rank, t.sequence)

/-- The task and the time of an acceptance. -/
def Deed.admission? : Deed W → Option (TaskId × Instant)
  | accept _ t _ now => some (t.id, now)
  | _ => none

/-- The acceptances among the deeds, with their times. -/
def admissions (deeds : List (Deed W)) : List (TaskId × Instant) := deeds.filterMap Deed.admission?

theorem admissions_append (deeds more : List (Deed W)) :
    admissions (deeds ++ more) = admissions deeds ++ admissions more :=
  List.filterMap_append

/-- The task is the one it was, and so are its marks. -/
structure Task.SameMarks (t u : Task W) : Prop where
  id : u.id = t.id
  createdAt : u.createdAt = t.createdAt
  sequence : u.sequence = t.sequence

namespace Task

variable {t u : Task W} {w : W} {a : Attempt} {now : Instant} {delay : Span} {notices : List Notice}

theorem Settles.sameMarks (h : t.Settles w a now delay u notices) : t.SameMarks u := by
  cases h <;> constructor <;> simp [schedule, retry, cancel, ended_eq]

theorem sameMarks_handBack (t : Task W) (w : W) (now : Instant) :
    t.SameMarks (t.handBack w now) := by
  unfold handBack
  split <;> exact ⟨rfl, rfl, rfl⟩

end Task

/-- Nothing but an acceptance marks a task. -/
theorem Life.Step.sameMarks {delay : Span} {id : TaskId} {l l' : Life W} {d : Deed W} {u : Task W}
    (h : Life.Step delay id l d l') (hd : d.admission? = none) (hu : l'.task = some u) :
    ∃ t, l.task = some t ∧ t.SameMarks u := by
  cases h with
  | aside | attempt => exact ⟨u, hu, rfl, rfl, rfl⟩
  | accept => cases hd
  | claim ht | cancel ht | switch ht =>
    cases hu
    exact ⟨_, ht, rfl, rfl, rfl⟩
  | finish _ _ ht hs =>
    cases hu
    exact ⟨_, ht, hs.sameMarks⟩
  | abandon _ _ ht =>
    cases hu
    exact ⟨_, ht, Task.sameMarks_handBack _ _ _⟩
  | finishGone | abandonGone | evict => cases hu

namespace World

variable {w w' : World W} {d : Deed W} {deeds : List (Deed W)}

/-- Only acceptances are counted. -/
theorem Step.nextSequence (h : Step w d w') (hw : w.Sound) :
    w'.scheduler.nextSequence = w.scheduler.nextSequence + d.admission?.toList.length := by
  cases h with
  | accept _ _ _ _ h =>
    obtain ⟨-, rfl⟩ := Scheduler.takeIn_eq_ok h
    rfl
  | claim now =>
    have hs := congrArg Scheduler.nextSequence (hw.coherent.claimDue_eq hw.armed now).2.1
    exact hs
  | attempt | stop | deliver => rfl
  | @finish before after job a h work now =>
    cases ht : w.scheduler.task? job.id with
    | none => rw [Scheduler.finish_of_none { job with work } ht]; rfl
    | some t => rw [Scheduler.finish_of_some { job with work } ht]; rfl
  | @abandon before after job h now =>
    cases ht : w.scheduler.task? job.id with
    | none => rw [Scheduler.abandon_of_none ht]; rfl
    | some t =>
      rw [Scheduler.abandon_of_some ht]
      split <;> rfl
  | cancel h =>
    obtain ⟨t, -, -, rfl⟩ := Scheduler.cancel?_eq_some h
    rfl
  | switch h =>
    obtain ⟨t, -, -, rfl⟩ := Scheduler.setRecurrenceEnabled?_eq_some h
    rfl
  | evict h =>
    obtain ⟨t, -, -, -, rfl⟩ := Scheduler.evict_eq_ok h
    rfl
  | start h =>
    obtain ⟨_, _, _, rfl⟩ := Scheduler.start_eq_ok h
    rfl

/-- The tasks have the marks of these acceptances, each the number of its own. -/
structure Marked (w : World W) (admitted : List (TaskId × Instant)) : Prop where
  ids : admitted.map Prod.fst = w.accepted.map fun a => a.task.id
  next : w.scheduler.nextSequence = admitted.length
  marks : ∀ t ∈ w.scheduler.tasks, admitted[t.sequence]? = some (t.id, t.createdAt)

theorem Step.accepted (h : Step w d w') : (w'.accepted.map fun a => a.task.id) =
    (w.accepted.map fun a => a.task.id) ++ d.admission?.toList.map Prod.fst := by
  cases h with
  | accept => exact List.map_append
  | _ => exact (List.append_nil _).symm

theorem Step.marked {admitted : List (TaskId × Instant)} (h : Step w d w') (hw : w.Sound)
    (hmarked : w.Marked admitted) : w'.Marked (admitted ++ d.admission?.toList) := by
  refine ⟨?_, ?_, fun u hu => ?_⟩
  · rw [List.map_append, hmarked.ids, h.accepted]
  · rw [h.nextSequence hw, hmarked.next, List.length_append]
  · by_cases hd : d.admission? = none
    · have htask : (w'.life u.id).task = some u := (h.coherent hw).task?_eq_some.mpr ⟨hu, rfl⟩
      obtain ⟨t, ht, hsame⟩ := (h.life hw u.id).sameMarks hd htask
      rw [hd, Option.toList_none, List.append_nil, hsame.sequence, hsame.id, hsame.createdAt]
      exact hmarked.marks t (hw.coherent.task?_eq_some.mp ht).1
    · cases h with
      | @accept o t asked due now s new unseen hdue valid h =>
        obtain ⟨-, rfl⟩ := Scheduler.takeIn_eq_ok h
        rcases List.mem_append.mp hu with hu | hu
        · have hold := (List.getElem?_eq_some_iff.mp (hmarked.marks u hu)).1
          exact (List.getElem?_append_left hold).trans (hmarked.marks u hu)
        · obtain rfl := List.mem_singleton.mp hu
          have hnumber :
              ((t.accept now w.scheduler.nextSequence).schedule due).sequence = admitted.length :=
            hmarked.next
          rw [hnumber]
          exact List.getElem?_concat_length
      | _ => exact absurd rfl hd

theorem Run.marked {c : Config} {s : Scheduler W} (hs : Scheduler.create c = .ok s)
    (run : Run (fresh s) deeds w) :
    w.Marked (admissions deeds) := by
  have hstart : (fresh s).Reachable := ⟨c, s, [], hs, .refl _⟩
  induction run with
  | refl =>
    obtain rfl := Scheduler.create_eq_ok hs
    exact ⟨rfl, rfl, fun _ ht => absurd ht List.not_mem_nil⟩
  | @step w₁ w₂ deeds d run h ih =>
    have hmore : admissions (deeds ++ [d]) = admissions deeds ++ d.admission?.toList := by
      rw [admissions_append]
      cases hd : d.admission? <;> simp [hd, admissions]
    rw [hmore]
    exact h.marked (hstart.run run).sound ih

/-- No two tasks have the same number. -/
theorem Marked.sequence_inj {admitted : List (TaskId × Instant)} (h : w.Marked admitted)
    (hw : w.Sound) {t u : Task W}
    (ht : t ∈ w.scheduler.tasks) (hu : u ∈ w.scheduler.tasks) (heq : t.sequence = u.sequence) :
    t = u := by
  have hid : t.id = u.id := by
    have hmark := (h.marks t ht).symm.trans (heq ▸ h.marks u hu)
    exact (Prod.mk.inj (Option.some.inj hmark)).1
  exact List.inj_on_of_nodup_map hw.coherent.once ht hu hid

/-- A task's marks are those of its acceptance, wherever this is found among the acceptances. -/
theorem Marked.eq_of_getElem? {admitted : List (TaskId × Instant)} (h : w.Marked admitted)
    (honce : (w.accepted.map fun a => a.task.id).Nodup) {t : Task W}
    (ht : t ∈ w.scheduler.tasks) {i : Nat}
    {time : Instant} (hi : admitted[i]? = some (t.id, time)) :
    i = t.sequence ∧ time = t.createdAt := by
  have hmark := h.marks t ht
  rw [← h.ids] at honce
  have hlength : i < (admitted.map Prod.fst).length := by
    rw [List.length_map]
    exact (List.getElem?_eq_some_iff.mp hi).1
  have hnumber : i = t.sequence := by
    refine (List.getElem?_inj hlength honce).mp ?_
    rw [List.getElem?_map, List.getElem?_map, hi, hmark]
    rfl
  rw [← hnumber, hi] at hmark
  exact ⟨hnumber, (Prod.mk.inj (Option.some.inj hmark)).2⟩

/-- While a task is in the index its marks stay. -/
theorem Marked.seniority_eq {w₁ w₂ : World W} {admitted more : List (TaskId × Instant)}
    (h₁ : w₁.Marked admitted)
    (h₂ : w₂.Marked (admitted ++ more)) (honce : (w₂.accepted.map fun a => a.task.id).Nodup)
    {t u : Task W} (ht : t ∈ w₁.scheduler.tasks) (hu : u ∈ w₂.scheduler.tasks) (hid : u.id = t.id) :
    u.seniority = t.seniority := by
  have hmark := h₁.marks t ht
  have hkept : (admitted ++ more)[t.sequence]? = some (u.id, t.createdAt) := by
    rw [List.getElem?_append_left (List.getElem?_eq_some_iff.mp hmark).1, hmark, hid]
  obtain ⟨hsequence, hcreated⟩ := h₂.eq_of_getElem? honce hu hkept
  rw [Task.seniority, Task.seniority, hsequence, hcreated]

/-- Where the clock has not gone back between acceptances, what is senior has the smaller number. -/
theorem Marked.sequence_lt {admitted : List (TaskId × Instant)} (h : w.Marked admitted)
    (hw : w.Sound)
    (hclock : (admitted.map Prod.snd).Pairwise (· ≤ ·)) {t u : Task W} (ht : t ∈ w.scheduler.tasks)
    (hu : u ∈ w.scheduler.tasks) (hlt : t.seniority < u.seniority) : t.sequence < u.sequence := by
  by_contra hge
  rcases Nat.lt_or_eq_of_le (Nat.le_of_not_lt hge) with hless | heq
  · have htime {v : Task W} (hv : v ∈ w.scheduler.tasks) :
        (admitted.map Prod.snd)[v.sequence]? = some v.createdAt := by
      rw [List.getElem?_map, h.marks v hv]
      rfl
    obtain ⟨hui, hut⟩ := List.getElem?_eq_some_iff.mp (htime hu)
    obtain ⟨hti, htt⟩ := List.getElem?_eq_some_iff.mp (htime ht)
    have hle : u.createdAt ≤ t.createdAt := by
      have hle := List.pairwise_iff_getElem.mp hclock _ _ hui hti hless
      rwa [hut, htt] at hle
    rcases Prod.Lex.toLex_lt_toLex.mp hlt with hearlier | ⟨-, hnumber⟩
    · exact absurd hle (not_le.mpr hearlier)
    · exact hge hnumber
  · rw [h.sequence_inj hw hu ht heq] at hlt
    exact hlt.false

end World

/-! ## Listings -/

/-- A listing of tasks of the index. -/
inductive Listing where
  | all
  | inStatus (status : Status)

/-- Whether the task belongs into the listing. -/
def Listing.wants (l : Listing) (t : Task W) : Bool :=
  match l with
  | all => true
  | inStatus status => t.status = status

/-- The listing as the scheduler gives it. -/
def Listing.read (l : Listing) (s : Scheduler W) : List Snapshot :=
  match l with
  | all => s.listAll
  | inStatus status => s.listByStatus status

namespace Scheduler

variable {s : Scheduler W}

theorem acceptedBefore_iff {t u : Task W} : acceptedBefore t u ↔ t.seniority ≤ u.seniority := by
  have hrank : t.createdAt.rank = u.createdAt.rank ↔ t.createdAt = u.createdAt :=
    ⟨Instant.rank_injective, congrArg _⟩
  simp [acceptedBefore, Task.seniority, Prod.Lex.toLex_le_toLex, hrank, Instant.lt_def]

/-- The tasks that belong into the listing, as it has them. -/
def listed (s : Scheduler W) (l : Listing) : List (Task W) :=
  (s.tasks.filter l.wants).mergeSort acceptedBefore

theorem read_eq (s : Scheduler W) (l : Listing) : l.read s = (s.listed l).map Task.toSnapshot := by
  cases l <;> rfl

theorem ids_read (s : Scheduler W) (l : Listing) :
    (l.read s).map Snapshot.id = (s.listed l).map fun t => t.id := by
  rw [read_eq, List.map_map]
  rfl

theorem listed_perm (s : Scheduler W) (l : Listing) : (s.listed l).Perm (s.tasks.filter l.wants) :=
  List.mergeSort_perm ..

theorem mem_listed {l : Listing} {t : Task W} : t ∈ s.listed l ↔ t ∈ s.tasks ∧ l.wants t :=
  (s.listed_perm l).mem_iff.trans List.mem_filter

/-- Tasks with different marks are listed by them. -/
theorem listed_increasing {l : Listing}
    (hmarks : ((s.tasks.filter l.wants).map Task.seniority).Nodup) :
    (s.listed l).Pairwise fun t u => t.seniority < u.seniority := by
  have hle : (s.listed l).Pairwise fun t u => t.seniority ≤ u.seniority := by
    refine (List.pairwise_mergeSort (fun t u v htu huv => ?_) (fun t u => ?_) _).imp
      acceptedBefore_iff.mp
    · exact acceptedBefore_iff.mpr ((acceptedBefore_iff.mp htu).trans (acceptedBefore_iff.mp huv))
    · rw [Bool.or_eq_true, acceptedBefore_iff, acceptedBefore_iff]
      exact le_total _ _
  have hne : (s.listed l).Pairwise fun t u => t.seniority ≠ u.seniority :=
    List.pairwise_map.mp (((s.listed_perm l).map _).nodup_iff.mpr hmarks)
  exact (hle.and hne).imp fun h => lt_of_le_of_ne h.1 h.2

/-- There is only one way to list tasks by their marks. -/
theorem listed_eq {l : Listing} {tasks : List (Task W)}
    (hsorted : tasks.Pairwise fun t u => t.seniority < u.seniority)
    (hperm : tasks.Perm (s.tasks.filter l.wants)) : s.listed l = tasks := by
  have hmarks : (tasks.map Task.seniority).Nodup := List.pairwise_map.mpr (hsorted.imp ne_of_lt)
  have hlisted := s.listed_increasing ((hperm.map _).nodup_iff.mp hmarks)
  exact eq_of_perm_of_increasing hlisted hsorted ((s.listed_perm l).trans hperm.symm)

end Scheduler

namespace World

variable {w : World W} {deeds : List (Deed W)} {admitted : List (TaskId × Instant)}

theorem Marked.listed_increasing (h : w.Marked admitted) (hw : w.Sound) (l : Listing) :
    (w.scheduler.listed l).Pairwise fun t u => t.seniority < u.seniority := by
  have htasks : (w.scheduler.tasks.filter l.wants).Nodup :=
    (List.Nodup.of_map _ hw.coherent.once).filter _
  refine Scheduler.listed_increasing
    ((List.nodup_map_iff_inj_on htasks).mpr fun t ht u hu heq => ?_)
  exact h.sequence_inj hw (List.mem_of_mem_filter ht) (List.mem_of_mem_filter hu)
    (Prod.mk.inj (toLex.injective heq)).2

/-- Of two tasks in a listing the senior one is listed first. -/
theorem Marked.pair_sublist_read (h : w.Marked admitted) (hw : w.Sound) {l : Listing} {t u : Task W}
    (ht : t ∈ w.scheduler.listed l) (hu : u ∈ w.scheduler.listed l) :
    [t.id, u.id].Sublist ((l.read w.scheduler).map Snapshot.id) ↔ t.seniority < u.seniority := by
  have hsorted := h.listed_increasing hw l
  have hinj {v v' : Task W} (hv : v ∈ w.scheduler.listed l) (hv' : v' ∈ w.scheduler.listed l)
    (hid : v.id = v'.id) :
      v = v' :=
    List.inj_on_of_nodup_map hw.coherent.once (Scheduler.mem_listed.mp hv).1
      (Scheduler.mem_listed.mp hv').1 hid
  rw [Scheduler.ids_read]
  constructor
  · intro hsub
    obtain ⟨pair, hpair, hmap⟩ := List.sublist_map_iff.mp hsub
    obtain ⟨t', tail, rfl, htid, htail⟩ := List.map_eq_cons_iff.mp hmap.symm
    obtain ⟨u', rest, rfl, huid, hrest⟩ := List.map_eq_cons_iff.mp htail
    obtain rfl := List.map_eq_nil_iff.mp hrest
    obtain ⟨ht', hu', hlt⟩ := (pair_sublist_iff hsorted).mp hpair
    rwa [hinj ht ht' htid.symm, hinj hu hu' huid.symm]
  · intro hlt
    exact ((pair_sublist_iff hsorted).mpr ⟨ht, hu, hlt⟩).map fun t => t.id

theorem mem_ids_read {l : Listing} {id : TaskId} : id ∈ (l.read w.scheduler).map Snapshot.id ↔
    ∃ t ∈ w.scheduler.listed l, t.id = id := by
  rw [Scheduler.ids_read, List.mem_map]

/-- How tasks are listed in a world after these deeds. -/
structure ListsBySeniority (w : World W) (deeds : List (Deed W)) : Prop where
  /-- A listing has every task of the index that belongs into it, each once, the
  senior ones first. -/
  sorted : ∀ l : Listing, ∃ tasks : List (Task W), l.read w.scheduler = tasks.map Task.toSnapshot ∧
    (tasks.Pairwise fun t u => t.seniority < u.seniority) ∧ ∀ t, t ∈ tasks ↔
      t ∈ w.scheduler.tasks ∧ l.wants t
  once : ∀ l : Listing, ((l.read w.scheduler).map Snapshot.id).Nodup
  /-- Tasks are marked with the number and the time of their acceptance. -/
  marks : ∀ t ∈ w.scheduler.tasks, (admissions deeds)[t.sequence]? = some (t.id, t.createdAt)
  /-- In whatever order the index is gone through, the listing is the same. -/
  anyOrder : ∀ (l : Listing) (tasks : List (Task W)), tasks.Perm w.scheduler.tasks →
    l.read { w.scheduler with tasks } = l.read w.scheduler
  /-- Two tasks that are listed now and later are listed in the same order, whatever
  happens in between. -/
  stable : ∀ more w', Run w more w' → ∀ (l l' : Listing) (i j : TaskId),
    (∀ id ∈ [i, j], id ∈ (l.read w.scheduler).map Snapshot.id ∧
      id ∈ (l'.read w'.scheduler).map Snapshot.id) →
    ([i, j].Sublist ((l.read w.scheduler).map Snapshot.id) ↔
      [i, j].Sublist ((l'.read w'.scheduler).map Snapshot.id))
  /-- Unless the clock has gone back between acceptances, tasks are listed in the order of
  their acceptance. -/
  accepted : ((admissions deeds).map Prod.snd).Pairwise (· ≤ ·) → ∀ l : Listing,
    ((l.read w.scheduler).map Snapshot.id).Sublist (w.accepted.map fun a => a.task.id)

theorem Run.lists_by_seniority {c : Config} {s : Scheduler W} (hs : Scheduler.create c = .ok s)
    (run : Run (fresh s) deeds w) : w.ListsBySeniority deeds := by
  have hreachable : w.Reachable := ⟨c, s, deeds, hs, run⟩
  have hw := hreachable.sound
  have hmarked := run.marked hs
  have hsorted := hmarked.listed_increasing hw
  exact {
    sorted := fun l => ⟨_, w.scheduler.read_eq l, hsorted l, fun t => Scheduler.mem_listed⟩
    once := fun l => by
      rw [Scheduler.ids_read, ((w.scheduler.listed_perm l).map _).nodup_iff]
      exact hw.coherent.once.sublist (List.filter_sublist.map _)
    marks := hmarked.marks
    anyOrder := fun l tasks hperm => by
      have hsame : Scheduler.listed { w.scheduler with tasks } l = w.scheduler.listed l :=
        Scheduler.listed_eq (hsorted l) ((w.scheduler.listed_perm l).trans (hperm.filter _).symm)
      rw [Scheduler.read_eq, Scheduler.read_eq, hsame]
    stable := fun more w' hrun l l' i j hlisted => by
      have hreachable' := hreachable.run hrun
      have hmarked' : w'.Marked (admissions deeds ++ admissions more) := by
        rw [← admissions_append]
        exact (run.trans hrun).marked hs
      have hsame := fun {t u} => hmarked.seniority_eq hmarked' hreachable'.accepted_once
        (t := t) (u := u)
      obtain ⟨⟨t, ht, hti⟩, t', ht', hti'⟩ := (hlisted i (by simp)).imp mem_ids_read.mp
        mem_ids_read.mp
      obtain ⟨⟨u, hu, huj⟩, u', hu', huj'⟩ := (hlisted j (by simp)).imp mem_ids_read.mp
        mem_ids_read.mp
      have hbefore := hmarked.pair_sublist_read hw ht hu
      have hafter := hmarked'.pair_sublist_read hreachable'.sound ht' hu'
      rw [hti, huj] at hbefore
      rw [hti', huj'] at hafter
      rw [hbefore, hafter, hsame (Scheduler.mem_listed.mp ht).1 (Scheduler.mem_listed.mp ht').1
        (hti'.trans hti.symm), hsame (Scheduler.mem_listed.mp hu).1 (Scheduler.mem_listed.mp hu').1
          (huj'.trans huj.symm)]
    accepted := fun hclock l => by
      have hnumbers : (w.scheduler.listed l).Pairwise fun t u => t.sequence < u.sequence :=
        (hsorted l).imp_of_mem fun ht hu =>
          hmarked.sequence_lt hw hclock (Scheduler.mem_listed.mp ht).1
          (Scheduler.mem_listed.mp hu).1
      rw [Scheduler.ids_read, ← hmarked.ids]
      refine sublist_of_positions hnumbers fun t ht => ?_
      rw [List.getElem?_map, hmarked.marks t (Scheduler.mem_listed.mp ht).1]
      rfl }

/-- The clock is set back after the first acceptance, so the task accepted first is listed last. -/
theorem lists_after_clock_set_back : ∃ (deeds : List (Deed Nat)) (w : World Nat),
    (admissions deeds).map Prod.fst = [.ofNat 1, .ofNat 2, .ofNat 3] ∧
    (Listing.all.read w.scheduler).map Snapshot.id = [.ofNat 2, .ofNat 3, .ofNat 1] ∧
    w.ListsBySeniority deeds := by
  let later := Instant.epoch.add (.ofMillis 5)
  let deeds : List (Deed Nat) := [.accept .dueNow Task.sample later later,
    .accept .dueNow { Task.sample with id := .ofNat 2 } .epoch .epoch,
    .accept .dueNow { Task.sample with id := .ofNat 3 } .epoch .epoch]
  let sorted (w : World Nat) :=
    sortBy (fun t u => decide (t.seniority < u.seniority)) w.scheduler.tasks
  obtain ⟨w, hplay, hsorted, hids⟩ : ∃ w ∈ World.sample.play? deeds,
      ((sorted w).Pairwise fun t u => t.seniority < u.seniority) ∧
        (sorted w).map (fun t => t.id) = [.ofNat 2, .ofNat 3, .ofNat 1] := by decide +kernel
  have hlisted : w.scheduler.listed .all = sorted w :=
    Scheduler.listed_eq hsorted ((sortBy_perm _ _).trans (.of_eq (List.filter_true _).symm))
  refine ⟨deeds, w, rfl, ?_, Run.lists_by_seniority (c := {}) rfl (Run.of_play? hplay)⟩
  rw [Scheduler.read_eq, hlisted, List.map_map]
  exact hids

end World

end Timetable
