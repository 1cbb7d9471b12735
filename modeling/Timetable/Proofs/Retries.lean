import Timetable.Proofs.Rehearsal
import Timetable.Proofs.Terminal

/-!
# The bound on retries

A failed attempt is retried while retries are left, and a success gives all retries back. So the
count of retries tells how many attempts have failed since the last success, as long as the task
goes on. One more failure than there are retries ends the task, unless it has been cancelled or its
recurrence is over.
-/
namespace Timetable

variable {W : Type}

/-- How many attempts have failed since the last one that succeeded. -/
def failureStreak (outcomes : List Outcome) : Nat :=
  (outcomes.reverse.takeWhile fun o => o ≠ .success).length

section Streak

variable {outcomes : List Outcome}

@[simp] theorem failureStreak_nil : failureStreak [] = 0 := rfl

@[simp] theorem failureStreak_success (outcomes : List Outcome) :
    failureStreak (outcomes ++ [.success]) = 0 := by
  simp [failureStreak]

@[simp] theorem failureStreak_failure (outcomes : List Outcome) (error : String) :
    failureStreak (outcomes ++ [.failure error]) = failureStreak outcomes + 1 := by
  simp [failureStreak]

theorem failureStreak_concat_le (outcomes : List Outcome) (o : Outcome) :
    failureStreak (outcomes ++ [o]) ≤ failureStreak outcomes + 1 := by
  cases o <;> simp

theorem failureStreak_of_getLast? (h : outcomes.getLast? = some .success) :
    failureStreak outcomes = 0 := by
  obtain ⟨front, rfl⟩ := List.getLast?_eq_some_iff.mp h
  exact failureStreak_success front

/-- Where no attempt has succeeded, all count. -/
theorem failureStreak_of_no_success (h : ∀ o ∈ outcomes, o ≠ .success) :
    failureStreak outcomes = outcomes.length := by
  have hall : (outcomes.reverse.takeWhile fun o => o ≠ .success) = outcomes.reverse :=
    List.takeWhile_eq_self_iff.mpr fun o ho => decide_eq_true (h o (List.mem_reverse.mp ho))
  rw [failureStreak, hall, List.length_reverse]

end Streak

/-- How an attempt of the task came out, if that is what the deed records. -/
def Deed.outcomeOf? (id : TaskId) : Deed W → Option Outcome
  | finish job _ a _ => if job.id = id then some a.outcome else none
  | _ => none

/-- How the recorded attempts of the task came out, in the order of the records. -/
def outcomesOf (id : TaskId) (deeds : List (Deed W)) : List Outcome :=
  deeds.filterMap (Deed.outcomeOf? id)

section Outcomes

variable {id : TaskId} {d : Deed W}

theorem outcomesOf_concat (id : TaskId) (deeds : List (Deed W)) (d : Deed W) :
    outcomesOf id (deeds ++ [d]) = outcomesOf id deeds ++ (d.outcomeOf? id).toList := by
  rw [outcomesOf, outcomesOf, List.filterMap_append, List.filterMap_cons, List.filterMap_nil]
  cases d.outcomeOf? id <;> rfl

/-- A deed that records no attempt of the task. -/
theorem outcomesOf_concat_of_none (deeds : List (Deed W)) (h : d.outcomeOf? id = none) :
    outcomesOf id (deeds ++ [d]) = outcomesOf id deeds := by
  rw [outcomesOf_concat, h, Option.toList_none, List.append_nil]

theorem Deed.outcomeOf?_of_aside (h : d.subject? ≠ some id) : d.outcomeOf? id = none := by
  cases d with
  | finish job work a now => exact if_neg fun e => h (congrArg some e)
  | _ => rfl

end Outcomes

namespace Task

/-- What the outcomes of its attempts say about a task that may be retried so often, and whether
its job is out. -/
structure Tried (t : Task W) (limit : UInt32) (outcomes : List Outcome) (out : Prop) : Prop where
  allowed : t.maxRetries = limit
  spared : t.retryCount ≤ limit
  within : failureStreak outcomes ≤ limit.toNat + 1
  /-- A job that is out of a cancelled task may still fail. -/
  counted : t.status = .scheduled ∨ t.status = .running ∨ out →
    t.retryCount.toNat = failureStreak outcomes
  completed : t.status = .completed → outcomes.getLast? = some .success
  failed : t.status = .failed → failureStreak outcomes = limit.toNat + 1

variable {t u : Task W} {w : W} {a : Attempt} {now : Instant} {delay : Span} {notices : List Notice}
  {limit : UInt32} {outcomes : List Outcome} {out out' : Prop}

/-- The outcomes say no less about a task whose job is not out. -/
theorem Tried.mono (h : t.Tried limit outcomes out) (hout : out' → out) :
    t.Tried limit outcomes out' :=
  { h with counted := fun hgo => h.counted (hgo.imp_right (Or.imp_right hout)) }

/-- Nothing has come out of a task that has just been accepted. -/
theorem tried_of_new (new : t.IsNew) (sequence : Nat) (due : Instant) (out : Prop) :
    ((t.accept now sequence).schedule due).Tried t.maxRetries [] out := by
  have hcount : ((t.accept now sequence).schedule due).retryCount = 0 := new.retryCount
  refine ⟨rfl, ?_, Nat.zero_le _, fun _ => ?_, by simp [schedule], by simp [schedule]⟩
  · rw [hcount]
    exact UInt32.zero_le
  · rw [hcount]
    rfl

theorem Tried.claimed (h : t.Tried limit outcomes out) (hs : t.status = .scheduled) :
    t.claimed.Tried limit outcomes out' :=
  ⟨h.allowed, h.spared, h.within, fun _ => h.counted (.inl hs), by simp [Task.claimed],
    by simp [Task.claimed]⟩

theorem Tried.handBack (h : t.Tried limit outcomes True) (w : W) (now : Instant) :
    (t.handBack w now).Tried limit outcomes out := by
  have hcounted := h.counted (.inr (.inr trivial))
  rw [Task.handBack]
  split
  · exact ⟨h.allowed, h.spared, h.within, fun _ => hcounted, by simp [schedule],
      by simp [schedule]⟩
  · exact ⟨h.allowed, h.spared, h.within, fun _ => hcounted, h.completed, h.failed⟩

theorem Tried.cancel (h : t.Tried limit outcomes out) : t.cancel.Tried limit outcomes out := by
  refine ⟨h.allowed, h.spared, h.within, ?_, by simp [Task.cancel], by simp [Task.cancel]⟩
  rintro (hs | hs | hout)
  · cases hs
  · cases hs
  · exact h.counted (.inr (.inr hout))

theorem Tried.switch (h : t.Tried limit outcomes out) (enabled : Bool) :
    (t.switch enabled).Tried limit outcomes out :=
  ⟨h.allowed, h.spared, h.within, h.counted, h.completed, h.failed⟩

/-- A task that is not cancelled has failed exactly if the last failures were one more
than allowed. -/
theorem Tried.failed_iff (h : t.Tried limit outcomes out) (ht : t.Standing) :
    t.status = .failed ↔ t.status ≠ .cancelled ∧ failureStreak outcomes = limit.toNat + 1 := by
  constructor
  · intro hs
    exact ⟨by rw [hs]; decide, h.failed hs⟩
  · rintro ⟨hne, hstreak⟩
    have hspared := UInt32.le_iff_toNat_le.mp h.spared
    cases hs : t.status with
    | pending => exact absurd hs ht.accepted
    | scheduled =>
      have := h.counted (.inl hs)
      omega
    | running =>
      have := h.counted (.inr (.inl hs))
      omega
    | completed =>
      have := failureStreak_of_getLast? (h.completed hs)
      omega
    | failed => rfl
    | cancelled => exact absurd hs hne

/-- The count of retries goes up by one wherever a retry is planned. -/
theorem toNat_countUp_retryCount (h : t.retryCount < t.maxRetries) :
    (countUp t.retryCount).toNat = t.retryCount.toNat + 1 := by
  refine toNat_countUp fun hmax => ?_
  have hlt := UInt32.lt_iff_toNat_lt.mp h
  have hword := t.maxRetries.toNat_lt
  have hcount : t.retryCount.toNat = 4294967295 := by rw [hmax]; rfl
  omega

theorem ended_retryCount_of_success (t : Task W) (w : W) (h : a.outcome = .success) :
    (t.ended w a).retryCount = 0 := by
  simp [ended_eq, h]

/-- A success gives all retries back. -/
theorem tried_of_success (ho : a.outcome = .success) (hlimit : u.maxRetries = limit)
    (hcount : u.retryCount = 0) (hs : u.status ≠ .failed) :
    u.Tried limit (outcomes ++ [a.outcome]) False := by
  rw [ho]
  refine ⟨hlimit, ?_, by simp, fun _ => by simp [hcount], by simp, ?_⟩
  · rw [hcount]
    exact UInt32.zero_le
  · exact fun hf => absurd hf hs

/-- A failure with nothing planned after it leaves the count of retries as it is. -/
theorem Tried.fail (h : t.Tried limit outcomes True) {error : String}
    (ho : a.outcome = .failure error)
    (hlimit : u.maxRetries = limit) (hcount : u.retryCount = t.retryCount)
    (hs : u.status = .cancelled ∨ u.status = .failed ∧ limit ≤ t.retryCount) :
    u.Tried limit (outcomes ++ [a.outcome]) False := by
  have hspared := UInt32.le_iff_toNat_le.mp h.spared
  have hcounted := h.counted (.inr (.inr trivial))
  rw [ho]
  refine ⟨hlimit, hcount ▸ h.spared, ?_, ?_, ?_, ?_⟩
  · rw [failureStreak_failure]
    omega
  · rintro (hu | hu | hu)
    · rcases hs with hs | ⟨hs, -⟩ <;> rw [hs] at hu <;> cases hu
    · rcases hs with hs | ⟨hs, -⟩ <;> rw [hs] at hu <;> cases hu
    · exact hu.elim
  · intro hu
    rcases hs with hs | ⟨hs, -⟩ <;> rw [hs] at hu <;> cases hu
  · intro hu
    rcases hs with hs | ⟨-, hlast⟩
    · rw [hs] at hu
      cases hu
    · have := UInt32.le_iff_toNat_le.mp hlast
      rw [failureStreak_failure]
      omega

/-- However an attempt comes out, the task stands as its outcomes say. -/
theorem Settles.tried (h : t.Settles w a now delay u notices) (ht : t.Tried limit outcomes True) :
    u.Tried limit (outcomes ++ [a.outcome]) False := by
  have hlimit : u.maxRetries = limit := h.attempted.maxRetries.trans ht.allowed
  cases h with
  | cancelled hs =>
    have hended := ended_status_of_cancelled t w a hs
    cases ho : a.outcome with
    | success =>
      rw [← ho]
      exact tried_of_success ho hlimit (ended_retryCount_of_success t w ho) (by rw [hended]; decide)
    | failure error =>
      rw [← ho]
      exact ht.fail ho hlimit (ended_retryCount_of_failure t w ho) (.inl hended)
  | completed hs ho =>
    refine tried_of_success ho hlimit (ended_retryCount_of_success t w ho) ?_
    rw [ended_status_of_success t w a hs ho]
    decide
  | recurs _ ho =>
    exact tried_of_success ho hlimit (ended_retryCount_of_success t w ho) (by simp [schedule])
  | expires _ ho =>
    exact tried_of_success ho hlimit (ended_retryCount_of_success t w ho) (by simp [cancel])
  | exhausted _ ho => exact ht.fail ho hlimit (ended_retryCount_of_failure t w ho) (.inl rfl)
  | failed hs ho _ hlast =>
    refine ht.fail ho hlimit (ended_retryCount_of_failure t w ho) (.inr ⟨?_, ht.allowed ▸ hlast⟩)
    exact ended_status_of_failure t w a hs ho
  | retries _ ho _ hleft =>
    have hcounted := ht.counted (.inr (.inr trivial))
    have hless := UInt32.lt_iff_toNat_lt.mp (ht.allowed ▸ hleft)
    have hcount :
        ((t.ended w a).retry (now.add delay)).retryCount.toNat = t.retryCount.toNat + 1 := by
      rw [← toNat_countUp_retryCount hleft, ← ended_retryCount_of_failure t w ho]
      rfl
    rw [ho]
    refine ⟨hlimit, ?_, ?_, ?_, by simp [retry, schedule], by simp [retry, schedule]⟩
    · refine UInt32.le_iff_toNat_le.mpr ?_
      omega
    · rw [failureStreak_failure]
      omega
    · intro _
      rw [failureStreak_failure]
      omega

/-- A retry is planned with one more counted. -/
theorem Settles.retryCount (h : t.Settles w a now delay u notices) (ho : a.outcome ≠ .success)
    (hu : u.status = .scheduled) : u.retryCount.toNat = t.retryCount.toNat + 1 := by
  cases h with
  | cancelled hs =>
    rw [ended_status_of_cancelled t w a hs] at hu
    cases hu
  | completed _ hsuccess | recurs _ hsuccess | expires _ hsuccess => exact absurd hsuccess ho
  | exhausted => cases hu
  | failed hs hfailure =>
    rw [ended_status_of_failure t w a hs hfailure] at hu
    cases hu
  | retries _ hfailure _ hleft =>
    rw [← toNat_countUp_retryCount hleft, ← ended_retryCount_of_failure t w hfailure]
    rfl

/-- A task that is cancelled by an attempt recurs. -/
theorem Settles.recurs_of_cancelled (h : t.Settles w a now delay u notices)
    (ht : t.status ≠ .cancelled) (hu : u.status = .cancelled) : t.recurrence ≠ none := by
  cases h with
  | cancelled hs => exact absurd hs ht
  | completed _ _ | failed _ _ =>
    rw [ended_status_eq_cancelled] at hu
    exact absurd hu ht
  | recurs | retries => cases hu
  | expires _ _ hr => simp [hr]
  | exhausted _ _ hx =>
    rintro hr
    simp [isExhausted, hr] at hx

end Task

namespace Life

variable {l l' : Life W} {delay : Span} {id : TaskId} {d : Deed W} {deeds : List (Deed W)}

/-- What the deeds so far say about the task of a life. -/
structure Tried (id : TaskId) (l : Life W) (deeds : List (Deed W)) : Prop where
  unseen : l.admission = none → outcomesOf id deeds = []
  task : ∀ a t, l.admission = some a → l.task = some t →
    t.Tried a.task.maxRetries (outcomesOf id deeds) (l.jobs ≠ [])
  recurrence : ∀ a t, l.admission = some a → l.task = some t →
    (t.recurrence = none ↔ a.task.recurrence = none)
  cancelled : ∀ a t, l.admission = some a → l.task = some t → t.status = .cancelled →
    .cancel id ∈ deeds ∨ a.task.recurrence ≠ none
  /-- A job that outlives its task may still fail. -/
  gone : ∀ a, l.admission = some a → l.task = none →
    failureStreak (outcomesOf id deeds) + l.jobs.length ≤ a.task.maxRetries.toNat + 1

/-- A failure of the job that is out would keep within the bound. -/
theorem Tried.room (h : l.Tried id deeds) (hl : l.Sound) {a : Admission W} {t : Task W}
    (ha : l.admission = some a) (ht : l.task = some t) :
    failureStreak (outcomesOf id deeds) + l.jobs.length ≤ a.task.maxRetries.toNat + 1 := by
  have htried := h.task a t ha ht
  by_cases hjobs : l.jobs = []
  · rw [hjobs]
    exact htried.within
  · have hcounted := htried.counted (.inr (.inr hjobs))
    have hspared := UInt32.le_iff_toNat_le.mp htried.spared
    have hsingle := hl.single
    omega

/-- After a deed that records no attempt the task stands as the outcomes before it say. -/
theorem Tried.of_task {u : Task W} (hd : d.outcomeOf? id = none)
    (hadmission : l'.admission = l.admission) (hseen : l.admission ≠ none)
    (htask : l'.task = some u)
    (htried : ∀ a, l.admission = some a →
      u.Tried a.task.maxRetries (outcomesOf id deeds) (l'.jobs ≠ []))
    (hrecurrence : ∀ a, l.admission = some a → (u.recurrence = none ↔ a.task.recurrence = none))
    (hcancelled : ∀ a, l.admission = some a → u.status = .cancelled →
      .cancel id ∈ deeds ++ [d] ∨ a.task.recurrence ≠ none) :
    l'.Tried id (deeds ++ [d]) := by
  have hsame := outcomesOf_concat_of_none deeds hd
  refine ⟨fun e => absurd (hadmission ▸ e) hseen, ?_, ?_, ?_, by simp [htask]⟩
  all_goals
    intro a v ha hv
    rw [hadmission] at ha
    obtain rfl := Option.some.inj (htask.symm.trans hv)
  · rw [hsame]
    exact htried a ha
  · exact hrecurrence a ha
  · exact hcancelled a ha

/-- A deed that leaves no task in the index. -/
theorem Tried.leave (hadmission : l'.admission ≠ none) (htask : l'.task = none)
    (hgone : ∀ a, l'.admission = some a →
      failureStreak (outcomesOf id deeds) + l'.jobs.length ≤ a.task.maxRetries.toNat + 1) :
    l'.Tried id deeds :=
  ⟨fun e => absurd e hadmission, by simp [htask], by simp [htask], by simp [htask],
    fun a ha _ => hgone a ha⟩

theorem Tried.cancelled_concat (h : l.Tried id deeds) {a : Admission W} {t : Task W}
    (ha : l.admission = some a) (ht : l.task = some t) (hs : t.status = .cancelled) (d : Deed W) :
    .cancel id ∈ deeds ++ [d] ∨ a.task.recurrence ≠ none :=
  (h.cancelled a t ha ht hs).imp_left fun hmem => List.mem_append_left _ hmem

/-- After every step the task stands as the outcomes of its attempts say. -/
theorem Step.tried (h : Step delay id l d l') (hl : l.Sound) (ht : l.Tried id deeds) :
    l'.Tried id (deeds ++ [d]) := by
  cases h with
  | aside hd =>
    have hsame := outcomesOf_concat_of_none deeds (Deed.outcomeOf?_of_aside hd)
    refine ⟨fun e => hsame.trans (ht.unseen e), ?_, ht.recurrence, ?_, ?_⟩
    · rw [hsame]
      exact ht.task
    · exact fun a t ha hta hs => ht.cancelled_concat ha hta hs d
    · rw [hsame]
      exact ht.gone
  | @accept o t asked due now sequence hid new unseen hdue =>
    have hnone : outcomesOf id (deeds ++ [.accept o t asked now]) = [] := by
      rw [outcomesOf_concat, ht.unseen unseen]
      rfl
    refine ⟨by simp, ?_, ?_, ?_, by simp⟩
    all_goals
      rintro a u ha hu
      obtain rfl := Option.some.inj ha
      obtain rfl := Option.some.inj hu
    · rw [hnone]
      exact Task.tried_of_new new sequence due _
    · exact Iff.rfl
    · simp [Task.schedule]
  | @claim t work due now hta hst =>
    refine .of_task rfl rfl (hl.admitted hta) rfl (fun a ha => ?_) (fun a ha => ?_) ?_
    · exact (ht.task a t ha hta).claimed hst
    · exact ht.recurrence a t ha hta
    · simp [Task.claimed]
  | attempt hid hjobs startedAt =>
    refine ⟨fun e => absurd e (hl.admitted_of_job hjobs), fun a t ha hta => ?_,
      ht.recurrence, ?_, ?_⟩
    · rw [outcomesOf_concat_of_none deeds rfl]
      exact (ht.task a t ha hta).mono fun _ => by simp [hjobs]
    · exact fun a t ha hta hs => ht.cancelled_concat ha hta hs _
    · intro a ha hnone
      have hgone := ht.gone a ha hnone
      rw [hjobs] at hgone
      rw [outcomesOf_concat_of_none deeds rfl]
      simpa using hgone
  | @finish before after job a t u work now notices hid hjobs hta hs =>
    obtain ⟨rfl, rfl⟩ := hl.jobs_eq_nil hjobs
    have hmore : outcomesOf id (deeds ++ [.finish job work a now]) =
        outcomesOf id deeds ++ [a.outcome] := by
      rw [outcomesOf_concat, Deed.outcomeOf?, if_pos hid]
      rfl
    refine ⟨fun e => absurd e (hl.admitted hta), ?_, ?_, ?_, by simp⟩
    all_goals
      intro b v hb hv
      obtain rfl := Option.some.inj hv
      have hrecurrence := ht.recurrence b t hb hta
    · rw [hmore]
      have hbefore : t.Tried b.task.maxRetries (outcomesOf id deeds) True :=
        (ht.task b t hb hta).mono fun _ => by simp [hjobs]
      exact (hs.tried hbefore).mono (by simp)
    · rw [hs.attempted.recurrence]
      exact hrecurrence
    · intro hu
      by_cases hst : t.status = .cancelled
      · exact ht.cancelled_concat hb hta hst _
      · exact .inr fun e => hs.recurs_of_cancelled hst hu (hrecurrence.mpr e)
  | @finishGone before after job a work now hid hjobs hnone =>
    refine .leave (hl.admitted_of_job hjobs) rfl fun b hb => ?_
    obtain ⟨rfl, rfl⟩ := hl.jobs_eq_nil hjobs
    have hgone := ht.gone b hb hnone
    rw [hjobs, List.nil_append, List.length_singleton] at hgone
    rw [outcomesOf_concat, Deed.outcomeOf?, if_pos hid, Option.toList_some]
    exact (failureStreak_concat_le _ _).trans hgone
  | @abandon before after job t now hid hjobs hta =>
    obtain ⟨rfl, rfl⟩ := hl.jobs_eq_nil hjobs
    refine .of_task rfl rfl (hl.admitted hta) rfl (fun a ha => ?_) (fun a ha => ?_) ?_
    · have hout : t.Tried a.task.maxRetries (outcomesOf id deeds) True :=
        (ht.task a t ha hta).mono fun _ => by simp [hjobs]
      exact hout.handBack job.work now
    · rw [Task.recurrence_handBack]
      exact ht.recurrence a t ha hta
    · intro a ha hu
      refine ht.cancelled_concat ha hta ?_ _
      by_contra hne
      have hst := (hl.status_of_job hjobs hta).2.resolve_right hne
      rw [Task.handBack, if_pos hst] at hu
      cases hu
  | @abandonGone before after job now hid hjobs hnone =>
    refine .leave (hl.admitted_of_job hjobs) rfl fun a ha => ?_
    have hgone := ht.gone a ha hnone
    rw [hjobs] at hgone
    rw [outcomesOf_concat_of_none deeds rfl]
    simp only [List.length_append, List.length_cons] at hgone ⊢
    omega
  | @cancel t hta hterm =>
    refine .of_task rfl rfl (hl.admitted hta) rfl (fun a ha => ?_) (fun a ha => ?_) ?_
    · exact (ht.task a t ha hta).cancel
    · exact ht.recurrence a t ha hta
    · exact fun a _ _ => .inl (by simp)
  | @switch t hta hrec enabled =>
    refine .of_task rfl rfl (hl.admitted hta) rfl (fun a ha => ?_) (fun a ha => ?_) ?_
    · exact (ht.task a t ha hta).switch enabled
    · rw [← ht.recurrence a t ha hta]
      exact Option.map_eq_none_iff
    · exact fun a ha hst => ht.cancelled_concat ha hta hst _
  | evict hta =>
    refine .leave (hl.admitted hta) rfl fun a ha => ?_
    rw [outcomesOf_concat_of_none deeds rfl]
    exact ht.room hl ha hta

end Life

namespace World

variable {w w' start : World W} {deeds : List (Deed W)}

/-- What the attempts of an accepted task say about it. -/
structure Retried (w : World W) (a : Admission W) (deeds : List (Deed W)) : Prop where
  spared : ∀ t, w.scheduler.task? a.task.id = some t → t.retryCount ≤ a.task.maxRetries
  /-- This goes on when the task has been evicted. -/
  within : failureStreak (outcomesOf a.task.id deeds) ≤ a.task.maxRetries.toNat + 1
  counted : ∀ t, w.scheduler.task? a.task.id = some t → t.status = .scheduled ∨
    t.status = .running → t.retryCount.toNat = failureStreak (outcomesOf a.task.id deeds)
  failed_iff : ∀ t, w.scheduler.task? a.task.id = some t → (t.status = .failed ↔
    t.status ≠ .cancelled ∧
      failureStreak (outcomesOf a.task.id deeds) = a.task.maxRetries.toNat + 1)
  /-- Each retry that is planned counts one, also next to the largest count there is. -/
  counting : ∀ job work attempt now w' t u, Step w (.finish job work attempt now) w' →
    job.id = a.task.id → w.scheduler.task? a.task.id = some t →
    w'.scheduler.task? a.task.id = some u → attempt.outcome ≠ .success → u.status = .scheduled →
      u.retryCount.toNat = t.retryCount.toNat + 1
  /-- A task that does not recur, always fails and is never cancelled has ended exactly when all its
  attempts are used up; it has failed then, and is left alone from then on. -/
  usedUp : a.task.recurrence = none → (∀ o ∈ outcomesOf a.task.id deeds, o ≠ .success) →
    .cancel a.task.id ∉ deeds → ∀ t, w.scheduler.task? a.task.id = some t →
      (t.status.isTerminal ↔ (outcomesOf a.task.id deeds).length = a.task.maxRetries.toNat + 1) ∧
      (t.status.isTerminal → t.status = .failed ∧ ∀ more w', Run w more w' →
        ∀ job startedAt, .attempt job startedAt ∈ more → job.id ≠ a.task.id)

/-- The deeds of a run say how the task of every life stands. -/
theorem Run.tried (run : Run start deeds w) (hstart : start.Reachable)
    (hfresh : start.accepted = []) (id : TaskId) : (w.life id).Tried id deeds := by
  induction run with
  | refl =>
    have hnone : (start.life id).admission = none := by simp [life, hfresh]
    rw [((hstart.sound.lives id).unseen hnone)]
    exact ⟨fun _ => rfl, by simp, by simp, by simp, by simp⟩
  | step run h ih =>
    have hsound := (hstart.run run).sound
    exact (h.life hsound id).tried (hsound.lives id) ih

/-- A task that is there when its job has been recorded was there before, and has settled. -/
theorem Step.settled {job : Job W} {work : W} {a : Attempt} {now : Instant} {u : Task W}
    (h : Step w (.finish job work a now) w') (hw : w.Sound)
    (hu : w'.scheduler.task? job.id = some u) :
    ∃ t notices, w.scheduler.task? job.id = some t ∧
      t.Settles work a now w.scheduler.config.retryDelay u notices ∧
      (w'.life job.id).notices = (w.life job.id).notices ++ notices := by
  have hlife := h.life hw job.id
  have htask : (w.life job.id).task = w.scheduler.task? job.id := rfl
  have htask' : (w'.life job.id).task = some u := hu
  rw [← htask]
  generalize w.life job.id = l at hlife
  generalize w'.life job.id = l' at hlife htask'
  cases hlife with
  | aside hd => exact absurd rfl hd
  | finish _ _ ht hs =>
    obtain rfl := Option.some.inj htask'
    exact ⟨_, _, ht, hs, rfl⟩
  | finishGone => cases htask'

/-- In every run retries keep within their bound, and the failures since the last success decide
whether a task has failed for good. -/
theorem Run.retries_bounded {c : Config} {s : Scheduler W} (run : Run (fresh s) deeds w)
    (hs : Scheduler.create c = .ok s) {a : Admission W} (ha : a ∈ w.accepted) :
    w.Retried a deeds := by
  have hw : w.Reachable := ⟨c, s, deeds, hs, run⟩
  have hadmission : (w.life a.task.id).admission = some a :=
    (find?_of_nodup hw.accepted_once).mpr ⟨ha, rfl⟩
  have htried := run.tried ⟨c, s, [], hs, .refl _⟩ rfl a.task.id
  have hstanding := (hw.sound.lives a.task.id).standing
  have hfailed : ∀ t, w.scheduler.task? a.task.id = some t → (t.status = .failed ↔
      t.status ≠ .cancelled ∧
        failureStreak (outcomesOf a.task.id deeds) = a.task.maxRetries.toNat + 1) :=
    fun t ht => (htried.task a t hadmission ht).failed_iff (hstanding t ht)
  have hwithin : failureStreak (outcomesOf a.task.id deeds) ≤ a.task.maxRetries.toNat + 1 := by
    cases ht : w.scheduler.task? a.task.id with
    | none => exact (Nat.le_add_right _ _).trans (htried.gone a hadmission ht)
    | some t => exact (htried.task a t hadmission ht).within
  refine ⟨fun t ht => (htried.task a t hadmission ht).spared, hwithin, fun t ht hgo => ?_,
    hfailed, ?_, ?_⟩
  · exact (htried.task a t hadmission ht).counted (hgo.imp_right .inl)
  · intro job work attempt now w' t u h hid ht hu ho hst
    rw [← hid] at ht hu
    obtain ⟨t', notices, ht', hsettles, -⟩ := h.settled hw.sound hu
    obtain rfl := Option.some.inj (ht.symm.trans ht')
    exact hsettles.retryCount ho hst
  · intro hrec hfails hcancel t ht
    have hlive : t.status ≠ .cancelled := fun hst =>
      (htried.cancelled a t hadmission ht hst).elim hcancel fun hne => hne hrec
    have hlength := failureStreak_of_no_success hfails
    have hiff := hfailed t ht
    rw [hlength] at hiff
    -- A task that completed would have had a success last.
    have hended : t.status.isTerminal → t.status = .failed := by
      intro hterm
      cases hst : t.status with
      | pending | scheduled | running =>
        rw [hst] at hterm
        cases hterm
      | completed =>
        have hlast := (htried.task a t hadmission ht).completed hst
        exact absurd rfl (hfails _ (List.mem_of_getLast? hlast))
      | failed => rfl
      | cancelled => exact absurd hst hlive
    refine ⟨⟨fun hterm => (hiff.mp (hended hterm)).2, fun hcount => ?_⟩, fun hterm =>
      ⟨hended hterm, fun more w' more' job startedAt hmem hid => ?_⟩⟩
    · rw [hiff.mpr ⟨hlive, hcount⟩]
      rfl
    · have hid' := Scheduler.id_of_task? ht
      have habsorbed :=
        (more'.absorbed hw ht hterm).dispatched job startedAt hmem (hid.trans hid'.symm)
      exact hlive habsorbed.1

end World

/-- A task to begin with that recurs every hour and may be retried once. -/
def Task.retriedSample : Task Nat :=
  { Task.sample with maxRetries := 1, recurrence := some { pattern := .hourly } }

/-- A success between failures gives the retry back; the second failure after it is one too many. -/
theorem World.retried_twice : ∃ (w : World Nat) (deeds : List (Deed Nat)) (a : Admission Nat)
    (t : Task Nat), Run sample deeds w ∧ a ∈ w.accepted ∧ a.task.maxRetries = 1 ∧
    outcomesOf a.task.id deeds =
      [.failure "disk full", .success, .failure "disk full", .failure "disk full"] ∧
    w.scheduler.task? a.task.id = some t ∧ t.status = .failed ∧ t.retryCount = 1 ∧
    w.Retried a deeds := by
  have created : Scheduler.create {} = .ok ({ config := {} } : Scheduler Nat) := rfl
  obtain ⟨w, hplay, a, ha, hid, hmax, t, ht, hst, hcount⟩ : ∃ w ∈ sample.play?
      [.accept .recurring .retriedSample .epoch .epoch, .claim .epoch, .attempt .sample .epoch,
        .finish .sample 0 .failureSample .epoch, .claim .last, .attempt .sample .epoch,
        .finish .sample 0 .successSample .epoch, .claim .last, .attempt .sample .epoch,
        .finish .sample 0 .failureSample .epoch, .claim .last, .attempt .sample .epoch,
        .finish .sample 0 .failureSample .epoch],
      ∃ a ∈ w.accepted, a.task.id = .ofNat 1 ∧ a.task.maxRetries = 1 ∧
        ∃ t ∈ w.scheduler.task? a.task.id, t.status = .failed ∧ t.retryCount = 1 := by
          decide +kernel
  have run := Run.of_play? hplay
  exact ⟨w, _, a, t, run, ha, hmax, by rw [hid]; rfl, ht, hst, hcount,
    run.retries_bounded created ha⟩

end Timetable
