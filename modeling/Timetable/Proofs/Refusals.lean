import Mathlib.Data.List.DropRight
import Timetable.Proofs.Course
import Timetable.Proofs.InPlace
import Timetable.Proofs.Rehearsal

/-!
# Refusals

A call that is refused leaves the scheduler as it was, whatever the call and the reason. For a new
task the reasons are few, and they count in a fixed order: what is wrong with the time asked for
comes before the stop of the scheduler, and this before what is wrong with the task.
-/
namespace Timetable

variable {W : Type}

/-- Nothing is left of a text that has nothing but blanks. -/
theorem Text.trimmed_eq_nil {s : List Char} : trimmed s = [] ↔ s.all isBlank := by
  rw [trimmed, List.reverse_eq_nil_iff, dropBlanks, List.dropWhile_eq_nil_iff]
  simp only [List.mem_reverse]
  rw [← List.dropWhile_eq_nil_iff, dropBlanks, List.dropWhile_idempotent, List.dropWhile_eq_nil_iff,
    List.all_eq_true]

theorem TimeUnit.span?_eq_none {unit : TimeUnit} {amount : Nat} :
    unit.span? amount = none ↔ wordLimit ≤ amount * unit.inMillis := by
  simp [span?]

/-- What is wrong with a new task is wrong with its name or with its policy. -/
theorem Task.IsNew.fault?_eq {t : Task W} (new : t.IsNew) : t.fault? =
    if Text.isBlankText t.name then some .blankName
      else (t.recurrence.bind Policy.fault?).map .policy := by
  have harmed : t.work.isNone = false := by simpa using new.armed
  simp [Task.fault?, new.pending, harmed]

/-! ## Reasons -/

/-- A reason not to take a new task, with its rank among the reasons and the error that names it. -/
inductive Objection (s : Scheduler W) (t : Task W) (asked : Instant) :
    Offer → Nat → SchedulerError → Prop
  | delayOverflows {amount : Nat} {unit : TimeUnit} (h : wordLimit ≤ amount * unit.inMillis) :
    Objection s t asked (.dueAfter amount unit) 0 (.invalidArgument (.delayOverflows amount unit))
  | noRecurrence (h : t.recurrence = none) :
    Objection s t asked .recurring 0 (.invalidArgument (.noRecurrence t.id))
  | startsAfterEnd {p : Policy} {last : Instant} (hp : t.recurrence = some p)
    (hlast : p.endTime = some last) (h : last < t.nextExecution.getD asked) :
    Objection s t asked .recurring 0
      (.invalidArgument (.startsAfterEnd t.id (t.nextExecution.getD asked) last))
  | stopped {o : Offer} (h : s.lifecycle = .stopped) : Objection s t asked o 1 .shutDown
  | blankName {o : Offer} (h : Text.trimmed t.name.toList = []) :
    Objection s t asked o 2 (.invalidArgument (.task .blankName))
  | zeroInterval {o : Offer} {p : Policy} {unit : TimeUnit} (hp : t.recurrence = some p)
    (h : p.pattern = .every 0 unit) :
    Objection s t asked o 3 (.invalidArgument (.task (.policy .zeroInterval)))
  | intervalOverflows {o : Offer} {p : Policy} {amount : UInt64} {unit : TimeUnit}
    (hp : t.recurrence = some p)
    (hpattern : p.pattern = .every amount unit) (h : wordLimit ≤ amount.toNat * unit.inMillis) :
    Objection s t asked o 3 (.invalidArgument (.task (.policy .intervalOverflows)))

namespace Objection

variable {s : Scheduler W} {t : Task W} {asked : Instant} {o : Offer} {rank : Nat}
  {e e' : SchedulerError}

theorem time_iff : Objection s t asked o 0 e ↔
    ∃ cause, o.due? t asked = .error cause ∧ e = .invalidArgument cause := by
  constructor
  · rintro (h | h | @⟨p, last, hp, hlast, h⟩)
    · exact ⟨_, by rw [Offer.due?, TimeUnit.span?_eq_none.mpr h], rfl⟩
    · exact ⟨_, by rw [Offer.due?, h], rfl⟩
    · have hfilter : (p.endTime.filter fun last => last < t.nextExecution.getD asked) = some last :=
        Option.filter_eq_some_iff.mpr ⟨hlast, decide_eq_true h⟩
      exact ⟨_, by simp only [Offer.due?, hp, hfilter], rfl⟩
  · rintro ⟨cause, hdue, rfl⟩
    cases o with
    | dueNow | dueAt => cases hdue
    | dueAfter amount unit =>
      rw [Offer.due?] at hdue
      split at hdue
      · cases hdue
        exact .delayOverflows (TimeUnit.span?_eq_none.mp ‹_›)
      · cases hdue
    | recurring =>
      simp only [Offer.due?] at hdue
      split at hdue
      · cases hdue
        exact .noRecurrence ‹_›
      · split at hdue
        · rename_i p hp _ last hlast
          cases hdue
          obtain ⟨hlast, hlate⟩ := Option.filter_eq_some_iff.mp hlast
          exact .startsAfterEnd hp hlast (of_decide_eq_true hlate)
        · cases hdue

theorem stop_iff : Objection s t asked o 1 e ↔ s.lifecycle = .stopped ∧ e = .shutDown := by
  constructor
  · rintro ⟨⟩
    exact ⟨‹_›, rfl⟩
  · rintro ⟨h, rfl⟩
    exact .stopped h

theorem name_iff :
    Objection s t asked o 2 e ↔ Text.isBlankText t.name ∧
    e = .invalidArgument (.task .blankName) := by
  rw [Text.isBlankText, ← Text.trimmed_eq_nil]
  constructor
  · rintro ⟨⟩
    exact ⟨‹_›, rfl⟩
  · rintro ⟨h, rfl⟩
    exact .blankName h

theorem policy_iff : Objection s t asked o 3 e ↔
    ∃ fault, t.recurrence.bind Policy.fault? = some fault ∧
    e = .invalidArgument (.task (.policy fault)) := by
  constructor
  · rintro (_ | _ | _ | _ | _ | ⟨hp, hpattern⟩ | @⟨_, _, amount, unit, hp, hpattern, h⟩)
    · exact ⟨_, by rw [hp, Option.bind_some, Policy.fault?, hpattern]; rfl, rfl⟩
    · have hpos : amount ≠ 0 := by
        rintro rfl
        simp [wordLimit] at h
      have hspan : (unit.span? amount.toNat).isNone := by simp [TimeUnit.span?_eq_none.mpr h]
      refine ⟨_, ?_, rfl⟩
      rw [hp, Option.bind_some, Policy.fault?, hpattern]
      simp only [hpos, hspan, if_true, if_false]
  · rintro ⟨fault, hfault, rfl⟩
    obtain ⟨p, hp, hfault⟩ := Option.bind_eq_some_iff.mp hfault
    unfold Policy.fault? at hfault
    split at hfault
    · rename_i amount unit hpattern
      by_cases hzero : amount = 0
      · rw [if_pos hzero] at hfault
        cases hfault
        exact .zeroInterval hp (hzero ▸ hpattern)
      · rw [if_neg hzero] at hfault
        split at hfault
        · cases hfault
          exact .intervalOverflows hp hpattern
            (TimeUnit.span?_eq_none.mp (Option.isNone_iff_eq_none.mp ‹_›))
        · cases hfault
    · cases hfault

theorem rank_lt (h : Objection s t asked o rank e) : rank < 4 := by
  cases h <;> omega

/-- There is one reason of a rank at most. -/
theorem unique (h : Objection s t asked o rank e) (h' : Objection s t asked o rank e') :
    e = e' := by
  match rank, h.rank_lt with
  | 0, _ =>
    obtain ⟨cause, hdue, rfl⟩ := time_iff.mp h
    obtain ⟨cause', hdue', rfl⟩ := time_iff.mp h'
    rw [Except.error.inj (hdue.symm.trans hdue')]
  | 1, _ => rw [(stop_iff.mp h).2, (stop_iff.mp h').2]
  | 2, _ => rw [(name_iff.mp h).2, (name_iff.mp h').2]
  | 3, _ =>
    obtain ⟨fault, hfault, rfl⟩ := policy_iff.mp h
    obtain ⟨fault', hfault', rfl⟩ := policy_iff.mp h'
    rw [Option.some.inj (hfault.symm.trans hfault')]

/-- No reason of a lower rank speaks against the task. -/
def NoneBelow (s : Scheduler W) (t : Task W) (asked : Instant) (o : Offer) (rank : Nat) : Prop :=
  ∀ other e, Objection s t asked o other e → rank ≤ other

theorem NoneBelow.succ (h : NoneBelow s t asked o rank)
    (hnone : ∀ e, ¬Objection s t asked o rank e) :
    NoneBelow s t asked o (rank + 1) := fun other e hother =>
  Nat.lt_of_le_of_ne (h other e hother) fun heq => hnone e (heq ▸ hother)

end Objection

namespace Scheduler

variable {s : Scheduler W} {t : Task W} {asked now : Instant} {o : Offer} {e : SchedulerError}

/-- The error names the reason that counts, which is the one of the lowest rank. -/
def Refuses (s : Scheduler W) (o : Offer) (t : Task W) (asked : Instant) (e : SchedulerError) :
    Prop :=
  ∃ rank, Objection s t asked o rank e ∧ Objection.NoneBelow s t asked o rank

theorem Refuses.unique {e' : SchedulerError} (h : s.Refuses o t asked e)
    (h' : s.Refuses o t asked e') : e = e' := by
  obtain ⟨rank, hobjection, hfirst⟩ := h
  obtain ⟨rank', hobjection', hfirst'⟩ := h'
  obtain rfl := Nat.le_antisymm (hfirst rank' e' hobjection') (hfirst' rank e hobjection)
  exact hobjection.unique hobjection'

/-- A new task is refused for the reason that counts, and taken if there is none. -/
theorem Gated.schedule_cases (hs : s.Gated) (new : t.IsNew)
    (habsent : s.task? t.id = none) (o : Offer) (asked now : Instant) :
    (∃ e, s.schedule o t asked now = .error e ∧ s.Refuses o t asked e) ∨
      (∃ s', s.schedule o t asked now = .ok s') ∧ ∀ rank e, ¬Objection s t asked o rank e := by
  cases hdue : o.due? t asked with
  | error cause =>
    have hschedule : s.schedule o t asked now = .error (.invalidArgument cause) := by
      rw [schedule, hdue]
    exact .inl ⟨_, hschedule, 0, Objection.time_iff.mpr ⟨cause, hdue, rfl⟩, fun _ _ _ =>
      Nat.zero_le _⟩
  | ok due =>
    have hfree : Objection.NoneBelow s t asked o 1 := by
      refine Objection.NoneBelow.succ (fun _ _ _ => Nat.zero_le _) fun e h => ?_
      obtain ⟨cause, hcause, -⟩ := Objection.time_iff.mp h
      cases hdue.symm.trans hcause
    have hschedule : s.schedule o t asked now = s.enqueue t due now := by rw [schedule, hdue]
    rw [hschedule, enqueue]
    by_cases hstopped : s.lifecycle = .stopped
    · have hclosed : s.accepting = false := by simpa [hstopped] using hs.accepting
      exact .inl ⟨_, by rw [hclosed]; rfl, 1, .stopped hstopped, hfree⟩
    have hopen : s.accepting = true := hs.accepting.mpr hstopped
    replace hfree := hfree.succ fun e h => hstopped (Objection.stop_iff.mp h).1
    rw [hopen, new.fault?_eq]
    by_cases hblank : Text.isBlankText t.name
    · exact .inl ⟨_, by rw [if_pos hblank]; rfl, 2, Objection.name_iff.mpr ⟨hblank, rfl⟩, hfree⟩
    replace hfree := hfree.succ fun e h => hblank (Objection.name_iff.mp h).1
    rw [if_neg hblank]
    cases hfault : t.recurrence.bind Policy.fault? with
    | some fault => exact .inl ⟨_, rfl, 3, Objection.policy_iff.mpr ⟨fault, hfault, rfl⟩, hfree⟩
    | none =>
      replace hfree := hfree.succ fun e h => by
        obtain ⟨fault, hsome, -⟩ := Objection.policy_iff.mp h
        cases hfault.symm.trans hsome
      exact .inr ⟨⟨_, by rw [takeIn, habsent]; rfl⟩, fun rank e h =>
        Nat.not_lt.mpr (hfree rank e h) h.rank_lt⟩

end Scheduler

theorem Request.refused_schedule {s : Scheduler W} {o : Offer} {t : Task W} {asked now : Instant} :
    (schedule o t asked now).Refused s ↔ ∃ e, s.schedule o t asked now = .error e := by
  rw [Refused, procedure, Procedure.outcome_map, Procedure.outcome_schedule]
  cases s.schedule o t asked now <;> simp [Except.map]

/-! ## In a world -/

namespace World

/-- How calls are refused in a world. -/
structure Refusals (w : World W) : Prop where
  /-- A call that is refused changes nothing, and nothing is published. -/
  unchanged : ∀ r : Request W, r.Refused w.scheduler → w.turn (r.after w.scheduler) = w
  /-- A new task is refused just when there is a reason against it. -/
  refused_iff : ∀ (o : Offer) (t : Task W) (asked now : Instant), t.IsNew →
    (∀ a ∈ w.accepted, a.task.id ≠ t.id) →
    ((Request.schedule o t asked now).Refused w.scheduler ↔ ∃ rank e,
      Objection w.scheduler t asked o rank e)
  /-- Of several reasons the one that counts is named. -/
  error_iff : ∀ (o : Offer) (t : Task W) (asked now : Instant), t.IsNew →
    (∀ a ∈ w.accepted, a.task.id ≠ t.id) →
    ∀ e, w.scheduler.schedule o t asked now = .error e ↔ w.scheduler.Refuses o t asked e

variable {w : World W}

/-- A task that has not been accepted is not in the index. -/
theorem Sound.task?_of_unseen (hw : w.Sound) {id : TaskId}
    (unseen : ∀ a ∈ w.accepted, a.task.id ≠ id) :
    w.scheduler.task? id = none := by
  have hadmission : (w.life id).admission = none := List.find?_eq_none.mpr fun a ha => by
    simpa using unseen a ha
  exact congrArg Life.task ((hw.lives id).unseen hadmission)

theorem Reachable.refusals (hw : w.Reachable) : w.Refusals where
  unchanged r hr := by
    rw [Request.after_of_refused hr]
    simp [turn]
  refused_iff o t asked now new unseen := by
    rw [Request.refused_schedule]
    rcases hw.gated.schedule_cases new (hw.sound.task?_of_unseen unseen) o asked now with
      ⟨e, herror, rank, hobjection, -⟩ | ⟨⟨s', hok⟩, hnone⟩
    · exact ⟨fun _ => ⟨rank, e, hobjection⟩, fun _ => ⟨e, herror⟩⟩
    · constructor
      · rintro ⟨e, herror⟩
        cases hok.symm.trans herror
      · rintro ⟨rank, e, hobjection⟩
        exact absurd hobjection (hnone rank e)
  error_iff o t asked now new unseen e := by
    rcases hw.gated.schedule_cases new (hw.sound.task?_of_unseen unseen) o asked now with
      ⟨e', herror, hrefuses⟩ | ⟨⟨s', hok⟩, hnone⟩
    · constructor
      · intro h
        rwa [Except.error.inj (h.symm.trans herror)]
      · intro h
        rw [herror, h.unique hrefuses]
    · constructor
      · intro h
        cases hok.symm.trans h
      · rintro ⟨rank, hobjection, -⟩
        exact absurd hobjection (hnone rank e)

/-- Three reasons speak against a blank task with an endless delay once the scheduler is stopped.
The delay is named. -/
theorem refusals_of_stopped : ∃ (w : World Nat) (t : Task Nat), w.Reachable ∧ w.Refusals ∧
    Objection w.scheduler t .epoch (.dueAfter wordLimit .days) 1 .shutDown ∧
    Objection w.scheduler t .epoch (.dueAfter wordLimit .days) 2
      (.invalidArgument (.task .blankName)) ∧
    w.scheduler.Refuses (.dueAfter wordLimit .days) t .epoch
      (.invalidArgument (.delayOverflows wordLimit .days)) := by
  obtain ⟨w, hplay, hstopped, hunseen⟩ : ∃ w ∈ World.sample.play? [.start .epoch,
      .accept .dueNow Task.sample .epoch .epoch, .stop .epoch],
      w.scheduler.lifecycle = .stopped ∧ ∀ a ∈ w.accepted, a.task.id ≠ .ofNat 2 := by decide +kernel
  have hw : w.Reachable := ⟨{}, _, _, rfl, .of_play? hplay⟩
  have hrefusals := hw.refusals
  refine ⟨w, { Task.sample with id := .ofNat 2, name := " \t" }, hw, hrefusals, .stopped hstopped,
    .blankName (by decide), ?_⟩
  exact (hrefusals.error_iff _ _ _ .epoch (by decide) hunseen _).mp rfl

end World

end Timetable
