import Timetable.Proofs.Attempt
import Timetable.Proofs.Saturation

/-!
# Recurrences that are over

A policy that names no run at one time names none at any later time, whatever has happened in
between: its runs do not come back, its end time is not moved, and its pattern names no earlier run
than before. So a task whose recurrence has ended had nothing more to wait for.

There is one exception. Fixed intervals go by the numbers of the nanoseconds, which begin anew in a
leap second: an interval may lead from there to an earlier run than from the second before, and to
one that is in time.
-/
namespace Timetable

variable {now later due : Instant} {count more : UInt32}

/-- A pattern that names a run after a later instant names one that is no later after an
earlier instant. -/
theorem Pattern.exists_next?_le {p : Pattern} (hle : now ≤ later) (hstep : p.InStep now later)
    (h : p.next? later = some due) : ∃ sooner, p.next? now = some sooner ∧ sooner ≤ due := by
  have hdue := (next?_eq_some.mp h).1
  have hmono := earliest_mono hle hstep
  have hlast := due.le_last
  cases hnext : p.next? now with
  | none =>
    have hlate := next?_eq_none.mp hnext
    omega
  | some sooner =>
    refine ⟨sooner, rfl, ?_⟩
    obtain ⟨hsooner, hstays⟩ := next?_eq_some.mp hnext
    cases p with
    | every amount unit =>
      obtain ⟨d, hd, hsum⟩ := Option.bind_eq_some_iff.mp h
      rw [next?, hd, Option.bind_some] at hnext
      have hsums := Instant.add_mono hle hstep (Nat.le_refl d.total)
      rwa [Instant.add, Instant.add, hnext, hsum] at hsums
    | hourly | daily | weekly | monthly =>
      refine Instant.le_of_nanos_le (Bool.eq_false_iff.mpr hstays.mp) ?_
      rw [hsooner, hdue]
      exact hmono

namespace Policy

variable {p : Policy}

theorem isExhausted_mono (hle : count ≤ more) (h : p.isExhausted count) : p.isExhausted more := by
  simp only [isExhausted, Bool.and_eq_true, decide_eq_true_eq] at h ⊢
  exact ⟨h.1, UInt32.le_trans h.2 hle⟩

/-- A policy names what its pattern names, while it is switched on, runs are left and the end time
has not come. -/
theorem next?_eq_some : p.next? now count = some due ↔
    p.enabled ∧ p.isExhausted count = false ∧ p.pattern.next? now = some due ∧
      ∀ last, p.endTime = some last → due ≤ last := by
  unfold next?
  cases p.enabled
  · simp
  · cases p.isExhausted count
    · simp [Option.filter_eq_some_iff, Option.all_eq_true]
    · simp

/-- What a policy names later it could have named before, or something sooner. -/
theorem exists_next?_le (hle : now ≤ later) (hstep : p.pattern.InStep now later)
    (hcount : count ≤ more) (h : p.next? later more = some due) :
    ∃ sooner, p.next? now count = some sooner ∧ sooner ≤ due := by
  obtain ⟨hon, hleft, hpattern, hend⟩ := next?_eq_some.mp h
  obtain ⟨sooner, hsooner, hdue⟩ := Pattern.exists_next?_le hle hstep hpattern
  refine ⟨sooner, next?_eq_some.mpr ⟨hon, ?_, hsooner, fun last hlast => ?_⟩, hdue⟩
  · by_contra hexhausted
    rw [Bool.not_eq_false] at hexhausted
    rw [isExhausted_mono hcount hexhausted] at hleft
    cases hleft
  · exact Int.le_trans hdue (hend last hlast)

theorem next?_eq_none_of_le (hle : now ≤ later) (hstep : p.pattern.InStep now later)
    (hcount : count ≤ more) (h : p.next? now count = none) : p.next? later more = none := by
  cases hlater : p.next? later more with
  | none => rfl
  | some due =>
    obtain ⟨sooner, hsooner, -⟩ := exists_next?_le hle hstep hcount hlater
    rw [h] at hsooner
    cases hsooner

theorem next?_eq_none_of_isExhausted (h : p.isExhausted count) (now : Instant) :
    p.next? now count = none := by
  simp [next?, h]

end Policy

/-- A task that is cancelled by the record of an attempt has a policy that names no run any more. -/
theorem Task.Settles.expired {W : Type} {t u : Task W} {w : W} {a : Attempt} {delay : Span}
    {notices : List Notice} (h : t.Settles w a now delay u notices) (ht : t.status ≠ .cancelled)
    (hu : u.status = .cancelled) :
    ∃ p, u.recurrence = some p ∧ p.next? now u.executionCount = none := by
  have hended := (ended_status_eq_cancelled t w a).not.mpr ht
  cases h with
  | cancelled h => exact absurd h ht
  | completed | failed => exact absurd hu hended
  | recurs | retries => cases hu
  | expires _ _ hr hn =>
    refine ⟨_, (ended_recurrence t w a).trans hr, ?_⟩
    show Policy.next? _ now (t.ended w a).executionCount = none
    rw [ended_executionCount]
    exact hn
  | exhausted _ _ hx =>
    unfold isExhausted at hx
    cases hp : (t.ended w a).recurrence with
    | none =>
      rw [hp] at hx
      cases hx
    | some p =>
      rw [hp] at hx
      exact ⟨p, hp, p.next?_eq_none_of_isExhausted hx now⟩

/-- Every pattern names later runs later, so a recurrence that is over stays over, and that of a
task that the record of an attempt has cancelled is; only to a leap second, from the second before,
fixed intervals go by the numbers of the nanoseconds. A policy without fault names runs strictly
later and none after its end time. -/
theorem Policy.expiry_permanent (W : Type) :
    (∀ (p : Pattern) (now later due : Instant), now ≤ later → p.InStep now later →
      p.next? later = some due → ∃ sooner, p.next? now = some sooner ∧ sooner ≤ due) ∧
    (∀ (p : Policy) (now later : Instant) (count more : UInt32), now ≤ later →
      p.pattern.InStep now later →
      count ≤ more → p.next? now count = none → p.next? later more = none) ∧
    (∀ (t : Task W) (w : W) (a : Attempt) (now later : Instant) (delay : Span) (more : UInt32),
      t.status ≠ .cancelled → (t.settle w a now delay).1.status = .cancelled → now ≤ later →
      (t.settle w a now delay).1.executionCount ≤ more →
        ∃ p, (t.settle w a now delay).1.recurrence = some p ∧
          (p.pattern.InStep now later → p.next? later more = none)) ∧
    ∀ (p : Policy) (now due : Instant) (count : UInt32), p.fault? = none →
    p.next? now count = some due →
      now < due ∧ ∀ last, p.endTime = some last → due ≤ last := by
  refine ⟨fun p now later due hle hstep h => Pattern.exists_next?_le hle hstep h,
    fun p now later count more hle hstep hcount h => next?_eq_none_of_le hle hstep hcount h, ?_, ?_⟩
  · intro t w a now later delay more ht hu hle hcount
    obtain ⟨p, hp, hnone⟩ := (t.settles w a now delay).expired ht hu
    exact ⟨p, hp, fun hstep => next?_eq_none_of_le hle hstep hcount hnone⟩
  · intro p now due count valid h
    exact ⟨lt_of_next? valid h, (next?_eq_some.mp h).2.2.2⟩

/-- Every day, but not after the first of January 1970. -/
def Policy.dailySample : Policy := { pattern := .daily, endTime := some .epoch }

/-- The task of a success after which its recurrence is over. -/
def Task.dailySample : Task Nat :=
  { id := .ofNat 1, name := "report", createdAt := .epoch, recurrence := some .dailySample,
    work := none
    status := .running }

theorem Policy.expiry_of_dailySample :
    (∃ sooner, Pattern.hourly.next? .epoch = some sooner ∧ sooner ≤ .ofNanos 7200000000000) ∧
    dailySample.next? .epoch 0 = none ∧ dailySample.next? .last 7 = none ∧
    (∃ p, (Task.dailySample.settle 0 ⟨.epoch, .zero, .success⟩ .epoch .zero).1.recurrence = some p ∧
      (p.pattern.InStep .epoch .last → p.next? .last 7 = none)) ∧
    (Instant.epoch < .ofNanos 3600000000000 ∧
      ∀ last, (none : Option Instant) = some last → .ofNanos 3600000000000 ≤ last) := by
  obtain ⟨hpattern, hpolicy, htask, hvalid⟩ := Policy.expiry_permanent Nat
  refine ⟨?_, by decide, ?_, ?_, ?_⟩
  · exact hpattern .hourly .epoch (.ofNanos 3600000000000) _ (by decide) trivial (by decide)
  · exact hpolicy dailySample .epoch .last 0 7 (by decide) trivial (by decide) (by decide)
  · exact htask Task.dailySample 0 ⟨.epoch, .zero, .success⟩ .epoch .last .zero 7
      (by decide) (by decide)
      (by decide) (by decide)
  · exact hvalid { pattern := .hourly } .epoch _ 0 (by decide) (by decide)

/-- Every 800 milliseconds, until half a second after the leap second. -/
def Policy.leapSample : Policy :=
  { pattern := .every 800 .milliseconds, endTime := some (.ofNanos 1717211160500000000) }

/-- In the leap second the recurrence is not over, though it was shortly before. -/
theorem Policy.revived_in_leap_second :
    Instant.beforeLeap ≤ .inLeap ∧ leapSample.next? .beforeLeap 0 = none ∧
    leapSample.next? .inLeap 0 = some (.ofNanos 1717211160100000000) := by
  decide

end Timetable
