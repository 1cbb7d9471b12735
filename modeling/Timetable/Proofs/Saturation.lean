import Timetable.Proofs.CalendarRuns

/-!
# Sums of instants and spans

An instant moved by a span goes exactly as far as the span says, or to the last instant if that is
nearer. On the way there are two more limits, on the milliseconds of an interval and on the length
of a shift. Neither is ever felt: what exceeds one of them leads past the last instant, even from
the first one.

A leap second is counted as the second before. A sum that ends in the leap second in which it began
stays there; one that leaves it goes on from the second before, so that it may end where an earlier
instant has already been led beyond.
-/
namespace Timetable

/-- The sum of two spans, if there is one. -/
def Span.add? (x y : Span) : Option Span := ofNanos? (x.total + y.total)

theorem Span.total_of_ofNanos? {n : Nat} {d : Span} (h : ofNanos? n = some d) : d.total = n := by
  unfold ofNanos? at h
  split at h
  · rw [← Option.some.inj h]
  · cases h

/-- Whole seconds that fit their word and less than a second beyond them make a span. -/
theorem Span.exists_ofParts? {seconds nanos : Nat} (hs : seconds < wordLimit)
    (hn : nanos < nanosPerSecond) :
    ∃ d, ofParts? seconds nanos = some d ∧ d.total = seconds * nanosPerSecond + nanos := by
  have hfits : seconds * nanosPerSecond + nanos < spanLimit :=
    calc seconds * nanosPerSecond + nanos < (seconds + 1) * nanosPerSecond := by
          rw [Nat.succ_mul]
          exact Nat.add_lt_add_left hn _
      _ ≤ spanLimit := Nat.mul_le_mul_right _ hs
  exact ⟨⟨_, hfits⟩, dif_pos hfits, rfl⟩

namespace Instant

variable {t u : Instant} {x y z : Span}

/-- A sum that stays in a leap second ends in the second of the instant. -/
theorem second_add (h : t.StaysLeap x.total) : (t.add x).second = t.second := by
  obtain ⟨v, hv, hnanos, -⟩ := exists_add?_of_staysLeap h
  rw [add, hv, Option.getD_some, second, hnanos]
  exact h.2

/-- What leaves a leap second ends in a later second. -/
theorem second_lt_add (h : t.leap = true) (hleaves : ¬t.StaysLeap x.total) :
    t.second < (t.add x).second := by
  have hother : (t.nanos + x.total) / 1000000000 ≠ t.second := fun heq => hleaves ⟨h, heq⟩
  have hbefore := (t.endsMinute h).2
  simp only [second, nanos_add] at *
  omega

/-- Later instants and longer spans have later sums, if the number of the instant is no less. -/
theorem add_mono (h : t ≤ u) (hnanos : t.nanos ≤ u.nanos) (hd : x.total ≤ y.total) :
    t.add x ≤ u.add y := by
  have hsums : (t.add x).nanos ≤ (u.add y).nanos := by
    rw [nanos_add, nanos_add]
    omega
  cases hleft : (t.add x).leap with
  | false => exact le_of_nanos_le hleft hsums
  | true =>
    cases hright : (u.add y).leap with
    | true => exact (le_iff_of_leap_eq (hleft.trans hright.symm)).mpr hsums
    | false =>
      have hstays := (t.leap_add x).mp hleft
      have hleaves : ¬u.StaysLeap y.total := fun hstays => by
        rw [(u.leap_add y).mpr hstays] at hright
        cases hright
      refine Int.le_of_lt (lt_of_second_lt ?_)
      rw [second_add hstays]
      rcases Int.lt_or_eq_of_le (second_le_of_le h) with hlt | heq
      · exact Int.lt_of_lt_of_le hlt (second_le_of_le (u.self_le_add y))
      · -- in the same second only what is itself in the leap second is no earlier
        rw [le_iff, heq, hstays.1] at h
        have hleap : u.leap = true := by
          by_contra hordinary
          rw [Bool.not_eq_true] at hordinary
          rw [hordinary] at h
          simp only [second, Bool.toNat_true, Bool.toNat_false] at h heq
          omega
        rw [heq]
        exact second_lt_add hleap hleaves

/-- Where a second keeps two instants in order, the earlier one has the smaller number: both are led
out of any leap second. -/
theorem nanos_le_of_add_le (h : t ≤ u) (hsums : t.add (.ofMillis 1000) ≤ u.add (.ofMillis 1000)) :
    t.nanos ≤ u.nanos := by
  by_contra hless
  rw [Int.not_le] at hless
  have hone : (Span.ofMillis 1000).total = 1000000000 := by decide
  have hordinary : t.leap = false := by
    by_contra hleap
    rw [Bool.not_eq_false] at hleap
    rw [le_iff, hleap] at h
    simp only [second, Bool.toNat_true] at h
    have := u.leap.toNat_le
    omega
  have hleap : u.leap = true := by
    by_contra hother
    rw [Bool.not_eq_true] at hother
    exact absurd ((le_iff_of_leap_eq (hordinary.trans hother.symm)).mp h) (Int.not_le.mpr hless)
  have hleaves : (u.add (.ofMillis 1000)).leap = false := by
    rw [← Bool.not_eq_true, leap_add, hone, StaysLeap, second]
    omega
  have hbefore := (u.endsMinute hleap).2
  have hwhole : lastNanos % 1000000000 = 999999999 := by decide
  have hsecond := second_le_of_le h
  rw [le_iff_of_leap_eq ((leap_add_of_not hordinary _).trans hleaves.symm), nanos_add, nanos_add,
    hone] at hsums
  simp only [second] at hsecond
  omega

/-- It makes no difference whether two spans are added together or one after the other. -/
theorem add_add (t : Instant) (h : z.total = x.total + y.total) : (t.add x).add y = t.add z := by
  ext
  · rw [nanos_add, nanos_add, nanos_add, h]
    omega
  · rw [Bool.eq_iff_iff, leap_add, leap_add, StaysLeap, leap_add, StaysLeap, StaysLeap, second,
      second, nanos_add, h]
    cases ht : t.leap with
    | false => simp
    | true =>
      have hbefore := (t.endsMinute ht).2
      simp only [true_and]
      omega

end Instant

namespace Pattern

variable {now due : Instant} {amount : UInt64} {unit : TimeUnit}

/-- A fixed interval leads nowhere if its milliseconds do not fit their word or it ends past the
last instant. -/
theorem next?_every_eq_none (h : ¬(amount.toNat * unit.inMillis < wordLimit ∧
    now.nanos + unit.inNanos amount.toNat ≤ Instant.last.nanos)) :
      (every amount unit).next? now = none := by
  rw [next?_eq_none]
  by_cases hword : amount.toNat * unit.inMillis < wordLimit
  · exact Int.lt_of_not_ge fun hle => h ⟨hword, hle⟩
  · exact lastNanos_lt_of_wordLimit_le now (Nat.le_of_not_lt hword)

end Pattern

/-- Sums are exact up to the last instant, and a fixed interval names the exact sum where there is
one; a leap second has the numbers of the second before, and a sum lies in it if it begins there and
its number is still one of that second. So sums grow with the span, and with the instant exactly as
far as its number grows; they never fall behind the instant, and they add up. -/
theorem Instant.sums_exact_up_to_last :
    (∀ (t : Instant) (seconds nanos : Nat), seconds < wordLimit → nanos < nanosPerSecond →
      ∃ d, Span.ofParts? seconds nanos = some d ∧
        (t.add d).nanos = min (t.nanos + (seconds * nanosPerSecond + nanos)) last.nanos ∧
        ((t.add d).leap = true ↔ t.StaysLeap (seconds * nanosPerSecond + nanos))) ∧
    (∀ (now : Instant) (amount : UInt64) (unit : TimeUnit),
      let interval := amount.toNat * unit.inMillis * nanosPerMilli
      (amount.toNat * unit.inMillis < wordLimit ∧ now.nanos + interval ≤ last.nanos →
        ∃ due, (Pattern.every amount unit).next? now = some due ∧ due.nanos = now.nanos + interval ∧
          (due.leap = true ↔ now.StaysLeap interval)) ∧
      (¬(amount.toNat * unit.inMillis < wordLimit ∧ now.nanos + interval ≤ last.nanos) →
        (Pattern.every amount unit).next? now = none)) ∧
    (∀ t u : Instant, t ≤ u →
      (t.nanos ≤ u.nanos ↔ ∀ x y : Span, x.total ≤ y.total → t.add x ≤ u.add y)) ∧
    (∀ (t : Instant) (d : Span), t ≤ t.add d) ∧
    ∀ (t : Instant) (x y z : Span), x.add? y = some z → (t.add x).add y = t.add z := by
  refine ⟨fun t seconds nanos hs hn => ?_, fun now amount unit =>
    ⟨fun h => ?_, Pattern.next?_every_eq_none⟩, fun t u h =>
      ⟨fun hnanos x y hd => add_mono h hnanos hd, fun hmono => ?_⟩, self_le_add,
    fun t x y z h => t.add_add (Span.total_of_ofNanos? h)⟩
  · obtain ⟨d, hd, htotal⟩ := Span.exists_ofParts? hs hn
    refine ⟨d, hd, ?_, ?_⟩
    · rw [nanos_add, htotal]
      rfl
    · rw [leap_add, htotal]
  · cases hnext : (Pattern.every amount unit).next? now with
    | none => exact absurd h.2 (Int.not_le_of_gt (Pattern.next?_eq_none.mp hnext))
    | some due => exact ⟨due, rfl, Pattern.next?_eq_some.mp hnext⟩
  · exact nanos_le_of_add_le h (hmono _ _ (Nat.le_refl _))

/-- The longest span takes every instant to the last one; the first instant is days away from what
it reaches in days; an interval of too many days, and one that ends too late, lead nowhere. -/
theorem Instant.sums_at_the_ends :
    (∃ d, Span.ofParts? (wordLimit - 1) 999999999 = some d ∧ (epoch.add d).nanos = last.nanos) ∧
    (∃ due, (Pattern.every 191000000 .days).next? (ofNanos firstNanos) = some due ∧
      due.nanos = firstNanos + 191000000 * nanosPerDay) ∧
    (Pattern.every 18446744073709551615 .days).next? epoch = none ∧
    (Pattern.every 1 .milliseconds).next? last = none ∧
    epoch.add .zero ≤ last.add (Span.ofMillis 1) ∧
    (last.add (Span.ofMillis 1)).add (Span.ofMillis 2) = last.add (Span.ofMillis 3) := by
  obtain ⟨hsum, hinterval, hmono, -, hadd⟩ := sums_exact_up_to_last
  refine ⟨?_, ?_, ?_, ?_, ?_, ?_⟩
  · obtain ⟨d, hd, hnanos, -⟩ := hsum epoch (wordLimit - 1) 999999999 (by decide) (by decide)
    exact ⟨d, hd, hnanos.trans (by decide)⟩
  · obtain ⟨due, hdue, hnanos, -⟩ := (hinterval (ofNanos firstNanos) 191000000 .days).1 (by decide)
    exact ⟨due, hdue, hnanos⟩
  · exact (hinterval epoch 18446744073709551615 .days).2 (by decide)
  · exact (hinterval last 1 .milliseconds).2 (by decide)
  · exact (hmono epoch last (by decide)).mp (by decide) .zero (Span.ofMillis 1) (by decide)
  · exact hadd last (Span.ofMillis 1) (Span.ofMillis 2) (Span.ofMillis 3) (by decide)

/-- Shortly before a leap second: 2024-06-01T03:05:59.950Z. -/
def Instant.beforeLeap : Instant := ofNanos 1717211159950000000

/-- In the leap second: 2024-06-01T03:05:60.300Z. -/
def Instant.inLeap : Instant where
  nanos := 1717211159300000000
  leap := true
  first_le := by decide
  le_last := by decide
  endsMinute := by decide

/-- From the leap second a span leads less far than from the second before. The sum does not have
the number that it would have if numbers went on through the leap second. -/
theorem Instant.sums_overtaken :
    beforeLeap ≤ inLeap ∧ ¬beforeLeap.add (.ofMillis 800) ≤ inLeap.add (.ofMillis 800) ∧
    (inLeap.add (.ofMillis 800)).nanos ≠
      min (inLeap.nanos + 1000000000 + 800000000) last.nanos := by
  decide

end Timetable
