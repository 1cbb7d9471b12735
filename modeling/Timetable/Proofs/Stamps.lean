import Mathlib.Algebra.Group.Nat.Defs
import Mathlib.Data.List.TakeWhile
import Timetable.Instant.Reading

/-!
# Stamps are read as they are written

Each part of a stamp is followed by a mark, so the digits of the part end where they were meant to.
Read one after another the parts give back the date and the time of day, which determine the
instant. Years outside 0 to 9999 are told by their sign, and a fraction counts by its number of
digits.
-/
namespace Timetable

open Text

/-! ## Runs of digits -/

/-- The text does not go on with a digit. -/
def Undigited (rest : List Char) : Prop := ∀ c ∈ rest.head?, c.isDigit = false

theorem undigited_cons {c : Char} (h : c.isDigit = false) (rest : List Char) :
    Undigited (c :: rest) := by
  intro d hd
  rwa [← Option.some.inj hd]

theorem not_isBlank_of_isDigit {c : Char} (h : c.isDigit) : isBlank c = false := by
  by_contra hblank
  simp only [Char.isDigit, Bool.and_eq_true, decide_eq_true_eq, ge_iff_le,
    UInt32.le_iff_toNat_le] at h
  have hlow : 48 ≤ c.toNat := h.1
  have hhigh : c.toNat ≤ 57 := h.2
  simp only [isBlank, Bool.not_eq_false, Bool.or_eq_true, Bool.and_eq_true, decide_eq_true_eq,
    beq_iff_eq] at hblank
  omega

theorem dropBlanks_cons {c : Char} (h : isBlank c = false) (s : List Char) :
    dropBlanks (c :: s) = c :: s := by
  rw [dropBlanks, List.dropWhile_cons_of_neg (by simp [h])]

theorem length_padded {width n : Nat} (hwidth : 0 < width) (h : n < 10 ^ width) :
    (padded width n).length = width := by
  have hlength : (numeral n).length ≤ width := (Nat.length_toDigits_le_iff (by decide) hwidth).mpr h
  rw [padded, List.length_append, List.length_replicate]
  omega

theorem padded_eq_cons (width n : Nat) : ∃ c cs, padded width n = c :: cs ∧ c.isDigit := by
  have hne : padded width n ≠ [] := List.append_ne_nil_of_right_ne_nil _ Nat.toDigits_ne_nil
  obtain ⟨c, cs, hcons⟩ := List.exists_cons_of_ne_nil hne
  exact ⟨c, cs, hcons, isDigit_of_mem_padded (hcons ▸ List.mem_cons_self ..)⟩

theorem takeWhile_digits {digits rest : List Char} (h : ∀ c ∈ digits, c.isDigit)
    (hrest : Undigited rest) :
    (digits ++ rest).takeWhile Char.isDigit = digits := by
  rw [List.takeWhile_append_of_pos h]
  cases rest with
  | nil => simp
  | cons c rest =>
    have hc : c.isDigit = false := hrest c rfl
    rw [List.takeWhile_cons_of_neg (by simp [hc]), List.append_nil]

theorem Undigited.take {rest : List Char} (h : Undigited rest) (n : Nat) :
    Undigited (rest.take n) := by
  intro c hc
  cases n with
  | zero => simp at hc
  | succ n =>
    cases rest with
    | nil => simp at hc
    | cons d rest => exact h c hc

namespace Instant

/-- A padded numeral of no more digits than the bound allows, with something else behind it. -/
theorem readNumber_padded {bound : Option Nat} {width n : Nat} {rest : List Char}
    (hbound : ∀ k ∈ bound, (padded width n).length ≤ k) (hrest : Undigited rest)
    (hlt : n < 9223372036854775808) :
    readNumber bound (padded width n ++ rest) = .ok (n, rest) := by
  have hle : (padded width n).length ≤ bound.getD (padded width n ++ rest).length := by
    cases bound with
    | none => simp
    | some k => exact hbound k rfl
  have htaken :
      ((padded width n ++ rest).take (bound.getD (padded width n ++ rest).length)).takeWhile
        Char.isDigit =
      padded width n := by
    rw [List.take_append, List.take_of_length_le hle]
    exact takeWhile_digits (fun _ => isDigit_of_mem_padded) (hrest.take _)
  have hvalue := ofDigits_padded width n
  obtain ⟨c, cs, hcons, -⟩ := padded_eq_cons width n
  rw [hcons] at htaken hvalue ⊢
  rw [List.cons_append] at htaken ⊢
  unfold readNumber
  simp only [htaken]
  simp only [hvalue, if_pos hlt, List.length_cons, List.drop_succ_cons, List.drop_left]

theorem dropBlanks_padded (width n : Nat) (rest : List Char) :
    dropBlanks (padded width n ++ rest) = padded width n ++ rest := by
  obtain ⟨c, cs, hcons, hc⟩ := padded_eq_cons width n
  rw [hcons, List.cons_append, dropBlanks_cons (not_isBlank_of_isDigit hc)]

/-! ## The parts of a stamp -/

theorem readField_padded {low high n : Nat} {rest : List Char} (hlow : low ≤ n) (hhigh : n ≤ high)
    (hsmall : high < 100) (hrest : Undigited rest) :
    readField low high (padded 2 n ++ rest) = .ok (n, rest) := by
  have hlength : (padded 2 n).length = 2 := length_padded (by decide) (by omega)
  have hnumber : readNumber (some 2) (padded 2 n ++ rest) = .ok (n, rest) :=
    readNumber_padded (by simp [hlength]) hrest (by omega)
  simp [readField, dropBlanks_padded, hnumber, bind, Except.bind, hlow, hhigh]

theorem readMark_cons {mark : Char} (h : isBlank mark = false) (rest : List Char) :
    readMark mark (mark :: rest) = .ok rest := by
  simp [readMark, dropBlanks_cons h]

theorem readYear_yearText {year : Int} {rest : List Char} (hlow : -2147483648 ≤ year)
    (hhigh : year ≤ 2147483647)
    (hrest : Undigited rest) : readYear (yearText year ++ rest) = .ok (year, rest) := by
  rw [yearText]
  split
  · rename_i hneg
    have hdigits : readNumber none (padded 4 year.natAbs ++ rest) = .ok (year.natAbs, rest) :=
      readNumber_padded (by simp) hrest (by omega)
    have hyear : -(year.natAbs : Int) = year := by omega
    rw [List.cons_append, readYear, dropBlanks_cons (by decide)]
    simp only [hdigits, hyear, hlow, hhigh, bind, Except.bind, Except.map, and_self, if_true]
  split
  · rename_i hneg hfour
    have hlength : (padded 4 year.toNat).length = 4 := length_padded (by decide) (by omega)
    have hdigits : readNumber (some 4) (padded 4 year.toNat ++ rest) = .ok (year.toNat, rest) :=
      readNumber_padded (by simp [hlength]) hrest (by omega)
    have hyear : (year.toNat : Int) = year := by omega
    obtain ⟨c, cs, hcons, hc⟩ := padded_eq_cons 4 year.toNat
    have hminus : c ≠ '-' := fun h => absurd (h ▸ hc) (by decide)
    have hplus : c ≠ '+' := fun h => absurd (h ▸ hc) (by decide)
    rw [readYear, dropBlanks_padded]
    rw [hcons, List.cons_append] at hdigits ⊢
    simp [hdigits, hyear, hlow, hhigh, hminus, hplus, bind, Except.bind, Except.map]
  · rename_i hneg hfour
    have hdigits : readNumber none (padded 4 year.toNat ++ rest) = .ok (year.toNat, rest) :=
      readNumber_padded (by simp) hrest (by omega)
    have hyear : (year.toNat : Int) = year := by omega
    rw [List.cons_append, readYear, dropBlanks_cons (by decide)]
    simp [hdigits, hyear, hlow, hhigh, bind, Except.bind, Except.map]

/-- Digits behind the point count as nanoseconds by how many there are. -/
theorem readFraction_padded {width n : Nat} {rest : List Char} (hwidth : 0 < width)
    (hnine : width ≤ 9) (h : n < 10 ^ width) (hrest : Undigited rest) :
    readFraction ('.' :: padded width n ++ rest) = .ok (n * Nat.pow 10 (9 - width), rest) := by
  have hlength : (padded width n).length = width := length_padded hwidth h
  have hlt : n < 9223372036854775808 :=
    h.trans_le ((Nat.pow_le_pow_right (by decide) hnine).trans (by decide))
  have hnumber : readNumber (some 9) (padded width n ++ rest) = .ok (n, rest) :=
    readNumber_padded (by simpa [hlength] using hnine) hrest hlt
  have hdrop : rest.dropWhile Char.isDigit = rest := by
    cases rest with
    | nil => rfl
    | cons c rest => rw [List.dropWhile_cons_of_neg (by simp [hrest c rfl])]
  simp [readFraction, hnumber, hlength, hdrop, bind, Except.bind]

/-- A fraction is left out, or its digits count nanoseconds by how many of them there are. -/
theorem fractionText_cases {nanos : Nat} (h : nanos < 1000000000) :
    (nanos = 0 ∧ fractionText nanos = []) ∨
    ∃ width n, 0 < width ∧ width ≤ 9 ∧ n < 10 ^ width ∧ n * Nat.pow 10 (9 - width) = nanos ∧
      fractionText nanos = '.' :: padded width n := by
  rw [fractionText]
  split
  · rename_i hzero
    exact .inl ⟨hzero, rfl⟩
  split
  · rename_i hmillis
    exact .inr ⟨3, nanos / 1000000, by decide, by decide, by omega,
      Nat.div_mul_cancel (Nat.dvd_of_mod_eq_zero hmillis), rfl⟩
  split
  · rename_i hmicros
    exact .inr ⟨6, nanos / 1000, by decide, by decide, by omega,
      Nat.div_mul_cancel (Nat.dvd_of_mod_eq_zero hmicros), rfl⟩
  · exact .inr ⟨9, nanos, by decide, by decide, h, Nat.mul_one nanos, rfl⟩

theorem readFraction_fractionText {nanos : Nat} (h : nanos < 1000000000) :
    readFraction (fractionText nanos ++ ['Z']) = .ok (nanos, ['Z']) := by
  rcases fractionText_cases h with ⟨rfl, hnone⟩ | ⟨width, n, hwidth, hnine, hn, rfl, hdigits⟩
  · rw [hnone]
    rfl
  · rw [hdigits]
    exact readFraction_padded hwidth hnine hn (undigited_cons (by decide) [])

theorem undigited_fractionText {nanos : Nat} (h : nanos < 1000000000) :
    Undigited (fractionText nanos ++ ['Z']) := by
  rcases fractionText_cases h with ⟨-, hnone⟩ | ⟨width, n, -, -, -, -, hdigits⟩
  · rw [hnone]
    exact undigited_cons (by decide) []
  · rw [hdigits]
    exact undigited_cons (by decide) _

/-! ## The whole stamp -/

/-- Years of instants are far from the bounds of what can be read. -/
theorem year_bounds (t : Instant) : -300000 ≤ t.date.year ∧ t.date.year ≤ 300000 := by
  have hfirst := t.first_le
  have hlast := t.le_last
  have hle := daysBeforeYear_yearOfDay_le t.day
  have hlt := lt_daysBeforeYear_yearOfDay t.day
  have hyear : t.date.year = yearOfDay t.day := rfl
  rw [hyear]
  generalize yearOfDay t.day = year at hle hlt
  simp only [firstNanos, lastNanos, daysBeforeYear, day, nanosPerDay] at *
  omega

theorem monthLength_le (leap : Bool) (month : Nat) : monthLength leap month ≤ 31 := by
  unfold monthLength
  split
  · cases leap <;> decide
  all_goals decide

theorem nanoOfDay_lt (t : Instant) : t.nanoOfDay < 86400000000000 := by
  rw [nanoOfDay, nanosPerDay]
  omega

/-- What the stamp of an instant says. -/
def parts (t : Instant) : StampParts where
  year := t.date.year
  month := t.date.month
  day := t.date.day
  hour := t.nanoOfDay / 1000000000 / 3600
  minute := t.nanoOfDay / 1000000000 / 60 % 60
  second := t.nanoOfDay / 1000000000 % 60 + t.leap.toNat
  nanos := t.nanoOfDay % 1000000000
  offset := 0

theorem readParts_stampText (t : Instant) : readParts t.stampText = .ok (t.parts, []) := by
  have htext : t.stampText = yearText t.date.year ++ '-' :: (padded 2 t.parts.month ++ '-' ::
      (padded 2 t.parts.day ++ 'T' ::
        (padded 2 t.parts.hour ++ ':' :: (padded 2 t.parts.minute ++ ':' ::
        (padded 2 t.parts.second ++ (fractionText t.parts.nanos ++ ['Z'])))))) := by
    simp [stampText, dateText, clockText, parts]
  have hhyphen (s : List Char) : Undigited ('-' :: s) := undigited_cons (by decide) s
  have hcolon (s : List Char) : Undigited (':' :: s) := undigited_cons (by decide) s
  have hday_le : t.parts.day ≤ 31 := t.date.day_le.trans (monthLength_le ..)
  have hclock := t.nanoOfDay_lt
  have hhour_le : t.nanoOfDay / 1000000000 / 3600 ≤ 23 := by omega
  have hminute_le : t.nanoOfDay / 1000000000 / 60 % 60 ≤ 59 := by omega
  have hleap_le := t.leap.toNat_le
  have hsecond_le : t.nanoOfDay / 1000000000 % 60 + t.leap.toNat ≤ 60 := by omega
  obtain ⟨hfirst, hlast⟩ := t.year_bounds
  have hyear (s : List Char) :
      readYear (yearText t.date.year ++ '-' :: s) = .ok (t.date.year, '-' :: s) :=
    readYear_yearText (by omega) (by omega) (hhyphen s)
  have hmonth (s : List Char) :
      readField 1 12 (padded 2 t.parts.month ++ '-' :: s) = .ok (t.parts.month, '-' :: s) :=
    readField_padded t.date.month_pos t.date.month_le (by decide) (hhyphen s)
  have hday (s : List Char) :
      readField 1 31 (padded 2 t.parts.day ++ 'T' :: s) = .ok (t.parts.day, 'T' :: s) :=
    readField_padded t.date.day_pos hday_le (by decide) (undigited_cons (by decide) s)
  have hhour (s : List Char) :
      readField 0 23 (padded 2 t.parts.hour ++ ':' :: s) = .ok (t.parts.hour, ':' :: s) :=
    readField_padded (Nat.zero_le _) hhour_le (by decide) (hcolon s)
  have hminute (s : List Char) :
      readField 0 59 (padded 2 t.parts.minute ++ ':' :: s) = .ok (t.parts.minute, ':' :: s) :=
    readField_padded (Nat.zero_le _) hminute_le (by decide) (hcolon s)
  have hnanos_lt : t.nanoOfDay % 1000000000 < 1000000000 := Nat.mod_lt _ (by decide)
  have hsecond : readField 0 60 (padded 2 t.parts.second ++ (fractionText t.parts.nanos ++ ['Z'])) =
      .ok (t.parts.second, fractionText t.parts.nanos ++ ['Z']) :=
    readField_padded (Nat.zero_le _) hsecond_le (by decide) (undigited_fractionText hnanos_lt)
  have hnanos : readFraction (fractionText t.parts.nanos ++ ['Z']) = .ok (t.parts.nanos, ['Z']) :=
    readFraction_fractionText hnanos_lt
  have hoffset : readOffset (dropBlanks ['Z']) = .ok (0, []) := rfl
  have hhyphenMark (s : List Char) : readMark '-' ('-' :: s) = .ok s := readMark_cons (by decide) s
  have hcolonMark (s : List Char) : readMark ':' (':' :: s) = .ok s := readMark_cons (by decide) s
  simp only [readParts, htext, hyear, hmonth, hday, hhour, hminute, hsecond, hnanos, hoffset,
    hhyphenMark, hcolonMark, readDivider, bind, Except.bind, true_or, if_true]
  rfl

theorem ofParts?_date (d : Date) : Date.ofParts? d.year d.month d.day = some d := by
  rw [Date.ofParts?, dif_pos ⟨⟨d.month_pos, d.month_le⟩, d.day_pos, d.day_le⟩]

/-- The second 60 is that of a leap second. -/
theorem second_parts (t : Instant) : t.parts.second = 60 ↔ t.leap = true := by
  have hsecond : t.nanoOfDay / 1000000000 % 60 < 60 := Nat.mod_lt _ (by decide)
  cases ht : t.leap with
  | false =>
    simp only [parts, ht, Bool.toNat_false, Bool.false_eq_true, iff_false]
    omega
  | true =>
    have hends := (t.endsMinute ht).1
    simp only [parts, ht, Bool.toNat_true, nanoOfDay, nanosPerDay, iff_true]
    omega

/-- Without the leap second it is the second of the minute. -/
theorem min_second_parts (t : Instant) : min t.parts.second 59 = t.nanoOfDay / 1000000000 % 60 := by
  have hsecond : t.nanoOfDay / 1000000000 % 60 < 60 := Nat.mod_lt _ (by decide)
  cases ht : t.leap with
  | false =>
    simp only [parts, ht, Bool.toNat_false]
    omega
  | true =>
    have hsixty : t.nanoOfDay / 1000000000 % 60 + t.leap.toNat = 60 := t.second_parts.mpr ht
    rw [ht, Bool.toNat_true] at hsixty
    simp only [parts, ht, Bool.toNat_true]
    omega

theorem instant_parts (t : Instant) : t.parts.instant = .ok t := by
  have hdate : Date.ofParts? t.parts.year t.parts.month t.parts.day = some t.date :=
    ofParts?_date t.date
  have htoDay : t.date.toDay = t.day := Date.toDay_ofDay t.day
  have hread : (if t.parts.second = 60 then ofLeapNanos? else ofNanos?) t.nanos = some t := by
    split
    · exact ofLeapNanos?_nanos (t.second_parts.mp ‹_›)
    · exact ofNanos?_nanos (Bool.eq_false_iff.mpr (mt t.second_parts.mpr ‹_›))
  have hclock :
      (((t.parts.hour : Int) * 60 + t.parts.minute) * 60 + (min t.parts.second 59 : Nat)) *
        1000000000 +
      t.parts.nanos = t.nanoOfDay := by
    rw [min_second_parts]
    simp only [parts]
    omega
  have hhere : t.day * nanosPerDay + t.nanoOfDay = t.nanos := by
    rw [day, nanoOfDay, nanosPerDay]
    omega
  have hoffset : t.parts.offset = 0 := rfl
  have hrange : ¬ (t.nanos < firstNanos ∨ lastNanos < t.nanos ∨ Int.natAbs 0 ≥ 86400) := by
    rintro (h | h | h)
    · exact absurd t.first_le (Int.not_le.mpr h)
    · exact absurd t.le_last (Int.not_le.mpr h)
    · exact absurd h (by decide)
  simp only [StampParts.instant, hdate, htoDay, hclock, hhere, hoffset, if_neg hrange,
    Int.zero_mul, Int.sub_zero, hread]

/-- The stamp of an instant is read as the instant. -/
theorem read_stampText (t : Instant) : read t.stampText = .ok t := by
  have hparts := readParts_stampText t
  simp [read, hparts, bind, Except.bind, dropBlanks, instant_parts]

end Instant

end Timetable
