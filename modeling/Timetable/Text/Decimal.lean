/-!
# Decimal numerals

Numerals are lists of digits without sign or separators, the most significant digit first. A padded
numeral has at least the given number of digits.
-/
namespace Timetable.Text

/-- The shortest numeral of a number. -/
def numeral (n : Nat) : List Char := Nat.toDigits 10 n

/-- The numeral filled up with zeros on the left. -/
def padded (width n : Nat) : List Char :=
  List.replicate (width - (numeral n).length) '0' ++ numeral n

/-- The number that a list of digits denotes. -/
def ofDigits (digits : List Char) : Nat := Nat.ofDigitChars 10 digits 0

@[simp] theorem ofDigits_numeral (n : Nat) : ofDigits (numeral n) = n :=
  Nat.ofDigitChars_ten_toDigits

@[simp] theorem ofDigits_padded (width n : Nat) : ofDigits (padded width n) = n := by
  simp only [ofDigits, padded, Nat.ofDigitChars_append, Nat.ofDigitChars_replicate_zero,
    Nat.mul_zero]
  exact ofDigits_numeral n

theorem isDigit_of_mem_padded {width n : Nat} {c : Char} (h : c ∈ padded width n) :
    c.isDigit = true := by
  simp only [padded, List.mem_append] at h
  rcases h with h | h
  · rw [List.eq_of_mem_replicate h]; rfl
  · exact Nat.isDigit_of_mem_toDigits (by decide) (by decide) h

end Timetable.Text
