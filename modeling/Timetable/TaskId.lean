import Timetable.Text.Hex

/-!
# Task identifiers

An identifier is 128 bits. It is written as thirty-two hexadecimal digits in groups of eight, four,
four, four and twelve, and identifiers are ordered as numbers.
-/
namespace Timetable

open Text

/-- What tells one task from another. -/
structure TaskId where
  bits : BitVec 128
deriving DecidableEq, Repr

namespace TaskId

/-- The identifier of that number. -/
def ofNat (n : Nat) : TaskId := ⟨BitVec.ofNat 128 n⟩

instance : Inhabited TaskId := ⟨ofNat 0⟩

/-- Identifiers are ordered as numbers. -/
instance : LE TaskId := ⟨fun a b => a.bits.toNat ≤ b.bits.toNat⟩

instance (a b : TaskId) : Decidable (a ≤ b) :=
  inferInstanceAs (Decidable (a.bits.toNat ≤ b.bits.toNat))

/-- The thirty-two digits. -/
def digits (id : TaskId) : List Char := hexDigits 32 id.bits.toNat

/-- Digits in their groups. -/
def grouped (digits : List Char) : List Char :=
  digits.take 8 ++ '-' :: (digits.drop 8).take 4 ++ '-' :: (digits.drop 12).take 4 ++
    '-' :: (digits.drop 16).take 4 ++ '-' :: digits.drop 20

/-- The written form. -/
def text (id : TaskId) : String := String.ofList (grouped id.digits)

theorem ofHex?_digits (id : TaskId) : ofHex? id.digits = some id.bits.toNat := by
  rw [digits, ofHex?_hexDigits]
  congr 1
  exact Nat.mod_eq_of_lt (Nat.lt_of_lt_of_eq id.bits.isLt (by decide))

end TaskId

end Timetable
