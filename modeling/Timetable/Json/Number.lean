import Timetable.Json.Numeral
import Timetable.Span

/-!
# Numbers of JSON

A numeral without point or exponent denotes a whole number, if it fits a 64-bit word; everything
else denotes a floating-point number. Of its digits as many count as fit a word together; they are
converted and then scaled by the power of ten that the point and the exponent give.
-/
namespace Timetable.Json

/-- The number that a numeral denotes. -/
inductive Number where
  | natural (n : Nat)
  /-- A number below zero, by its distance from zero. -/
  | negative (n : Nat)
  | float (f : Float)

namespace Numeral

/-- The value of the first digits, as far as it fits a word, and the digits that do not count. -/
def significand (value : Nat) : List Char → Nat × List Char
  | [] => (value, [])
  | c :: cs =>
    let next := value * 10 + (c.toNat - '0'.toNat)
    if next < wordLimit then significand next cs else (value, c :: cs)

/-- Largest power of ten that scales in one step. -/
def largestPower : Nat := 308

/-- A power of ten up to the largest. -/
def powerOfTen (n : Nat) : Float := Float.ofScientific 1 false n

/-- A number divided by a power of ten, in steps. -/
def scaleDown (f : Float) (power : Nat) : Float :=
  if power ≤ largestPower then f / powerOfTen power
  else if f == 0 then f
  else scaleDown (f / powerOfTen largestPower) (power - largestPower)
termination_by power
decreasing_by simp only [largestPower] at *; omega

/-- A number times a power of ten; none past the largest floating-point number. -/
def scale? (f : Float) (power : Int) : Option Float :=
  if power < 0 then some (scaleDown f power.natAbs)
  else if power.toNat ≤ largestPower then
    let g := f * powerOfTen power.toNat
    if g.isInf then none else some g
  else if f == 0 then some f else none

/-- The exponent as far as it is told apart: none for one of more than 31 bits. -/
def smallExponent? (digits : List Char) : Option Nat :=
  let n := Text.ofDigits digits
  if n < 2147483648 then some n else none

/-- The size of the number as a floating-point number; none past the largest. -/
def magnitude? (n : Numeral) : Option Float :=
  let (whole, excess) := significand 0 n.whole
  let fraction := n.fraction.getD []
  let (value, unread) := significand whole fraction
  let power : Int := excess.length - (fraction.length - unread.length : Nat)
  let f := value.toUInt64.toFloat
  match n.exponent with
  | none => scale? f power
  | some (isNegative, digits) =>
    match smallExponent? digits with
    | some e =>
      let total := if isNegative then power - e else power + e
      scale? f (max (-2147483648) (min total 2147483647))
    | none => if value ≠ 0 ∧ isNegative = false then none else some 0

/-- The number that the numeral denotes; none past the largest floating-point number. -/
def number? (n : Numeral) : Option Number :=
  let float := n.magnitude?.map fun f => Number.float (if n.isNegative then -f else f)
  let (value, excess) := significand 0 n.whole
  if n.fraction.isNone ∧ n.exponent.isNone ∧ excess.isEmpty then
    if !n.isNegative then some (.natural value)
    else if 0 < value ∧ value ≤ 9223372036854775808 then some (.negative value)
    else float
  else float

end Numeral

end Timetable.Json
