import Timetable.Text.Decimal

/-!
# The shortest numeral of a floating-point number

A finite number is written with the fewest digits that still tell it from its neighbours, and of
those with the digits nearest to it. All comparisons are exact: the number is `m * 2 ^ q` for whole
`m` and `q`, and a decimal tells it apart when it lies nearer to it than to either neighbour.
-/
namespace Timetable.Text

/-- A positive floating-point number `m * 2 ^ q`. -/
structure Binary where
  m : Nat
  q : Int
  /-- Whether the neighbour below is only half as far away as the one above. -/
  isStep : Bool
deriving DecidableEq, Repr

/-- The size of a finite number, read off its bits. -/
def Binary.ofBits (bits : Nat) : Binary :=
  let fraction := bits % Nat.pow 2 52
  let exponent := bits / Nat.pow 2 52 % Nat.pow 2 11
  if exponent = 0 then { m := fraction, q := -1074, isStep := false }
  else
    { m := Nat.pow 2 52 + fraction, q := (exponent : Int) - 1075
      isStep := fraction = 0 && 1 < exponent }

/-- A positive decimal `digits * 10 ^ exponent`. -/
structure Digits where
  digits : Nat
  exponent : Int
deriving DecidableEq, Repr

namespace Binary

/-- The number in quarters of `2 ^ q`, and the ends of the decimals that it is the nearest to. -/
def quarters (b : Binary) : Nat × Nat × Nat :=
  (4 * b.m - (if b.isStep then 1 else 2), 4 * b.m, 4 * b.m + 2)

/-- Numerator and denominator of so many quarters of `2 ^ q` in units of a power of ten. -/
def inUnits (b : Binary) (quarters : Nat) (unit : Int) : Nat × Nat :=
  (quarters * Nat.pow 2 b.q.toNat * Nat.pow 10 (-unit).toNat,
    4 * Nat.pow 2 (-b.q).toNat * Nat.pow 10 unit.toNat)

/-- The power of ten of the leading digit. -/
def magnitude (b : Binary) : Int :=
  let (num, den) := b.inUnits (4 * b.m) 0
  if den ≤ num then ((numeral (num / den)).length : Int) - 1
  else -(((List.range 400).find? fun k => den ≤ num * Nat.pow 10 k).getD 0 : Nat)

/-- Whether so many units lie nearer to the number than to its neighbours; halfway counts when
`m` is even. -/
def tells (b : Binary) (unit : Int) (a : Nat) : Bool :=
  let (low, _, high) := b.quarters
  let (lowNum, den) := b.inUnits low unit
  let (highNum, _) := b.inUnits high unit
  if b.m % 2 = 0 then lowNum ≤ a * den && a * den ≤ highNum
  else lowNum < a * den && a * den < highNum

/-- The decimal of so many digits nearest to the number, if one of them tells it apart; halfway
between two, the even one. -/
def withDigits? (b : Binary) (count : Nat) : Option Digits :=
  let unit := b.magnitude - (count - 1 : Nat)
  let (num, den) := b.inUnits (4 * b.m) unit
  let below := num / den
  match b.tells unit below, b.tells unit (below + 1) with
  | true, true =>
    let middle := (2 * below + 1) * den
    let goesDown := num * 2 < middle || (num * 2 == middle && below % 2 == 0)
    some ⟨if goesDown then below else below + 1, unit⟩
  | true, false => some ⟨below, unit⟩
  | false, true => some ⟨below + 1, unit⟩
  | false, false => none

/-- The shortest decimal that tells the number apart; seventeen digits always do. -/
def shortest (b : Binary) : Digits :=
  ((List.range 17).findSome? fun n => b.withDigits? (n + 1)).getD ⟨0, 0⟩

end Binary

/-- The digits without zeros at the end. -/
def trimZeros (s : List Char) : List Char := (s.reverse.dropWhile (· == '0')).reverse

/-- A decimal by digits and the power of ten of the first: positional from `10 ^ -5` up to below
`10 ^ 16`, and otherwise with an exponent of a sign and at least two digits. -/
def floatLayout (digits : List Char) (exponent : Int) : List Char :=
  if -5 ≤ exponent ∧ exponent < 16 then
    if exponent < 0 then
      "0.".toList ++ List.replicate (-exponent - 1).toNat '0' ++ digits
    else
      let width := exponent.toNat + 1
      digits.take width ++ List.replicate (width - digits.length) '0' ++ '.' ::
        (if digits.length ≤ width then ['0'] else digits.drop width)
  else
    digits.take 1 ++ (if digits.length ≤ 1 then [] else '.' :: digits.drop 1) ++
      'e' :: (if exponent < 0 then '-' else '+') :: padded 2 exponent.natAbs

/-- The shortest text of a finite floating-point number. -/
def floatText (f : Float) : String :=
  let bits := f.toBits.toNat
  let size := bits % Nat.pow 2 63
  let sign := if bits = size then [] else ['-']
  if size = 0 then String.ofList (sign ++ "0.0".toList)
  else
    let d := (Binary.ofBits size).shortest
    let all := numeral d.digits
    String.ofList (sign ++ floatLayout (trimZeros all) (d.exponent + all.length - 1))

end Timetable.Text
