import Timetable.Text.Decimal

/-!
# Numerals of JSON

A numeral keeps its digits: a sign, a whole part without needless zeros, and perhaps a fraction and
an exponent. What number it denotes is another question, which only arises where the number is used.
-/
namespace Timetable.Json

open Text

/-- A numeral as it is written. -/
structure Numeral where
  isNegative : Bool := false
  whole : List Char
  /-- The digits behind the point. -/
  fraction : Option (List Char) := none
  /-- Whether the exponent is negative, and its digits. -/
  exponent : Option (Bool × List Char) := none
deriving DecidableEq, Repr

namespace Numeral

/-- The characters that occur in numerals. -/
def isPart (c : Char) : Bool :=
  c.isDigit || c == '-' || c == '+' || c == '.' || c == 'e' || c == 'E'

/-- At least one digit, and what follows the digits. -/
def digits? (s : List Char) : Option (List Char × List Char) :=
  let digits := s.takeWhile Char.isDigit
  if digits.isEmpty then none else some (digits, s.dropWhile Char.isDigit)

/-- A fraction, if a point comes next. -/
def fraction? : List Char → Option (Option (List Char) × List Char)
  | '.' :: s => (digits? s).map fun (digits, s) => (some digits, s)
  | s => some (none, s)

/-- The digits of an exponent after its sign. -/
def signedExponent? (isNegative : Bool) (s : List Char) : Option (Option (Bool × List Char)) :=
  match digits? s with
  | some (digits, []) => some (some (isNegative, digits))
  | _ => none

/-- An exponent, if anything comes next, up to the end. -/
def exponent? : List Char → Option (Option (Bool × List Char))
  | [] => some none
  | c :: s =>
    if c = 'e' ∨ c = 'E' then
      match s with
      | '-' :: s => signedExponent? true s
      | '+' :: s => signedExponent? false s
      | s => signedExponent? false s
    else none

/-- A numeral without its sign. -/
def unsigned? (isNegative : Bool) (s : List Char) : Option Numeral := do
  let (whole, s) ← digits? s
  if whole.head? = some '0' ∧ whole.length ≠ 1 then none
  let (fraction, s) ← fraction? s
  let exponent ← exponent? s
  return { isNegative, whole, fraction, exponent }

/-- The numeral that the characters are, if they are one. -/
def ofText? : List Char → Option Numeral
  | '-' :: s => unsigned? true s
  | s => unsigned? false s

/-- The numeral of a natural number. -/
def ofNat (n : Nat) : Numeral := { whole := numeral n }

/-- The written form. -/
def text (n : Numeral) : List Char :=
  (if n.isNegative then ['-'] else []) ++ n.whole ++
    (n.fraction.elim [] fun digits => '.' :: digits) ++
    (n.exponent.elim [] fun (isNegative, digits) =>
      'e' :: (if isNegative then ['-'] else []) ++ digits)

end Numeral

end Timetable.Json
