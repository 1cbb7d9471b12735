/-!
# Hexadecimal digits

Numbers written with sixteen digits, the letters in lower case. Reading takes both cases. A numeral
of fixed width keeps a number's last digits, so that reading it back gives the number modulo a power
of sixteen.
-/
namespace Timetable.Text

/-- The value of a digit, in either case. -/
def hexValue? (c : Char) : Option Nat :=
  let n := c.toNat
  if 0x30 ≤ n ∧ n ≤ 0x39 then some (n - 0x30)
  else if 0x41 ≤ n ∧ n ≤ 0x46 then some (n - 0x37)
  else if 0x61 ≤ n ∧ n ≤ 0x66 then some (n - 0x57)
  else none

/-- The last digits of a number, so many of them. -/
def hexDigits : Nat → Nat → List Char
  | 0, _ => []
  | width + 1, n => hexDigits width (n / 16) ++ [Nat.digitChar (n % 16)]

/-- The number that the digits continue, given what precedes them. -/
def ofHexAfter? (start : Nat) : List Char → Option Nat
  | [] => some start
  | c :: cs => (hexValue? c).bind fun d => ofHexAfter? (start * 16 + d) cs

/-- The number that the digits denote; none where something else stands among them. -/
def ofHex? (digits : List Char) : Option Nat := ofHexAfter? 0 digits

theorem hexValue?_digitChar {n : Nat} (h : n < 16) : hexValue? (Nat.digitChar n) = some n := by
  have : ∀ i : Fin 16, hexValue? (Nat.digitChar i) = some i.val := by decide
  exact this ⟨n, h⟩

@[simp] theorem length_hexDigits (width n : Nat) : (hexDigits width n).length = width := by
  induction width generalizing n with
  | zero => rfl
  | succ width ih => simp [hexDigits, ih]

theorem ofHexAfter?_append (start : Nat) (xs ys : List Char) :
    ofHexAfter? start (xs ++ ys) = (ofHexAfter? start xs).bind fun n => ofHexAfter? n ys := by
  induction xs generalizing start with
  | nil => rfl
  | cons c xs ih =>
    simp only [List.cons_append, ofHexAfter?]
    cases hexValue? c with
    | none => rfl
    | some d => exact ih _

theorem ofHexAfter?_hexDigits (start width n : Nat) :
    ofHexAfter? start (hexDigits width n) =
      some (start * Nat.pow 16 width + n % Nat.pow 16 width) := by
  induction width generalizing n with
  | zero => simp [hexDigits, ofHexAfter?, Nat.mod_one]
  | succ width ih =>
    have h : n % Nat.pow 16 (width + 1) = n / 16 % Nat.pow 16 width * 16 + n % 16 := by
      show n % (Nat.pow 16 width * 16) = _
      rw [Nat.mul_comm (Nat.pow 16 width), Nat.mod_mul]; omega
    simp only [hexDigits, ofHexAfter?_append, ih, Option.bind_some, ofHexAfter?,
      hexValue?_digitChar (Nat.mod_lt n (by decide : 0 < 16)), h]
    rw [Nat.add_mul, Nat.mul_assoc, Nat.add_assoc]
    rfl

/-- A numeral of fixed width denotes the number that it was made from, as far as its digits go. -/
theorem ofHex?_hexDigits (width n : Nat) :
    ofHex? (hexDigits width n) = some (n % Nat.pow 16 width) := by
  simp [ofHex?, ofHexAfter?_hexDigits]

end Timetable.Text
