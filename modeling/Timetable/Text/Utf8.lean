/-!
# UTF-8

Bytes read as text. Where no character starts, one byte is passed over and reading goes on behind
it, so that any bytes at all come apart into characters and stray bytes.
-/
namespace Timetable.Text

/-- The payload of a byte that continues a character. -/
def continuation? (b : UInt8) : Option Nat :=
  if 0x80 ≤ b.toNat ∧ b.toNat < 0xC0 then some (b.toNat - 0x80) else none

/-- The payloads of the first bytes, so many of them, as one number, and the bytes behind them. -/
def continuations? : Nat → Nat → List UInt8 → Option (Nat × List UInt8)
  | 0, value, bytes => some (value, bytes)
  | _ + 1, _, [] => none
  | n + 1, value, b :: bytes =>
    (continuation? b).bind fun d => continuations? n (value * 64 + d) bytes

/-- How many bytes continue the character that a byte starts, the byte's own payload, and the least
code point that needs so many bytes. -/
def leading? (b : UInt8) : Option (Nat × Nat × Nat) :=
  let n := b.toNat
  if n < 0x80 then some (0, n, 0)
  else if 0xC0 ≤ n ∧ n < 0xE0 then some (1, n - 0xC0, 0x80)
  else if 0xE0 ≤ n ∧ n < 0xF0 then some (2, n - 0xE0, 0x800)
  else if 0xF0 ≤ n ∧ n < 0xF8 then some (3, n - 0xF0, 0x10000)
  else none

/-- The character at the front, and the bytes behind it. -/
def frontChar? : List UInt8 → Option (Char × List UInt8)
  | [] => none
  | b :: bytes =>
    (leading? b).bind fun (more, payload, least) =>
      (continuations? more payload bytes).bind fun (value, rest) =>
        if h : value.isValidChar ∧ least ≤ value then some (Char.ofNatAux value h.1, rest) else none

theorem length_continuations? {n value result : Nat} {bytes rest : List UInt8}
    (h : continuations? n value bytes = some (result, rest)) : rest.length ≤ bytes.length := by
  induction n generalizing value bytes with
  | zero => simp only [continuations?, Option.some.injEq, Prod.mk.injEq] at h; simp [h.2]
  | succ n ih =>
    cases bytes with
    | nil => simp [continuations?] at h
    | cons b bytes =>
      simp only [continuations?, Option.bind_eq_some_iff] at h
      obtain ⟨d, _, hd⟩ := h
      exact Nat.le_succ_of_le (ih hd)

theorem length_frontChar? {bytes rest : List UInt8} {c : Char}
    (h : frontChar? bytes = some (c, rest)) : rest.length < bytes.length := by
  cases bytes with
  | nil => simp [frontChar?] at h
  | cons b bytes =>
    obtain ⟨⟨more, payload, least⟩, -, h⟩ := Option.bind_eq_some_iff.mp h
    obtain ⟨⟨value, behind⟩, hbehind, h⟩ := Option.bind_eq_some_iff.mp h
    obtain ⟨_, h⟩ := Option.dite_none_right_eq_some.mp h
    have hrest : behind = rest := (Prod.mk.inj (Option.some.inj h)).2
    have := length_continuations? hbehind
    rw [List.length_cons, ← hrest]
    omega

/-- The characters among the bytes, and the bytes that belong to none. -/
def pieces (bytes : List UInt8) : List (Char ⊕ UInt8) :=
  match bytes with
  | [] => []
  | b :: more =>
    match _h : frontChar? (b :: more) with
    | some (c, rest) => .inl c :: pieces rest
    | none => .inr b :: pieces more
termination_by bytes.length
decreasing_by
  · exact length_frontChar? _h
  · simp

/-- The text that the bytes hold, if they hold one. -/
def ofBytes? (bytes : List UInt8) : Option (List Char) :=
  (pieces bytes).mapM fun
    | .inl c => some c
    | .inr _ => none

end Timetable.Text
