import Timetable.Text.Hex

/-!
# Strings of JSON

A string is read one character at a time. Code points beyond the sixteen-bit plane are escaped as
two surrogates, the leading one first. A surrogate that stands alone is well written but means
nothing; what is wrong with it is told only where the string is used.
-/
namespace Timetable.Json

open Text

/-- What is wrong with an escaped surrogate. -/
inductive EscapeFault where
  /-- A trailing surrogate without a leading one, or a leading one before another escape. -/
  | loneSurrogate
  /-- A leading surrogate before something else. -/
  | endsEarly
deriving DecidableEq, Repr

/-- The sentence for a fault. -/
def EscapeFault.message : EscapeFault → String
  | loneSurrogate => "lone leading surrogate in hex escape"
  | endsEarly => "unexpected end of hex escape"

/-- A string, or the first fault in it. -/
inductive Quotation where
  | sound (s : String)
  | faulty (f : EscapeFault)
deriving DecidableEq, Repr

/-- The string, if it is sound. -/
def Quotation.sound? : Quotation → Option String
  | sound s => some s
  | faulty _ => none

/-- Where the reading of a string stands. -/
inductive Escape where
  | outside
  /-- Behind a backslash. -/
  | opened
  /-- Behind `\u`, with so many digits still to come and the value of the others. -/
  | digits (missing value : Nat)
deriving DecidableEq, Repr

/-- The part of a string that has been read. -/
structure QuotationState where
  /-- The characters, the last one first. -/
  chars : List Char := []
  /-- The first fault met. -/
  fault : Option EscapeFault := none
  /-- A leading surrogate that waits for its partner. -/
  leading : Option Nat := none
  escape : Escape := .outside

namespace QuotationState

/-- The state after a fault, of which only the first counts. -/
def flag (q : QuotationState) (f : EscapeFault) : QuotationState :=
  { q with fault := q.fault.or (some f), leading := none }

/-- The state when anything but an escaped code unit follows. -/
def unpaired (q : QuotationState) : QuotationState :=
  if q.leading.isSome then q.flag .endsEarly else q

/-- The state after one more character. -/
def push (q : QuotationState) (c : Char) : QuotationState :=
  { q with chars := c :: q.chars, escape := .outside }

/-- The code point of two surrogates. -/
def combine (high low : Nat) : Nat := 0x10000 + (high - 0xD800) * 0x400 + (low - 0xDC00)

/-- The state after an escaped code unit of sixteen bits. -/
def pushUnit (q : QuotationState) (u : Nat) : QuotationState :=
  let q := { q with escape := .outside }
  match q.leading with
  | some high =>
    if 0xDC00 ≤ u ∧ u ≤ 0xDFFF then
      { q with leading := none }.push (Char.ofNat (combine high u))
    else q.flag .loneSurrogate
  | none =>
    if 0xD800 ≤ u ∧ u ≤ 0xDBFF then { q with leading := some u }
    else if 0xDC00 ≤ u ∧ u ≤ 0xDFFF then q.flag .loneSurrogate
    else q.push (Char.ofNat u)

/-- The character that an escape by a single letter stands for. -/
def escaped? : Char → Option Char
  | '"' => some '"'
  | '\\' => some '\\'
  | '/' => some '/'
  | 'b' => some '\x08'
  | 'f' => some '\x0c'
  | 'n' => some '\n'
  | 'r' => some '\r'
  | 't' => some '\t'
  | _ => none

/-- The state after a character that does not end the string; none if it cannot stand there. -/
def read? (q : QuotationState) (c : Char) : Option QuotationState :=
  match q.escape with
  | .outside =>
    if c = '\\' then some { q with escape := .opened }
    else if c.toNat < 0x20 then none
    else some (q.unpaired.push c)
  | .opened =>
    if c = 'u' then some { q with escape := .digits 4 0 }
    else (escaped? c).map q.unpaired.push
  | .digits missing value =>
    (hexValue? c).map fun d =>
      if missing ≤ 1 then q.pushUnit (value * 16 + d)
      else { q with escape := .digits (missing - 1) (value * 16 + d) }

/-- Whether a quotation mark ends the string. -/
def endsAtMark (q : QuotationState) : Bool := q.escape = .outside

/-- The string that has been read. -/
def result (q : QuotationState) : Quotation :=
  let q := q.unpaired
  match q.fault with
  | some f => .faulty f
  | none => .sound (String.ofList q.chars.reverse)

end QuotationState

/-- How a character stands inside the quotation marks. -/
def quotedChar (c : Char) : List Char :=
  if c = '"' then ['\\', '"']
  else if c = '\\' then ['\\', '\\']
  else if c = '\x08' then ['\\', 'b']
  else if c = '\x0c' then ['\\', 'f']
  else if c = '\n' then ['\\', 'n']
  else if c = '\r' then ['\\', 'r']
  else if c = '\t' then ['\\', 't']
  else if c.toNat < 0x20 then '\\' :: 'u' :: hexDigits 4 c.toNat
  else [c]

/-- The string in quotation marks. -/
def quote (s : String) : List Char := '"' :: s.toList.flatMap quotedChar ++ ['"']

end Timetable.Json
