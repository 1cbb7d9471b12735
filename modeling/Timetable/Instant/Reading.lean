import Timetable.Instant.Stamp
import Timetable.Text.Blank

/-!
# Reading time stamps

Accepts every stamp that `Instant.stamp` writes, and more: one-digit fields, blanks before a field
or a separator, a blank in place of the `T`, lower case, and an offset from UTC such as `+05:30`,
which is subtracted. A year without a sign has at most four digits. Digits beyond the ninth of a
fraction are dropped. The second 60 of any minute is a leap second.
-/
namespace Timetable.Instant

open Text

/-- Why a text is not a time stamp. -/
inductive StampFault where
  | ends
  | unexpected
  | outOfRange
  | trailing
  | noSuchInstant
deriving DecidableEq, Repr

/-- The sentence for a fault. -/
def StampFault.message : StampFault → String
  | ends => "premature end of input"
  | unexpected => "input contains invalid characters"
  | outOfRange => "input is out of range"
  | trailing => "trailing input"
  | noSuchInstant => "no possible date and time matching input"

/-! Each part is read from the front of a text and returned with the rest of it. -/

/-- A run of at least one digit and, if a bound is given, at most that many. -/
def readNumber (bound : Option Nat) (s : List Char) : Except StampFault (Nat × List Char) :=
  let digits := (s.take (bound.getD s.length)).takeWhile Char.isDigit
  match s, digits with
  | [], _ => .error .ends
  | _ :: _, [] => .error .unexpected
  | _ :: _, digits =>
    if ofDigits digits < 9223372036854775808 then .ok (ofDigits digits, s.drop digits.length)
    else .error .outOfRange

/-- A number of at most two digits between the bounds, after any blanks. -/
def readField (low high : Nat) (s : List Char) : Except StampFault (Nat × List Char) := do
  let (n, s) ← readNumber (some 2) (dropBlanks s)
  if low ≤ n ∧ n ≤ high then .ok (n, s) else .error .outOfRange

/-- A year: four digits at most, or a sign and any number of digits. -/
def readYear (s : List Char) : Except StampFault (Int × List Char) := do
  let (year, s) ← match dropBlanks s with
    | '-' :: s => (readNumber none s).map fun (n, s) => (-(n : Int), s)
    | '+' :: s => (readNumber none s).map fun (n, s) => ((n : Int), s)
    | s => (readNumber (some 4) s).map fun (n, s) => ((n : Int), s)
  if -2147483648 ≤ year ∧ year ≤ 2147483647 then .ok (year, s) else .error .outOfRange

/-- The separator, after any blanks. -/
def readMark (mark : Char) (s : List Char) : Except StampFault (List Char) :=
  match dropBlanks s with
  | [] => .error .ends
  | c :: s => if c = mark then .ok s else .error .unexpected

/-- The mark between date and time. -/
def readDivider : List Char → Except StampFault (List Char)
  | [] => .error .ends
  | c :: s => if c = 'T' ∨ c = 't' ∨ c = ' ' then .ok s else .error .unexpected

/-- The nanoseconds of a fraction; none where no point follows. -/
def readFraction : List Char → Except StampFault (Nat × List Char)
  | '.' :: s => do
    let (n, rest) ← readNumber (some 9) s
    let width := s.length - rest.length
    .ok (n * Nat.pow 10 (9 - width), rest.dropWhile Char.isDigit)
  | s => .ok (0, s)

/-- Two digits of an offset. -/
def readPair (s : List Char) : Except StampFault (Nat × List Char) :=
  match s with
  | a :: b :: s =>
    if a.isDigit ∧ b.isDigit then .ok (ofDigits [a, b], s) else .error .unexpected
  | [a] => if a.utf8Size < 2 then .error .ends else .error .unexpected
  | [] => .error .ends

/-- Seconds that local time is ahead of UTC. -/
def readSignedOffset (ahead : Bool) (s : List Char) : Except StampFault (Int × List Char) := do
  let (hours, s) ← readPair s
  let (minutes, s) ← readPair (s.dropWhile fun c => c == ':' || isBlank c)
  if minutes < 60 then
    let seconds : Int := hours * 3600 + minutes * 60
    .ok (if ahead then seconds else -seconds, s)
  else .error .outOfRange

/-- `Z`, `UTC`, or a sign with hours and minutes. -/
def readOffset (s : List Char) : Except StampFault (Int × List Char) :=
  if (s.take 3).map Char.toUpper = ['U', 'T', 'C'] then .ok (0, s.drop 3)
  else match s with
  | [] => .error .ends
  | c :: s =>
    if c = 'Z' ∨ c = 'z' then .ok (0, s)
    else if c = '+' then readSignedOffset true s
    else if c = '-' ∨ c = '\u2212' then readSignedOffset false s
    else .error .unexpected

/-- What a stamp says before it is checked against the calendar. -/
structure StampParts where
  year : Int
  month : Nat
  day : Nat
  hour : Nat
  minute : Nat
  second : Nat
  nanos : Nat
  offset : Int

/-- The parts of a stamp and what follows it. -/
def readParts (s : List Char) : Except StampFault (StampParts × List Char) := do
  let (year, s) ← readYear s
  let s ← readMark '-' s
  let (month, s) ← readField 1 12 s
  let s ← readMark '-' s
  let (day, s) ← readField 1 31 s
  let s ← readDivider s
  let (hour, s) ← readField 0 23 s
  let s ← readMark ':' s
  let (minute, s) ← readField 0 59 s
  let s ← readMark ':' s
  let (second, s) ← readField 0 60 s
  let (nanos, s) ← readFraction s
  let (offset, s) ← readOffset (dropBlanks s)
  .ok ({ year, month, day, hour, minute, second, nanos, offset }, s)

/-- The instant that the parts describe. -/
def StampParts.instant (p : StampParts) : Except StampFault Instant :=
  match Date.ofParts? p.year p.month p.day with
  | none => .error .outOfRange
  | some date =>
    let clock : Int := ((p.hour * 60 + p.minute) * 60 + min p.second 59) * 1000000000 + p.nanos
    let here : Int := date.toDay * nanosPerDay + clock
    if here < firstNanos ∨ lastNanos < here ∨ p.offset.natAbs ≥ 86400 then .error .outOfRange
    else match (if p.second = 60 then ofLeapNanos?
      else ofNanos?) (here - p.offset * 1000000000) with
      | some t => .ok t
      | none => .error .noSuchInstant

/-- The instant that a stamp denotes; only blanks may follow the stamp. -/
def read (s : List Char) : Except StampFault Instant := do
  let (parts, rest) ← readParts s
  if (dropBlanks rest).isEmpty then parts.instant else .error .trailing

/-- The instant that a stamp denotes, if the text is a stamp. -/
def ofStamp? (s : String) : Option Instant := (read s.toList).toOption

end Timetable.Instant
