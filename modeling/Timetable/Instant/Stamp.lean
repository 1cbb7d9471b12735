import Timetable.Instant
import Timetable.Text.Decimal

/-!
# Time stamps

The written form of an instant, always in UTC: `2024-05-15T14:30:00.250Z` for machines and
`2024-05-15 14:30:00.250 UTC` inside sentences. The fraction has the fewest of 0, 3, 6 or 9 digits
that lose nothing. Years outside 0 to 9999 carry a sign. A leap second is the second 60 of its
minute.
-/
namespace Timetable.Instant

open Text

/-- The digits of a year, with a sign unless it lies between 0 and 9999. -/
def yearText (year : Int) : List Char :=
  if year < 0 then '-' :: padded 4 year.natAbs
  else if year ≤ 9999 then padded 4 year.toNat
  else '+' :: padded 4 year.toNat

/-- The point and the digits of a fraction of a second; nothing for a whole second. -/
def fractionText (nanos : Nat) : List Char :=
  if nanos = 0 then []
  else if nanos % 1000000 = 0 then '.' :: padded 3 (nanos / 1000000)
  else if nanos % 1000 = 0 then '.' :: padded 6 (nanos / 1000)
  else '.' :: padded 9 nanos

/-- Year, month and day, joined by hyphens. -/
def dateText (d : Date) : List Char :=
  yearText d.year ++ '-' :: padded 2 d.month ++ '-' :: padded 2 d.day

/-- Hours, minutes and seconds, joined by colons, and the fraction. -/
def clockText (nanoOfDay : Nat) (leap : Bool) : List Char :=
  let seconds := nanoOfDay / 1000000000
  padded 2 (seconds / 3600) ++ ':' :: padded 2 (seconds / 60 % 60) ++ ':' ::
    padded 2 (seconds % 60 + leap.toNat) ++ fractionText (nanoOfDay % 1000000000)

/-- The characters of the machine form. -/
def stampText (t : Instant) : List Char :=
  dateText t.date ++ 'T' :: clockText t.nanoOfDay t.leap ++ ['Z']

/-- The machine form: `T` between date and time, `Z` at the end. -/
def stamp (t : Instant) : String := String.ofList t.stampText

/-- The form used in sentences: a blank between date and time, `UTC` at the end. -/
def inWords (t : Instant) : String :=
  String.ofList (dateText t.date ++ ' ' :: clockText t.nanoOfDay t.leap ++ " UTC".toList)

end Timetable.Instant
