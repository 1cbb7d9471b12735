import Timetable.TaskId

/-!
# Reading identifiers

Accepts thirty-two digits with or without the hyphens between their groups, and the hyphenated form
in braces or after `urn:uuid:`. Anything else is refused with the first thing that is wrong with it.
-/
namespace Timetable.TaskId

open Text

/-- Why a text is no identifier. Positions and lengths are counted in bytes. -/
inductive IdFault where
  | badCharacter (c : Char) (position : Nat)
  | badLength (found : Nat)
  | badGroupCount (found : Nat)
  | badGroupLength (group expected found : Nat)
deriving DecidableEq, Repr

/-- The sentence for a fault. -/
def IdFault.message : IdFault → String
  | badCharacter c position =>
    "invalid character: found `" ++ c.toString ++ "` at " ++ toString position
  | badLength found =>
    "invalid length: expected length 32 for simple format, found " ++ toString found
  | badGroupCount found => "invalid group count: expected 5, found " ++ toString found
  | badGroupLength group expected found =>
    "invalid group length in group " ++ toString group ++ ": expected " ++ toString expected ++
      ", found " ++ toString found

/-- What an identifier may be wrapped in. -/
inductive Wrapping where
  | bare
  | braces
  | urn
deriving DecidableEq, Repr

/-- The bytes of the wrapping that stand before the identifier. -/
def Wrapping.width : Wrapping → Nat
  | bare => 0
  | braces => 1
  | urn => 9

/-- The text inside its wrapping. -/
def unwrap (s : List Char) : Wrapping × List Char :=
  if s.head? = some '\x7b' ∧ s.getLast? = some '\x7d' ∧ 2 ≤ s.length then
    (.braces, (s.drop 1).dropLast)
  else if s.take 9 = "urn:uuid:".toList then (.urn, s.drop 9)
  else (.bare, s)

/-- The digits of a text in groups; the hyphens stand at fixed places. -/
def ungrouped? (s : List Char) : Option (List Char) :=
  if s.length = 36 ∧ s[8]? = some '-' ∧ s[13]? = some '-' ∧ s[18]? = some '-' ∧
    s[23]? = some '-' then
    some (s.take 8 ++ (s.drop 9).take 4 ++ (s.drop 14).take 4 ++ (s.drop 19).take 4 ++ s.drop 24)
  else none

/-- The identifier that a text denotes, if it is one. -/
def ofText? (s : List Char) : Option TaskId :=
  let digits := match unwrap s with
    | (.bare, t) => if t.length = 32 then some t else ungrouped? t
    | (_, t) => ungrouped? t
  (digits.bind ofHex?).map ofNat

/-- The bytes of a text. -/
def byteLength (s : List Char) : Nat := s.foldr (fun c n => c.utf8Size + n) 0

/-- The first character that is neither a digit nor a hyphen, if there is one; otherwise the places
of the hyphens. Places are counted from the one given. -/
def scan (position : Nat) : List Char → Except IdFault (List Nat)
  | [] => .ok []
  | c :: s =>
    if c = '-' then (scan (position + 1) s).map (position :: ·)
    else if (hexValue? c).isNone then .error (.badCharacter c position)
    else scan (position + c.utf8Size) s

/-- The first group that is too short or too long; the last one, if the others are not. -/
def groupFault (hyphens : List Nat) (length : Nat) : IdFault :=
  let groups := [(0, 0, 8), (1, 9, 4), (2, 14, 4), (3, 19, 4)]
  match (groups.zip hyphens).find? fun ((_, start, size), hyphen) => hyphen ≠ start + size with
  | some ((group, start, size), hyphen) => .badGroupLength group size (hyphen - start)
  | none => .badGroupLength 4 12 (length - 24)

/-- What is wrong with a text that is no identifier. -/
def faultOf (s : List Char) : IdFault :=
  let (wrapping, t) := unwrap s
  match scan wrapping.width t with
  | .error fault => fault
  | .ok hyphens =>
    if hyphens.isEmpty ∧ wrapping = .bare then .badLength (byteLength s)
    else if hyphens.length ≠ 4 then .badGroupCount (hyphens.length + 1)
    else groupFault (hyphens.map (· - wrapping.width)) (byteLength s)

/-- The identifier that a text denotes. -/
def read (s : List Char) : Except IdFault TaskId :=
  match ofText? s with
  | some id => .ok id
  | none => .error (faultOf s)

end Timetable.TaskId
