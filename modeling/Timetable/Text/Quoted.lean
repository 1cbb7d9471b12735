import Timetable.Text.Hex
import Timetable.Text.Hidden
import Timetable.Text.Utf8

/-!
# Quoted text

A text in double quotes, as messages show it: quotes and backslashes are escaped by a backslash, the
common controls by a letter, and every other character that a reader cannot see by its code point in
braces.
-/
namespace Timetable.Text

/-- A hexadecimal numeral in lower case. -/
def hexNumeral (n : Nat) : List Char := Nat.toDigits 16 n

/-- How a character stands inside the quotes. -/
def quotedChar (c : Char) : List Char :=
  if c = '"' then ['\\', '"']
  else if c = '\\' then ['\\', '\\']
  else if c = '\n' then ['\\', 'n']
  else if c = '\r' then ['\\', 'r']
  else if c = '\t' then ['\\', 't']
  else if c = '\x00' then ['\\', '0']
  else if ' ' ≤ c && c ≤ '~' then [c]
  else if isHidden c then '\\' :: 'u' :: '\x7b' :: hexNumeral c.toNat ++ ['\x7d']
  else [c]

/-- The text in double quotes. -/
def quoted (s : String) : String :=
  String.ofList ('"' :: s.toList.flatMap quotedChar ++ ['"'])

/-- How a piece of a byte string stands inside the quotes: here an apostrophe is escaped too, and a
byte that belongs to no character is shown by two digits in upper case. -/
def quotedPiece : Char ⊕ UInt8 → List Char
  | .inl c => if c = '\'' then ['\\', '\''] else quotedChar c
  | .inr b => '\\' :: 'x' :: (hexDigits 2 b.toNat).map Char.toUpper

/-- A byte string in double quotes. -/
def quotedBytes (bytes : List UInt8) : String :=
  String.ofList ('"' :: (pieces bytes).flatMap quotedPiece ++ ['"'])

end Timetable.Text
