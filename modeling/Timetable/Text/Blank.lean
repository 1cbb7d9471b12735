/-!
# Blanks

The characters that the Unicode standard gives the property `White_Space`. The zero-width space, the
byte order mark and the Mongolian vowel separator do not have it.
-/
namespace Timetable.Text

/-- Whether the character separates words. -/
def isBlank (c : Char) : Bool :=
  let n := c.toNat
  (0x09 ≤ n && n ≤ 0x0D) || n == 0x20 || n == 0x85 || n == 0xA0 || n == 0x1680 ||
    (0x2000 ≤ n && n ≤ 0x200A) || n == 0x2028 || n == 0x2029 || n == 0x202F || n == 0x205F ||
    n == 0x3000

/-- The text without the blanks it begins with. -/
def dropBlanks (s : List Char) : List Char := s.dropWhile isBlank

/-- The text without the blanks at either end. -/
def trimmed (s : List Char) : List Char := (dropBlanks (dropBlanks s).reverse).reverse

/-- Whether the text has nothing but blanks. -/
def isBlankText (s : String) : Bool := s.toList.all isBlank

end Timetable.Text
