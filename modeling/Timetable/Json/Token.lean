import Timetable.Json.Numeral
import Timetable.Json.Quotation

/-!
# Tokens of JSON

A text comes apart into tokens in one pass that looks at each character once. Numerals and words
extend as far as their characters reach and are judged where they end.
-/
namespace Timetable.Json

/-- The smallest parts of a text that mean something. -/
inductive Token where
  | beginArray
  | endArray
  | beginObject
  | endObject
  | colon
  | comma
  | null
  | bool (b : Bool)
  | number (n : Numeral)
  | string (s : Quotation)
deriving DecidableEq

/-- What the pass is in the middle of. -/
inductive Scan where
  | between
  /-- Inside a numeral whose characters are given, the last one first. -/
  | numeral (chars : List Char)
  | word (chars : List Char)
  | string (q : QuotationState)

/-- The characters that may stand between tokens. -/
def isSpace (c : Char) : Bool := c == ' ' || c == '\t' || c == '\n' || c == '\r'

/-- The token of a word. -/
def Token.ofWord? (s : List Char) : Option Token :=
  if s = "null".toList then some .null
  else if s = "true".toList then some (.bool true)
  else if s = "false".toList then some (.bool false)
  else none

/-- The token that consists of one character. -/
def Token.ofMark? : Char → Option Token
  | '[' => some .beginArray
  | ']' => some .endArray
  | '\x7b' => some .beginObject
  | '\x7d' => some .endObject
  | ':' => some .colon
  | ',' => some .comma
  | _ => none

namespace Scan

/-- What a character begins, and the token that it is by itself. -/
def begin? (c : Char) : Option (List Token × Scan) :=
  if isSpace c then some ([], .between)
  else if c = '"' then some ([], .string {})
  else if c.isDigit || c == '-' then some ([], .numeral [c])
  else if c.isLower then some ([], .word [c])
  else (Token.ofMark? c).map fun t => ([t], .between)

/-- The token that ends here, if one was begun; nothing if it must not end. -/
def end? : Scan → Option (List Token)
  | .between => some []
  | .numeral chars => (Numeral.ofText? chars.reverse).map fun n => [.number n]
  | .word chars => (Token.ofWord? chars.reverse).map fun t => [t]
  | .string _ => none

/-- The tokens that a character brings to an end, and where the pass stands behind it. -/
def step? (scan : Scan) (c : Char) : Option (List Token × Scan) :=
  match scan with
  | .numeral chars =>
    if Numeral.isPart c then some ([], .numeral (c :: chars))
    else scan.end?.bind fun ended => (begin? c).map fun (ts, next) => (ended ++ ts, next)
  | .word chars =>
    if c.isLower then some ([], .word (c :: chars))
    else scan.end?.bind fun ended => (begin? c).map fun (ts, next) => (ended ++ ts, next)
  | .string q =>
    if c = '"' && q.endsAtMark then some ([.string q.result], .between)
    else (q.read? c).map fun q => ([], .string q)
  | .between => begin? c

/-- The tokens found before, the last one first, and those of the characters. -/
def run (scan : Scan) (found : List Token) : List Char → Option (List Token)
  | [] => scan.end?.map fun ended => (ended.reverse ++ found).reverse
  | c :: cs => (scan.step? c).bind fun (ts, next) => next.run (ts.reverse ++ found) cs

end Scan

/-- The tokens of a text. -/
def tokens? (s : List Char) : Option (List Token) := Scan.run .between [] s

end Timetable.Json
