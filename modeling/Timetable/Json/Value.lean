import Timetable.Json.Token

/-!
# Values of JSON

The members of an object keep their order, and a name may occur more than once. Reading goes through
the tokens once with a stack of the arrays and objects that are open, so that values may nest to any
depth.
-/
namespace Timetable.Json

/-- A value as it is written. -/
inductive Value where
  | null
  | bool (b : Bool)
  | number (n : Numeral)
  | string (s : Quotation)
  | array (items : List Value)
  | object (members : List (Quotation × Value))

/-! ## Reading -/

/-- An array or object that is open: its parts so far, the last one first, and the name of the
member that is being read. -/
inductive Frame where
  | items (done : List Value)
  | members (done : List (Quotation × Value)) (name : Quotation)

/-- What comes next. -/
inductive Stage where
  | value
  /-- A value or the end of an array. -/
  | firstItem
  /-- A name or the end of an object. -/
  | firstName
  | nextName (done : List (Quotation × Value))
  | colon (done : List (Quotation × Value)) (name : Quotation)
  /-- Behind a value: a comma, the end of what is open, or the end of the text. -/
  | behind (v : Value)

namespace Stage

/-- A token where a value is expected. -/
def begin? (frames : List Frame) : Token → Option (Stage × List Frame)
  | .null => some (.behind .null, frames)
  | .bool b => some (.behind (.bool b), frames)
  | .number n => some (.behind (.number n), frames)
  | .string s => some (.behind (.string s), frames)
  | .beginArray => some (.firstItem, frames)
  | .beginObject => some (.firstName, frames)
  | _ => none

/-- What comes after a token. -/
def step? : Stage → List Frame → Token → Option (Stage × List Frame)
  | .value, frames, t => begin? frames t
  | .firstItem, frames, .endArray => some (.behind (.array []), frames)
  | .firstItem, frames, t => begin? (.items [] :: frames) t
  | .firstName, frames, .endObject => some (.behind (.object []), frames)
  | .firstName, frames, .string name => some (.colon [] name, frames)
  | .nextName done, frames, .string name => some (.colon done name, frames)
  | .colon done name, frames, .colon => some (.value, .members done name :: frames)
  | .behind v, .items done :: frames, .comma => some (.value, .items (v :: done) :: frames)
  | .behind v, .items done :: frames, .endArray =>
    some (.behind (.array (v :: done).reverse), frames)
  | .behind v, .members done name :: frames, .comma => some (.nextName ((name, v) :: done), frames)
  | .behind v, .members done name :: frames, .endObject =>
    some (.behind (.object ((name, v) :: done).reverse), frames)
  | _, _, _ => none

/-- The value of the tokens, if they make exactly one. -/
def run : Stage → List Frame → List Token → Option Value
  | .behind v, [], [] => some v
  | _, _, [] => none
  | stage, frames, t :: ts => (stage.step? frames t).bind fun (next, frames) => next.run frames ts

end Stage

/-- The value of the tokens. -/
def Value.ofTokens? (ts : List Token) : Option Value := Stage.run .value [] ts

/-- The value that the text is, if it is one. -/
def Value.ofText? (s : List Char) : Option Value := (tokens? s).bind Value.ofTokens?

/-! ## Writing -/

/-- The written form of a token; a faulty string has none and is left empty. -/
def Token.text : Token → List Char
  | .beginArray => ['[']
  | .endArray => [']']
  | .beginObject => ['\x7b']
  | .endObject => ['\x7d']
  | .colon => [':']
  | .comma => [',']
  | .null => "null".toList
  | .bool b => if b then "true".toList else "false".toList
  | .number n => n.text
  | .string s => quote (s.sound?.getD "")

/-- The parts, with commas between them. -/
def separated : List (List Token) → List Token
  | [] => []
  | [part] => part
  | part :: parts => part ++ .comma :: separated parts

mutual

/-- The tokens of a value. -/
def Value.tokens : Value → List Token
  | .null => [.null]
  | .bool b => [.bool b]
  | .number n => [.number n]
  | .string s => [.string s]
  | .array items => .beginArray :: separated (tokensOfItems items) ++ [.endArray]
  | .object members => .beginObject :: separated (tokensOfMembers members) ++ [.endObject]

/-- The tokens of each value. -/
def tokensOfItems : List Value → List (List Token)
  | [] => []
  | v :: vs => v.tokens :: tokensOfItems vs

/-- The tokens of each member. -/
def tokensOfMembers : List (Quotation × Value) → List (List Token)
  | [] => []
  | (name, v) :: members => (.string name :: .colon :: v.tokens) :: tokensOfMembers members

end

/-- The text of a value, without any space. -/
def Value.text (v : Value) : List Char := v.tokens.flatMap Token.text

end Timetable.Json
