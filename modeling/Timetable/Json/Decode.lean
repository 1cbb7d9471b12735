import Timetable.Json.Fault
import Timetable.Json.Number

/-!
# Decoding simple values

Numbers, texts and words of a list. A decoder returns the value or the first fault that is met when
the text is read from front to back. A value that is held back until it is known what it has to be
is first looked through for faults of its own.
-/
namespace Timetable.Json

variable {α : Type}

/-- The number of a numeral. -/
def number (n : Numeral) : Except Fault Number :=
  match n.number? with
  | some x => .ok x
  | none => .error .numberOutOfRange

/-- A sound string. -/
def sound : Quotation → Except Fault String
  | .sound s => .ok s
  | .faulty f => .error (.escape f)

/-- A number as it is found. -/
def Number.found : Number → Found
  | natural n => .integer n
  | negative n => .integer (-(n : Int))
  | float f => .float f

/-- What is found in the place of something else. -/
def found : Value → Except Fault Found
  | .null => .ok .null
  | .bool b => .ok (.bool b)
  | .number n => (number n).map Number.found
  | .string s => (sound s).map .string
  | .array _ => .ok .sequence
  | .object _ => .ok .map

/-- The fault of a value of the wrong type, unless the value has a fault of its own. -/
def mismatch (expected : String) (v : Value) : Except Fault α :=
  (found v).bind fun f => .error (.wrongType f expected)

/-- A natural number below the limit. -/
def natural (limit : Nat) (expected : String) : Value → Except Fault Nat
  | .number n => do
    match ← number n with
    | .natural k =>
      if k < limit then .ok k else .error (.wrongValue (.integer k) expected)
    | .negative k => .error (.wrongValue (.integer (-(k : Int))) expected)
    | .float f => .error (.wrongType (.float f) expected)
  | v => mismatch expected v

/-- A 64-bit word. -/
def word (v : Value) : Except Fault UInt64 := (natural wordLimit "u64" v).map UInt64.ofNat

/-- A 64-bit word that is a size. -/
def size (v : Value) : Except Fault UInt64 := (natural wordLimit "usize" v).map UInt64.ofNat

/-- A 32-bit word. -/
def short (v : Value) : Except Fault UInt32 := (natural shortLimit "u32" v).map UInt32.ofNat

/-- A floating-point number, also one written as a whole number. -/
def float : Value → Except Fault Float
  | .number n => (number n).map fun
    | .natural k => k.toUInt64.toFloat
    | .negative k => -k.toUInt64.toFloat
    | .float f => f
  | v => mismatch "f64" v

/-- A truth value. -/
def bool : Value → Except Fault Bool
  | .bool b => .ok b
  | v => mismatch "a boolean" v

/-- A text. -/
def string : Value → Except Fault String
  | .string s => sound s
  | v => mismatch "a string" v

/-- A text that a reader makes sense of. -/
def readString (expected : String) (read : String → Except String α) : Value → Except Fault α
  | .string s => do
    match read (← sound s) with
    | .ok a => .ok a
    | .error reason => .error (.meaningless reason)
  | v => mismatch expected v

/-- Nothing, or a value. -/
def nullable (decode : Value → Except Fault α) : Value → Except Fault (Option α)
  | .null => .ok none
  | v => (decode v).map some

/-! ## Words of a list -/

/-- Something with a word of its own. -/
structure Vocabulary (α : Type) where
  all : List α
  name : α → String

/-- The meaning of a word. -/
def Vocabulary.meaning (voc : Vocabulary α) (word : String) : Except Fault α :=
  match voc.all.find? fun a => voc.name a = word with
  | some a => .ok a
  | none => .error (.unknownVariant word (voc.all.map voc.name))

/-- One of the words, or an object with the word as the only name and no content. -/
def Vocabulary.decode (voc : Vocabulary α) : Value → Except Fault α
  | .string s => (sound s).bind voc.meaning
  | .object ((name, content) :: others) => do
    let a ← (sound name).bind voc.meaning
    match content, others with
    | .null, [] => .ok a
    | .null, _ => .error .expectedValue
    | v, _ => mismatch "unit" v
  | _ => .error .expectedValue

/-- One of the words, in a value that was held back. -/
def Vocabulary.decodeHeld (voc : Vocabulary α) : Value → Except Fault α
  | .string s => (sound s).bind voc.meaning
  | .object [(name, content)] => do
    let a ← (sound name).bind voc.meaning
    match content with
    | .null | .object [] => .ok a
    | v => mismatch "unit" v
  | .object _ => .error (.wrongValue .map "map with a single key")
  | v => mismatch "string or map" v

/-! ## Values held back -/

/-- How many arrays and objects may be open at once where values are held back. -/
def depthLimit : Nat := 128

/-- Looks through a value for faulty strings, numbers out of range and arrays or objects that nest
too deep; the room is what is left of the limit. -/
def readable : Nat → Value → Except Fault Unit
  | _, .null => .ok ()
  | _, .bool _ => .ok ()
  | _, .number n => (number n).map fun _ => ()
  | _, .string s => (sound s).map fun _ => ()
  | room + 2, .array items => items.forM (readable (room + 1))
  | room + 2, .object members => members.forM fun (name, v) => do
    let _ ← sound name
    readable (room + 1) v
  | _, _ => .error .tooDeep

end Timetable.Json
