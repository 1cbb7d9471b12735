import Timetable.Json.Value
import Timetable.Text.Quoted
import Timetable.Text.Shortest

/-!
# Why a value does not fit

What was found, and what was expected in its place. Faults are met in the order of the text.
-/
namespace Timetable.Json

/-- What was found. -/
inductive Found where
  | null
  | bool (b : Bool)
  | integer (i : Int)
  | float (f : Float)
  | string (s : String)
  | sequence
  | map

/-- The phrase for what was found. -/
def Found.describe : Found → String
  | null => "null"
  | bool b => "boolean `" ++ toString b ++ "`"
  | integer i => "integer `" ++ toString i ++ "`"
  | float f => "floating point `" ++ Text.floatText f ++ "`"
  | string s => "string " ++ Text.quoted s
  | sequence => "sequence"
  | map => "map"

/-- Why a value does not fit. -/
inductive Fault where
  | escape (f : EscapeFault)
  | numberOutOfRange
  | tooDeep
  | expectedValue
  | trailing
  | wrongType (found : Found) (expected : String)
  | wrongValue (found : Found) (expected : String)
  | wrongLength (length : Nat) (expected : String)
  | missingField (name : String)
  | duplicateField (name : String)
  | unknownField (name : String) (known : List String)
  | unknownVariant (name : String) (known : List String)
  /-- A text or a record that is well formed but denotes nothing; the reason in words. -/
  | meaningless (reason : String)

/-- The phrase for a choice among names. -/
def oneOf (names : List String) : String :=
  let marked := names.map fun name => "`" ++ name ++ "`"
  match marked with
  | [a] => a
  | [a, b] => a ++ " or " ++ b
  | _ => "one of " ++ String.intercalate ", " marked

/-- The sentence for a fault. -/
def Fault.message : Fault → String
  | escape f => f.message
  | numberOutOfRange => "number out of range"
  | tooDeep => "recursion limit exceeded"
  | expectedValue => "expected value"
  | trailing => "trailing characters"
  | wrongType found expected =>
    "invalid type: " ++ found.describe ++ ", expected " ++ expected
  | wrongValue found expected =>
    "invalid value: " ++ found.describe ++ ", expected " ++ expected
  | wrongLength length expected =>
    "invalid length " ++ toString length ++ ", expected " ++ expected
  | missingField name => "missing field `" ++ name ++ "`"
  | duplicateField name => "duplicate field `" ++ name ++ "`"
  | unknownField name known => "unknown field `" ++ name ++ "`, expected " ++ oneOf known
  | unknownVariant name known => "unknown variant `" ++ name ++ "`, expected " ++ oneOf known
  | meaningless reason => reason

end Timetable.Json
