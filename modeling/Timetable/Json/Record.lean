import Timetable.Json.Decode

/-!
# Decoding records

A record is written as an object, whose members may come in any order, or as an array of its fields
in their order. Every field is decoded where it stands in the text; when all are read, the record is
built from what was found. Members of other names are passed over.
-/
namespace Timetable.Json

/-- A field and the test of its value. -/
structure Field where
  name : String
  check : Value → Except Fault Unit

/-- The values found for the fields of a record. -/
abbrev Findings := List (String × Value)

/-- The fields of a record, and how it is built. -/
structure Record (α : Type) where
  fields : List Field
  build : Findings → Except Fault α

namespace Record

instance : Functor Record where
  map f r := { fields := r.fields, build := fun found => (r.build found).map f }

instance : Pure Record where
  pure a := { fields := [], build := fun _ => .ok a }

/-- Fields stand in the order in which they are given. -/
instance : Seq Record where
  seq f r :=
    { fields := f.fields ++ (r ()).fields
      build := fun found => do
        let g ← f.build found
        let a ← (r ()).build found
        return g a }

variable {α β : Type}

/-- A field with a decoder, and what stands for it when it is missing. -/
def field (name : String) (decode : Value → Except Fault α) (missing : Except Fault α) :
    Record α where
  fields := [⟨name, fun v => (decode v).map fun _ => ()⟩]
  build found := ((found.lookup name).map decode).getD missing

/-- A field that must be there. -/
def required (name : String) (decode : Value → Except Fault α) : Record α :=
  field name decode (.error (.missingField name))

/-- A field that may be missing or null. -/
def optional (name : String) (decode : Value → Except Fault α) : Record (Option α) :=
  field name (nullable decode) (.ok none)

/-- A field with a default. -/
def defaulted (name : String) (decode : Value → Except Fault α) (default : α) : Record α :=
  field name decode (.ok default)

/-- The record with one more check of what was built. -/
def andThen (r : Record α) (f : α → Except Fault β) : Record β where
  fields := r.fields
  build found := (r.build found).bind f

/-- The findings in an object, added to those before. -/
def scan (fields : List Field) (isClosed : Bool) (found : Findings) :
    List (Quotation × Value) → Except Fault Findings
  | [] => .ok found
  | (quotation, v) :: members => do
    let name ← sound quotation
    match fields.find? fun f => f.name = name with
    | none =>
      if isClosed then .error (.unknownField name (fields.map Field.name))
      else scan fields isClosed found members
    | some f =>
      if (found.lookup name).isSome then .error (.duplicateField name)
      else do
        f.check v
        scan fields isClosed ((name, v) :: found) members

/-- The findings in an array, whose first item has the position given. Where items may be missing
the last fields are left out. -/
def place (position : Nat) (mayEnd : Bool) (expected : String) :
    List Field → List Value → Except Fault Findings
  | [], _ => .ok []
  | _ :: _, [] => if mayEnd then .ok [] else .error (.wrongLength position expected)
  | f :: fields, v :: items => do
    f.check v
    let found ← place (position + 1) mayEnd expected fields items
    return (f.name, v) :: found

/-- The record in the members of an object. -/
def ofMembers (r : Record α) (isClosed : Bool) (members : List (Quotation × Value)) :
    Except Fault α := do
  r.build (← scan r.fields isClosed [] members)

/-- The record in the first items of an array. -/
def ofItems (r : Record α) (mayEnd : Bool) (expected : String) (items : List Value) :
    Except Fault α := do
  r.build (← place 0 mayEnd expected r.fields items)

/-- The words for a number of elements. -/
def elements (n : Nat) : String := toString n ++ (if n = 1 then " element" else " elements")

end Record

/-- How a record is written. -/
structure RecordStyle where
  /-- What the record is called where something else is found. -/
  title : String
  /-- Whether it is told how many elements an array must have. -/
  tellsCount : Bool := true
  /-- Whether members of other names are refused. -/
  isClosed : Bool := false
  /-- Whether an array may end before the last field. -/
  mayEnd : Bool := false

/-- A record as an object or as an array. -/
def RecordStyle.decode {α : Type} (style : RecordStyle) (r : Record α) : Value → Except Fault α
  | .object members => r.ofMembers style.isClosed members
  | .array items => do
    let count := r.fields.length
    let expected :=
      if style.tellsCount then style.title ++ " with " ++ Record.elements count else style.title
    let a ← r.ofItems style.mayEnd expected items
    if count < items.length then .error .trailing else .ok a
  | v => mismatch style.title v

/-! ## Encoding -/

/-- A natural number. -/
def ofNat (n : Nat) : Value := .number (.ofNat n)

/-- A text. -/
def ofString (s : String) : Value := .string (.sound s)

/-- Nothing, or a value. -/
def ofOption {α : Type} (encode : α → Value) : Option α → Value
  | none => .null
  | some a => encode a

/-- An object with these members. -/
def record (members : List (String × Value)) : Value :=
  .object (members.map fun (name, v) => (.sound name, v))

end Timetable.Json
