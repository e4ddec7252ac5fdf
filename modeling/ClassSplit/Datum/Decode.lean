import ClassSplit.Datum.Basic
import ClassSplit.Text.Quoted

/-!
Reading domain values from structured data. A reader fails with a cause, and the message says what
was found and what was expected.

A record is read entry by entry in the order in which the entries are written, so that of several
faults the first one written counts; entries that are absent are noticed only after that, in the
order in which the record declares them. A record may also be written as an array of its entries.
-/

namespace ClassSplit

inductive DecodeError where
  | wrongType (found : String) (expected : String)
  | wrongValue (found : String) (expected : String)
  | wrongLength (length : Nat) (expected : String)
  /-- More items in an array than are read. -/
  | extraItems (length : Nat)
  | unknownField (name : String) (known : List String)
  | unknownVariant (name : String) (known : List String)
  | missingField (name : String)
  | repeatedField (name : String)
  /-- Not a choice among variants at all. -/
  | notAVariant
  /-- The text of the data is malformed. -/
  | malformed (cause : String)
  deriving DecidableEq

namespace DecodeError

def ticked (s : String) : String := "`" ++ s ++ "`"

/-- How a choice is written: with "or" between two, with "one of" before more. -/
def choice : List String → String
  | [] => "nothing"
  | [a] => ticked a
  | [a, b] => ticked a ++ " or " ++ ticked b
  | names => "one of " ++ ", ".intercalate (names.map ticked)

def message : DecodeError → String
  | wrongType found expected => "invalid type: " ++ found ++ ", expected " ++ expected
  | wrongValue found expected => "invalid value: " ++ found ++ ", expected " ++ expected
  | wrongLength length expected =>
    "invalid length " ++ toString length ++ ", expected " ++ expected
  | extraItems length =>
    "invalid length " ++ toString length ++ ", expected fewer elements in array"
  | unknownField name known =>
    "unknown field " ++ ticked name ++ ", expected " ++ choice known
  | unknownVariant name known =>
    "unknown variant " ++ ticked name ++ ", expected " ++ choice known
  | missingField name => "missing field " ++ ticked name
  | repeatedField name => "duplicate field " ++ ticked name
  | notAVariant => "wanted string or table"
  | malformed cause => cause

end DecodeError

/-- The format from which data were read. Formats differ in what they say of a value that is not
one of several variants, and in whether a record that is written as an array may have more items
than entries. -/
inductive DataFormat where
  | json
  | toml
  deriving DecidableEq

namespace Datum

/-- What a message calls a value. -/
def describe : Datum → String
  | null => "null"
  | bool b => "boolean `" ++ toString b ++ "`"
  | int i => "integer `" ++ toString i ++ "`"
  | float shown => "floating point `" ++ shown ++ "`"
  | string s => "string " ++ Text.quoted s
  | date => "map"
  | broken _ => "nothing"
  | array _ => "sequence"
  | object _ => "map"

/-- Data of another kind were expected. -/
def unexpected (d : Datum) (expected : String) : DecodeError :=
  match d with
  | broken cause => .malformed cause
  | _ => .wrongType d.describe expected

abbrev Decoder (α : Type) := Datum → Except DecodeError α

/-- The greatest number that can be read. -/
def maxNumber : Nat := 18446744073709551615

def asString : Decoder String
  | string s => .ok s
  | d => .error (d.unexpected "a string")

def asPath : Decoder String
  | string s => .ok s
  | d => .error (d.unexpected "path string")

def asBool : Decoder Bool
  | bool b => .ok b
  | d => .error (d.unexpected "a boolean")

def asNat : Decoder Nat
  | int i =>
    if 0 ≤ i ∧ i ≤ maxNumber then .ok i.toNat
    else .error (.wrongValue (describe (int i)) "usize")
  | d => .error (d.unexpected "usize")

def asList {α : Type} (item : Decoder α) : Decoder (List α)
  | array items => items.mapM item
  | d => .error (d.unexpected "a sequence")

/-- An entry that may be absent: `null` reads as nothing. -/
def asOption {α : Type} (item : Decoder α) : Decoder (Option α)
  | null => .ok none
  | d => (item d).map some

def asPair {α β : Type} (first : Decoder α) (second : Decoder β) : Decoder (α × β)
  | array [a, b] => do
    let x ← first a
    let y ← second b
    .ok (x, y)
  | array [] => .error (.wrongLength 0 "a tuple of size 2")
  | array [a] => do
    let _ ← first a
    .error (.wrongLength 1 "a tuple of size 2")
  | array (a :: b :: rest) => do
    let _ ← first a
    let _ ← second b
    .error (.extraItems (rest.length + 2))
  | d => .error (d.unexpected "a tuple of size 2")

/-- Named entries in ascending order of the names; of several under one name the last counts. -/
def asEntries {α : Type} (item : Decoder α) : Decoder (List (String × α))
  | object entries => entries.mapM fun (name, d) => do
    let value ← item d
    .ok (name, value)
  | d => .error (d.unexpected "a map")

/-- Nothing, where a format writes nothing in some way. -/
def asNothing (format : DataFormat) : Decoder Unit := fun d =>
  match format, d with
  | .json, null | .toml, array [] | .toml, object [] => .ok ()
  | .json, d => .error (d.unexpected "unit")
  | .toml, _ => .error .notAVariant

/-- One of several variants, written as its name, or as a record whose only entry has that name and
holds nothing. -/
def asVariant {α : Type} (format : DataFormat) (variants : List (String × α)) : Decoder α :=
  let named (name : String) : Except DecodeError α :=
    match variants.lookup name with
    | some v => .ok v
    | none => .error (.unknownVariant name (variants.map Prod.fst))
  fun d =>
    match d, format with
    | string name, _ => named name
    | object [(name, inner)], _ => do
      let v ← named name
      asNothing format inner
      .ok v
    | object _, .json => .error (.wrongValue "map" "map with a single key")
    | d, .json => .error (d.unexpected "string or map")
    | _, .toml => .error .notAVariant

/-- An entry of a record: its name, how its value is checked, and whether it may be absent. -/
structure Slot where
  name : String
  check : Datum → Except DecodeError Unit
  optional : Bool

def checking {α : Type} (item : Decoder α) : Datum → Except DecodeError Unit :=
  fun d => (item d).map fun _ => ()

def required {α : Type} (name : String) (item : Decoder α) : Slot := ⟨name, checking item, false⟩

def allowed {α : Type} (name : String) (item : Decoder α) : Slot := ⟨name, checking item, true⟩

/-- The shape of a record. An array can stand for a record; `absentInArray` lists the entries
that may be left out there. -/
structure Shape where
  title : String
  slots : List Slot
  strict : Bool := false
  format : DataFormat := .json
  absentInArray : List String := []

namespace Shape

def names (shape : Shape) : List String := shape.slots.map (·.name)

def expected (shape : Shape) : String := "struct " ++ shape.title

def expectedLength (shape : Shape) : String :=
  shape.expected ++ " with " ++ toString shape.slots.length
    ++ (if shape.slots.length = 1 then " element" else " elements")

/-- Checks the entries in the order in which they are written. -/
def checkEntries (shape : Shape) (seen : List String) :
    List (String × Datum) → Except DecodeError Unit
  | [] =>
    match shape.slots.find? fun slot => !slot.optional && !seen.contains slot.name with
    | some slot => .error (.missingField slot.name)
    | none => .ok ()
  | (name, d) :: rest =>
    match shape.slots.find? (·.name == name) with
    | none =>
      if shape.strict then .error (.unknownField name shape.names)
      else
        match d.fault? with
        | some cause => .error (.malformed cause)
        | none => checkEntries shape seen rest
    | some slot =>
      if seen.contains name then .error (.repeatedField name)
      else do
        slot.check d
        checkEntries shape (name :: seen) rest

/-- Checks the items of an array that stands for a record, and gives them their names. -/
def nameItems (shape : Shape) (total : Nat) :
    List Slot → List Datum → Except DecodeError (List (String × Datum))
  | [], [] => .ok []
  | [], _ :: _ =>
    match shape.format with
    | .json => .error (.extraItems total)
    | .toml => .ok []
  | slot :: slots, [] =>
    if shape.absentInArray.contains slot.name then nameItems shape total slots []
    else .error (.wrongLength total shape.expectedLength)
  | slot :: slots, d :: ds => do
    slot.check d
    let rest ← nameItems shape total slots ds
    .ok ((slot.name, d) :: rest)

/-- The only entry of a date when it is read as a record. -/
def dateEntry : String := "$__toml_private_datetime"

/-- The entries of a record that has the shape. -/
def entries (shape : Shape) : Decoder Datum
  | object entries => do
    shape.checkEntries [] entries
    .ok (object entries)
  | array items => (shape.nameItems items.length shape.slots items).map object
  | date => do
    shape.checkEntries [] [(dateEntry, date)]
    .ok (object [])
  | d => .error (d.unexpected shape.expected)

end Shape

/-- The value of an entry of a record whose shape has been checked. -/
def field {α : Type} (d : Datum) (name : String) (item : Decoder α) : Except DecodeError α :=
  match d.entry? name with
  | some v => item v
  | none => .error (.missingField name)

/-- The same where the entry may be absent. -/
def fieldOr {α : Type} (d : Datum) (name : String) (item : Decoder α) (absent : α) :
    Except DecodeError α :=
  match d.entry? name with
  | some v => item v
  | none => .ok absent

end Datum

end ClassSplit
