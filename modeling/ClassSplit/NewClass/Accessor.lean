import ClassSplit.Datum.Decode
import ClassSplit.FreshName
import ClassSplit.Model.OfTree
import ClassSplit.Text.Layout

/-!
Accessors of a field that moves. The class that stays reads and writes the field through methods of
the new class. A moved method that already does what an accessor would do takes its place; any other
accessor gets a name of its own.
-/

namespace ClassSplit

inductive AccessorForm where
  | getter
  | setter
  | increment
  | postIncrement
  | decrement
  | postDecrement
  deriving DecidableEq

structure IncrementNames where
  increment : String
  postIncrement : String
  decrement : String
  postDecrement : String
  deriving DecidableEq

/-- The names of a field's accessors. -/
structure Accessors where
  getter : String
  /-- A final field that keeps its initializer has none. -/
  setter : Option String
  /-- Fields of an arithmetic primitive type have these unless they are final. -/
  increments : Option IncrementNames
  deriving DecidableEq

namespace IncrementNames

open Datum

def toDatum (i : IncrementNames) : Datum :=
  .object
    [("increment", .string i.increment), ("postIncrement", .string i.postIncrement),
      ("decrement", .string i.decrement), ("postDecrement", .string i.postDecrement)]

def shape : Shape :=
  { title := "IncrementHelpers"
    slots :=
      [required "increment" asString, required "postIncrement" asString,
        required "decrement" asString, required "postDecrement" asString] }

def ofDatum : Decoder IncrementNames := fun d => do
  let d ← shape.entries d
  .ok
    { increment := ← field d "increment" asString
      postIncrement := ← field d "postIncrement" asString
      decrement := ← field d "decrement" asString
      postDecrement := ← field d "postDecrement" asString }

end IncrementNames

namespace Accessors

open Datum

def toDatum (a : Accessors) : Datum :=
  .object
    [("getter", .string a.getter), ("setter", .ofOption a.setter),
      ("increments", (a.increments.map IncrementNames.toDatum).getD .null)]

def shape : Shape :=
  { title := "FieldAccessors"
    slots :=
      [required "getter" asString, allowed "setter" (asOption asString),
        allowed "increments" (asOption IncrementNames.ofDatum)] }

def ofDatum : Decoder Accessors := fun d => do
  let d ← shape.entries d
  .ok
    { getter := ← field d "getter" asString
      setter := ← fieldOr d "setter" (asOption asString) none
      increments := ← fieldOr d "increments" (asOption IncrementNames.ofDatum) none }

end Accessors

/-- Whether a field can stay final when it moves: nothing has to assign it any more. -/
def Field.keepsFinal (f : Field) : Bool := f.isFinal && f.initializer.isSome

namespace AccessorForm

/-- The forms that a field needs, in the order in which they are declared. -/
def needed (f : Field) : List AccessorForm :=
  getter :: (if f.keepsFinal then [] else [setter])
    ++ (if !f.isFinal && f.isArithmetic then
        [increment, postIncrement, decrement, postDecrement]
      else [])

/-- The word in front of the name of the field. -/
def verb : AccessorForm → String
  | getter => "get"
  | setter => "set"
  | increment => "increment"
  | postIncrement => "postIncrement"
  | decrement => "decrement"
  | postDecrement => "postDecrement"

/-- The parameters of the accessor: the new value, or none. -/
def paramTypes (form : AccessorForm) (f : Field) : List String :=
  match form with
  | setter => [f.type]
  | _ => []

def header (form : AccessorForm) (f : Field) (name : String) : String :=
  match form with
  | setter => "public void " ++ name ++ "(" ++ f.type ++ " " ++ f.name ++ ")"
  | _ => "public " ++ f.type ++ " " ++ name ++ "()"

def statement (form : AccessorForm) (f : Field) : String :=
  match form with
  | getter => "return " ++ f.name ++ ";"
  | setter => "this." ++ f.name ++ " = " ++ f.name ++ ";"
  | increment => "return ++" ++ f.name ++ ";"
  | postIncrement => "return " ++ f.name ++ "++;"
  | decrement => "return --" ++ f.name ++ ";"
  | postDecrement => "return " ++ f.name ++ "--;"

/-- The declaration of an accessor. -/
def declaration (form : AccessorForm) (f : Field) (name indent : String) : String :=
  form.header f name ++ " \x7b\n" ++ indent ++ form.statement f ++ "\n\x7d"

/-- The text between the braces of a method without any blanks. -/
def compactBody? (text : List Char) (m : Method) : Option String :=
  match m.body.map fun body => Text.trim (Text.slice text body) with
  | some ('\x7b' :: inner) =>
    if inner.getLast? = some '\x7d' then
      some (String.ofList (inner.dropLast.filter (!Text.isBlank ·)))
    else none
  | _ => none

def isPlainGetter (text : List Char) (f : Field) (m : Method) : Bool :=
  !m.isStatic && (compactBody? text m).any fun body =>
    body == "return" ++ f.name ++ ";" || body == "returnthis." ++ f.name ++ ";"

def isPlainSetter (text : List Char) (f : Field) (m : Method) : Bool :=
  match m.params with
  | [param] =>
    !m.isStatic && m.isVoid && (compactBody? text m).any fun body =>
      body == "this." ++ f.name ++ "=" ++ param.name ++ ";"
        || param.name != f.name && body == f.name ++ "=" ++ param.name ++ ";"
  | _ => false

/-- Whether a method does what the accessor would do. -/
def isReplacedBy (form : AccessorForm) (text : List Char) (f : Field) (m : Method) : Bool :=
  match form with
  | getter => isPlainGetter text f m
  | setter => isPlainSetter text f m
  | _ => false

def signatureOf (form : AccessorForm) (f : Field) (name : String) : String :=
  canonicalSignature (name ++ "(" ++ ",".intercalate (form.paramTypes f) ++ ")")

def baseName (form : AccessorForm) (f : Field) : String :=
  form.verb ++ String.ofList (Text.capitalize f.name.toList)

/-- The names to try for an accessor in order. -/
def candidateName (base : String) : Nat → String
  | 0 => base
  | 1 => base ++ "Field"
  | n + 2 => base ++ "Field" ++ toString (n + 2)

end AccessorForm

/-- An accessor with the name that it got. -/
structure NamedAccessor where
  form : AccessorForm
  name : String
  /-- Whether a moved method of the name takes its place. -/
  reused : Bool

namespace NamedAccessor

/-- Names an accessor, given the moved methods and the names of earlier accessors. -/
def choose (text : List Char) (moved : List Method) (taken : List String) (f : Field)
    (form : AccessorForm) : NamedAccessor :=
  let base := form.baseName f
  let existing := moved.find? (·.signature == form.signatureOf f base)
  if existing.any (form.isReplacedBy text f) && !taken.contains base then ⟨form, base, true⟩
  else
    let clashes (name : String) : Bool :=
      taken.contains name || moved.any (·.signature == form.signatureOf f name)
    let tries := taken.length + moved.length
    ⟨form, firstFree clashes (AccessorForm.candidateName base) tries 0, false⟩

/-- Names several accessors of a field in turn. -/
def chooseAll (text : List Char) (moved : List Method) (taken : List String) (f : Field) :
    List AccessorForm → List NamedAccessor
  | [] => []
  | form :: forms =>
    let first := choose text moved taken f form
    first :: chooseAll text moved (taken ++ [first.name]) f forms

end NamedAccessor

/-- The names of accessors by their forms. -/
def Accessors.ofNamed (named : List NamedAccessor) : Accessors :=
  let nameOf? (form : AccessorForm) : Option String :=
    (named.find? (·.form = form)).map (·.name)
  { getter := (nameOf? .getter).getD ""
    setter := nameOf? .setter
    increments := do
      some
        { increment := ← nameOf? .increment
          postIncrement := ← nameOf? .postIncrement
          decrement := ← nameOf? .decrement
          postDecrement := ← nameOf? .postDecrement } }

end ClassSplit
