import ClassSplit.Extraction.Error
import ClassSplit.NewClass.Accessor
import ClassSplit.NameMap
import ClassSplit.Text.Layout

/-!
The class that stays and how it hands its work to the new class: the members that move, the helper
field that holds an object of the new class, and the bodies that moved methods get instead of their
own.
-/

namespace ClassSplit

open Java

/-- A field that moves. Static fields have no accessors. -/
structure DelegatedField where
  field : Field
  accessors : Option Accessors

structure Delegation where
  source : JavaSource
  newClass : String
  /-- The name of the helper field, if there is one. -/
  helper : Option String
  methods : List Method
  fields : NameMap DelegatedField
  /-- One level of indentation. -/
  indent : String

namespace Delegation

/-- The fields by name; of two with one name the last counts. -/
def fieldsOfList (fields : List DelegatedField) : NameMap DelegatedField :=
  .ofList (fields.map fun f => (f.field.name, f))

variable (d : Delegation)

def notFound (member : String) : ExtractionError := .memberNotFound d.source.model.name member

/-- The name of the helper field, which has to exist. -/
def needHelper : Except ExtractionError String :=
  match d.helper with
  | some helper => .ok helper
  | none => .error (d.notFound "helper field")

def leadingIndent? (offset : Nat) : Option String :=
  (Text.leadingIndent d.source.text offset).map String.ofList

/-- The indentation of the members of the class: that of the first one, or one level more than that
of the class. -/
def memberIndent : String :=
  let c := d.source.model
  let starts := c.fields.map (·.declaration.start) ++ c.methods.map (·.span.start)
  match starts.min?.bind d.leadingIndent? with
  | some indent => indent
  | none => (d.leadingIndent? c.span.start).getD "" ++ d.indent

/-- The call that a moved method leaves behind. -/
def delegatingCall (target : String) (m : Method) : String :=
  let call := target ++ "." ++ m.name ++ "(" ++ ", ".intercalate (m.params.map (·.name)) ++ ");"
  if m.isVoid then call else "return " ++ call

/-- The body that a moved method leaves behind, in the place of its own. -/
def stub (m : Method) : Except ExtractionError Replacement := do
  let some body := m.body | .error (.missingBody m.signature)
  let target ← if m.isStatic then .ok d.newClass else d.needHelper
  let margin := (d.leadingIndent? m.span.start).getD d.memberIndent
  .ok (.ofText body
    ("\x7b\n" ++ margin ++ d.indent ++ delegatingCall target m ++ "\n" ++ margin ++ "\x7d"))

/-- The declaration of the helper field, as the first member of the class. -/
def helperInsertion (helper : String) : Replacement :=
  .insertion (d.source.model.body.start + 1)
    ("\n" ++ d.memberIndent ++ "private " ++ d.newClass ++ " " ++ helper ++ " = new " ++ d.newClass
      ++ "();\n")

end Delegation

end ClassSplit
