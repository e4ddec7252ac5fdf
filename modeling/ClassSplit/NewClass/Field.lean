import ClassSplit.NewClass.Accessor

/-!
Fields of the new class: their declarations and the accessors that go with them.
-/

namespace ClassSplit

/-- A field as the new class declares it. -/
structure MovedField where
  field : Field
  declaration : String
  /-- Static fields are used directly and have no accessors. -/
  accessors : Option Accessors
  /-- The declarations of the accessors. -/
  members : List String

namespace MovedField

def declare (modifiers : String) (f : Field) : String :=
  (if modifiers.isEmpty then "" else modifiers ++ " ") ++ f.type ++ " " ++ f.name
    ++ (f.initializer.map (" = " ++ ·)).getD "" ++ ";"

/-- A static field keeps its modifiers. -/
def ofStatic (f : Field) : MovedField :=
  { field := f
    declaration := declare (String.ofList (Text.singleSpaced f.modifiers.text.toList)) f
    accessors := none
    members := [] }

/-- The modifiers of an instance field, which becomes private. -/
def instanceModifiers (f : Field) : List String :=
  f.modifiers.annotations ++ "private"
    :: f.modifiers.keywords.filter fun keyword => keyword != "final" || f.keepsFinal

def ofInstance (indent : String) (f : Field) (named : List NamedAccessor) : MovedField :=
  { field := f
    declaration := declare (" ".intercalate (instanceModifiers f)) f
    accessors := some (Accessors.ofNamed named)
    members := (named.filter (!·.reused)).map fun a => a.form.declaration f a.name indent }

/-- The fields in turn, given the moved methods and the names of the accessors so far. -/
def ofFields (text : List Char) (moved : List Method) (indent : String) (taken : List String) :
    List Field → List MovedField
  | [] => []
  | f :: fs =>
    if f.isStatic then ofStatic f :: ofFields text moved indent taken fs
    else
      let named := NamedAccessor.chooseAll text moved taken f (AccessorForm.needed f)
      ofInstance indent f named
        :: ofFields text moved indent (taken ++ named.map (·.name)) fs

end MovedField

end ClassSplit
