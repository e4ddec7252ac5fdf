import ClassSplit.Signature.Reader
import ClassSplit.Text.Span

/-!
The model of a class: its fields, methods and nested types, as far as the choice of the members to
move depends on them.
-/

namespace ClassSplit

inductive Visibility where
  | everyone
  | subclasses
  | package
  | classOnly
  deriving DecidableEq

/-- The keyword that declares a visibility; there is none for the package's own. -/
def Visibility.keyword? : Visibility → Option String
  | .everyone => some "public"
  | .subclasses => some "protected"
  | .package => none
  | .classOnly => some "private"

structure Modifiers where
  visibility : Visibility
  isStatic : Bool
  isFinal : Bool
  isAbstract : Bool
  /-- The annotations as they are written, in order. -/
  annotations : List String
  /-- The keywords in order, those of the visibility aside. -/
  keywords : List String
  /-- The whole list of modifiers as it is written. -/
  text : String
  deriving DecidableEq

namespace Modifiers

def none : Modifiers :=
  { visibility := .package, isStatic := false, isFinal := false, isAbstract := false
    annotations := [], keywords := [], text := "" }

instance : Inhabited Modifiers := ⟨none⟩

end Modifiers

/-- The primitive types with arithmetic. -/
def arithmeticTypes : List String := ["byte", "short", "char", "int", "long", "float", "double"]

structure Field where
  name : String
  /-- The declared type, with the brackets that stand behind the name. -/
  type : String
  modifiers : Modifiers
  initializer : Option String
  /-- The whole declaration, which may declare several fields. -/
  declaration : Span
  /-- The part of the declaration that is this field's own. -/
  declarator : Span
  /-- Fields that are declared together have the same group. -/
  group : Nat
  deriving DecidableEq

namespace Field

def isStatic (f : Field) : Bool := f.modifiers.isStatic

def isFinal (f : Field) : Bool := f.modifiers.isFinal

def isArithmetic (f : Field) : Bool := arithmeticTypes.contains f.type

end Field

structure Parameter where
  type : String
  name : String
  variadic : Bool
  deriving DecidableEq

structure Method where
  name : String
  /-- The canonical spelling of the signature. -/
  signature : String
  params : List Parameter
  /-- The result type; constructors have an empty one. -/
  returnType : String
  modifiers : Modifiers
  isConstructor : Bool
  span : Span
  /-- The braces and all between them, unless the method has no body. -/
  body : Option Span
  deriving DecidableEq

namespace Method

def isStatic (m : Method) : Bool := m.modifiers.isStatic

def isAbstract (m : Method) : Bool := m.modifiers.isAbstract

def isPrivate (m : Method) : Bool := m.modifiers.visibility = .classOnly

def isVoid (m : Method) : Bool := m.returnType == "void"

/-- Whether a call with so many arguments can mean the method. -/
def acceptsArity (m : Method) (count : Nat) : Bool :=
  match m.params.getLast? with
  | some last => if last.variadic then m.params.length ≤ count + 1 else count == m.params.length
  | none => count == 0

end Method

inductive TypeForm where
  | classType
  | interfaceType
  | enumType
  | recordType
  | annotationType
  deriving DecidableEq

structure NestedType where
  name : String
  form : TypeForm
  visibility : Visibility
  deriving DecidableEq

structure ClassModel where
  name : String
  package : Option String
  /-- The import declarations as they are written. -/
  imports : List String
  modifiers : Modifiers
  fields : List Field
  /-- Methods and constructors in the order of declaration. -/
  methods : List Method
  nestedTypes : List NestedType
  span : Span
  /-- The braces of the class and all between them. -/
  body : Span

namespace ClassModel

variable (c : ClassModel)

def field? (name : String) : Option Field := c.fields.find? (·.name == name)

/-- The methods that are not constructors. -/
def properMethods : List Method := c.methods.filter (!·.isConstructor)

/-- The method that a text denotes. A method with exactly that canonical signature goes before one
that has only a spelling in common with the text. -/
def findMethod? (text : String) : Option Method :=
  let canonical := canonicalSignature text
  (c.properMethods.find? (·.signature == canonical)).or
    (c.properMethods.find? (signaturesMatch ·.signature text))

def findConstructor? (text : String) : Option Method :=
  (c.methods.filter (·.isConstructor)).find? (signaturesMatch ·.signature text)

def methodsNamed (name : String) : List Method := c.properMethods.filter (·.name == name)

def nestedType? (name : String) : Option NestedType := c.nestedTypes.find? (·.name == name)

def isPrivateNestedType (name : String) : Bool :=
  (c.nestedType? name).any (·.visibility = .classOnly)

/-- The fields that are declared together under a group. -/
def fieldGroup (group : Nat) : List Field := c.fields.filter (·.group == group)

theorem not_isConstructor_of_findMethod? {text : String} {m : Method}
    (h : c.findMethod? text = some m) : m ∈ c.methods ∧ m.isConstructor = false := by
  simp only [findMethod?, Option.or_eq_some_iff] at h
  have hm : m ∈ c.properMethods := by
    cases h
    case inl h => exact List.mem_of_find?_eq_some h
    case inr h => exact List.mem_of_find?_eq_some h.2
  simpa [properMethods] using hm

end ClassModel

end ClassSplit
