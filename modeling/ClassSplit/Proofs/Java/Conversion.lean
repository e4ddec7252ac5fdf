import Mathlib.Data.List.Basic

/-!
Types of expressions and the conversions between them. The operand of a cast, the right side of an
assignment and the argument of a call are converted in different ways: only an assignment narrows an
integer constant, and only a cast narrows what a compound assignment has computed.
-/

namespace ClassSplit

namespace Java

inductive Primitive where
  | byte
  | short
  | char
  | int
  | long
  | float
  | double
  | boolean
  deriving DecidableEq

inductive StaticType where
  | primitive (p : Primitive)
  /-- The class whose objects hold a primitive value. -/
  | boxed (p : Primitive)
  | string
  /-- The type of `null`. -/
  | null
  /-- Any other reference type. -/
  | reference (name : String)
  deriving DecidableEq

/-- The operators of compound assignments. -/
inductive Operator where
  | plus
  | minus
  | times
  | divide
  | remainder
  | leftShift
  | rightShift
  | unsignedRightShift
  | bitAnd
  | bitOr
  | bitXor
  deriving DecidableEq

namespace Primitive

def all : List Primitive := [byte, short, char, int, long, float, double, boolean]

def word : Primitive → String
  | byte => "byte"
  | short => "short"
  | char => "char"
  | int => "int"
  | long => "long"
  | float => "float"
  | double => "double"
  | boolean => "boolean"

def isNumeric : Primitive → Bool
  | boolean => false
  | _ => true

def isIntegral : Primitive → Bool
  | byte | short | char | int | long => true
  | _ => false

/-- Whether values of the type are computed with as values of type `int`. -/
def isSmall : Primitive → Bool
  | byte | short | char => true
  | _ => false

/-- Whether a value of a small type can be the given number. -/
def Holds : Primitive → Int → Prop
  | byte, n => -128 ≤ n ∧ n ≤ 127
  | short, n => -32768 ≤ n ∧ n ≤ 32767
  | char, n => 0 ≤ n ∧ n ≤ 65535
  | _, _ => False

/-- Whether a value of the first type is one of the second, perhaps after a widening conversion. -/
def widensTo : Primitive → Primitive → Bool
  | byte, q => [byte, short, int, long, float, double].contains q
  | short, q => [short, int, long, float, double].contains q
  | char, q => [char, int, long, float, double].contains q
  | int, q => [int, long, float, double].contains q
  | long, q => [long, float, double].contains q
  | float, q => [float, double].contains q
  | double, q => q = double
  | boolean, q => q = boolean

/-- The type in which two numbers are combined. -/
def promoted (p q : Primitive) : Primitive :=
  if p = double ∨ q = double then double
  else if p = float ∨ q = float then float
  else if p = long ∨ q = long then long
  else int

-- What is made of a number when it is changed by one.
theorem promoted_int_eq_iff {p : Primitive} (h : p.isNumeric = true) :
    p.promoted .int = p ↔ p.isSmall = false := by
  cases p
  case boolean => cases h
  all_goals decide

theorem widensTo_refl (p : Primitive) : p.widensTo p = true := by
  cases p
  all_goals rfl

end Primitive

namespace StaticType

def isReference : StaticType → Bool
  | primitive _ => false
  | _ => true

/-- The primitive type with the values of a type, if there is one. -/
def unboxed? : StaticType → Option Primitive
  | primitive p | boxed p => some p
  | _ => none

theorem exists_primitive {t : StaticType} (h : t.isReference = false) :
    ∃ p, t = .primitive p := by
  cases t with
  | primitive p => exact ⟨p, rfl⟩
  | boxed | string | null | reference => cases h

theorem unboxed?_eq_some {t : StaticType} {p : Primitive} :
    t.unboxed? = some p ↔ t = .primitive p ∨ t = .boxed p := by
  cases t with
  | primitive | boxed | string | null | reference => simp [unboxed?]

end StaticType

namespace Operator

def sign : Operator → String
  | plus => "+"
  | minus => "-"
  | times => "*"
  | divide => "/"
  | remainder => "%"
  | leftShift => "<<"
  | rightShift => ">>"
  | unsignedRightShift => ">>>"
  | bitAnd => "&"
  | bitOr => "|"
  | bitXor => "^"

def isShift : Operator → Bool
  | leftShift | rightShift | unsignedRightShift => true
  | _ => false

/-- The type of an operation on two primitive values, if there is one. A shift has the type of its
left operand. -/
def onPrimitives? (o : Operator) (p q : Primitive) : Option Primitive :=
  match o with
  | plus | minus | times | divide | remainder =>
    if p.isNumeric && q.isNumeric then some (p.promoted q) else none
  | leftShift | rightShift | unsignedRightShift =>
    if p.isIntegral && q.isIntegral then some (p.promoted .int) else none
  | bitAnd | bitOr | bitXor =>
    if p.isIntegral && q.isIntegral then some (p.promoted q)
    else if p = .boolean ∧ q = .boolean then some .boolean
    else none

/-- The type of an operation, if there is one: a string if something is put together with a
string. -/
def result? (o : Operator) (t u : StaticType) : Option StaticType :=
  if o = plus ∧ (t = .string ∨ u = .string) then some .string
  else do
    let p ← t.unboxed?
    let q ← u.unboxed?
    (o.onPrimitives? p q).map .primitive

theorem onPrimitives?_cases {o : Operator} {p q r : Primitive} (h : o.onPrimitives? p q = some r) :
    p = .boolean ∧ r = .boolean ∨ p.isNumeric = true ∧
      (o.isShift = false ∧ r = p.promoted q ∨ o.isShift = true ∧ r = p.promoted .int) := by
  have hnumeric (hp : p.isIntegral = true) : p.isNumeric = true := by
    cases p
    case boolean => cases hp
    all_goals rfl
  cases o
  case plus | minus | times | divide | remainder =>
    simp only [onPrimitives?, Option.ite_none_right_eq_some, Bool.and_eq_true] at h
    obtain ⟨⟨hp, -⟩, hr⟩ := h
    exact .inr ⟨hp, .inl ⟨rfl, (Option.some.inj hr).symm⟩⟩
  case leftShift | rightShift | unsignedRightShift =>
    simp only [onPrimitives?, Option.ite_none_right_eq_some, Bool.and_eq_true] at h
    obtain ⟨⟨hp, -⟩, hr⟩ := h
    exact .inr ⟨hnumeric hp, .inr ⟨rfl, (Option.some.inj hr).symm⟩⟩
  case bitAnd | bitOr | bitXor =>
    rw [onPrimitives?] at h
    split_ifs at h with hintegral hboolean
    · rw [Bool.and_eq_true] at hintegral
      exact .inr ⟨hnumeric hintegral.left, .inl ⟨rfl, (Option.some.inj h).symm⟩⟩
    · exact .inl ⟨hboolean.left, (Option.some.inj h).symm⟩

theorem result?_cases {o : Operator} {t u v : StaticType} (h : o.result? t u = some v) :
    o = plus ∧ (t = .string ∨ u = .string) ∧ v = .string ∨
      ∃ p q r, t.unboxed? = some p ∧ u.unboxed? = some q ∧ o.onPrimitives? p q = some r ∧
        v = .primitive r := by
  rw [result?] at h
  split at h
  case isTrue hstring =>
    cases h
    exact .inl ⟨hstring.left, hstring.right, rfl⟩
  case isFalse =>
    obtain ⟨p, hp, h⟩ := Option.bind_eq_some_iff.mp h
    obtain ⟨q, hq, h⟩ := Option.bind_eq_some_iff.mp h
    obtain ⟨r, hr, rfl⟩ := Option.map_eq_some_iff.mp h
    exact .inr ⟨p, q, r, hp, hq, hr, rfl⟩

/-- The operator of an increment or a decrement. -/
def ofStep (isIncrement : Bool) : Operator := if isIncrement then plus else minus

theorem result?_ofStep {t : StaticType} {p : Primitive} (hp : t.unboxed? = some p)
    (hnumeric : p.isNumeric = true) (isIncrement : Bool) :
    (ofStep isIncrement).result? t (.primitive .int) = some (.primitive (p.promoted .int)) := by
  have hstring : t ≠ .string := by
    rintro rfl
    cases hp
  have hint : (StaticType.primitive .int).unboxed? = some .int := rfl
  have hsum : Primitive.int.isNumeric = true := rfl
  cases isIncrement
  all_goals simp [ofStep, result?, onPrimitives?, hp, hint, hstring, hnumeric, hsum]

end Operator

/-- Whether a value has to be narrowed to become one of a small type or of its boxed type, and can
be because it is a constant that the small type holds. -/
inductive Narrows : StaticType → Option Int → StaticType → Prop
  | primitive {p q : Primitive} {n : Int} (source : p = .int ∨ p.isSmall = true)
      (target : q.isSmall = true) (narrower : p.widensTo q = false) (holds : q.Holds n) :
      Narrows (.primitive p) (some n) (.primitive q)
  | boxed {p q : Primitive} {n : Int} (source : p = .int ∨ p.isSmall = true)
      (target : q.isSmall = true) (other : p ≠ q) (holds : q.Holds n) :
      Narrows (.primitive p) (some n) (.boxed q)

/-- What is known of the reference types of a program. -/
structure Hierarchy where
  /-- Whether the values of a reference type are values of another one. -/
  Below : StaticType → StaticType → Prop
  /-- Whether a cast between two reference types is allowed. -/
  Casts : StaticType → StaticType → Prop
  below_refl (t : StaticType) : Below t t
  /-- A class whose objects hold primitive values has no other such class below it. -/
  eq_of_below_boxed {p q : Primitive} (h : Below (.boxed p) (.boxed q)) : p = q

namespace Hierarchy

variable (H : Hierarchy)

/-- Whether an argument of the first type is converted to a parameter of the second. -/
def Passes : StaticType → StaticType → Prop
  | .primitive p, .primitive q => p.widensTo q = true
  | .primitive p, u => H.Below (.boxed p) u
  | t, .primitive q => ∃ p, t.unboxed? = some p ∧ p.widensTo q = true
  | t, u => H.Below t u

/-- Whether a value of the first type can be cast to the second. -/
def CastsTo : StaticType → StaticType → Prop
  | .primitive p, .primitive q => p = q ∨ p.isNumeric = true ∧ q.isNumeric = true
  | .primitive p, u => H.Below (.boxed p) u
  | t, .primitive q => ∃ p, t.unboxed? = some p ∧ p.widensTo q = true
  | t, u => H.Casts t u

/-- Whether a value can be assigned to a variable of the second type. -/
def Assigns (t : StaticType) (constant : Option Int) (u : StaticType) : Prop :=
  H.Passes t u ∨ Narrows t constant u

variable {H} {t u : StaticType} {n : Option Int}

theorem passes_refl (p : Primitive) : H.Passes (.primitive p) (.primitive p) := p.widensTo_refl

theorem not_castsTo_of_string (p : Primitive) : ¬H.CastsTo .string (.primitive p) := by
  rintro ⟨q, hq, -⟩
  cases hq

-- A primitive value is put into a box in the same way for a cast and for a call.
theorem passes_of_castsTo {p : Primitive} (hu : u.isReference = true)
    (h : H.CastsTo (.primitive p) u) : H.Passes (.primitive p) u := by
  cases u with
  | primitive q => cases hu
  | boxed | string | null | reference => exact h

theorem passes_string_iff (hu : u.isReference = true) :
    H.Passes .string u ↔ H.Below .string u := by
  cases u with
  | primitive q => cases hu
  | boxed | string | null | reference => exact Iff.rfl

-- What an assignment narrows is no argument.
theorem not_passes_of_narrows (h : Narrows t n u) : ¬H.Passes t u := by
  intro hpasses
  cases h with
  | primitive _ _ narrower =>
    rw [Passes, narrower] at hpasses
    cases hpasses
  | boxed _ _ other => exact other (H.eq_of_below_boxed hpasses)

theorem passes_iff_of_assigns (h : H.Assigns t n u) : H.Passes t u ↔ ¬Narrows t n u :=
  ⟨fun hpasses hnarrows => not_passes_of_narrows hnarrows hpasses, h.resolve_right⟩

end Hierarchy

end Java

end ClassSplit
