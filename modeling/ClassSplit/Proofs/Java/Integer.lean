import ClassSplit.Proofs.Java.Conversion

/-!
Values of the integral types and what the operators make of them. Values of the small types are
computed with as values of type `int`, all arithmetic wraps around, and a shift counts by the low
bits of its right operand. Only a division by zero has no value.
-/

namespace ClassSplit.Java

inductive Integral where
  | byte
  | short
  | char
  | int
  | long
  deriving DecidableEq

namespace Integral

def primitive : Integral → Primitive
  | byte => .byte
  | short => .short
  | char => .char
  | int => .int
  | long => .long

def word (t : Integral) : String := t.primitive.word

@[reducible] def width : Integral → Nat
  | byte => 8
  | short | char => 16
  | int => 32
  | long => 64

def isSigned : Integral → Bool
  | char => false
  | _ => true

/-- The type in which two values are combined. -/
def promoted (t u : Integral) : Integral := if t = long ∨ u = long then long else int

theorem primitive_promoted (t u : Integral) :
    (t.promoted u).primitive = t.primitive.promoted u.primitive := by
  cases t <;> cases u <;> rfl

/-- Whether values of the type are computed with as values of type `int`. -/
def isSmall (t : Integral) : Bool := t.primitive.isSmall

/-- Whether a value of the first type is one of the second, perhaps after a widening conversion. -/
def widensTo (t u : Integral) : Bool := t.primitive.widensTo u.primitive

@[simp] theorem widensTo_refl (t : Integral) : t.widensTo t = true := Primitive.widensTo_refl _

def all : List Integral := [byte, short, char, int, long]

/-- The type with a name. -/
def ofWord? (word : String) : Option Integral := all.find? (·.word == word)

@[simp] theorem ofWord?_word (t : Integral) : ofWord? t.word = some t := by
  cases t <;> rfl

theorem word_of_ofWord? {word : String} {t : Integral} (h : ofWord? word = some t) :
    t.word = word := by
  simpa using List.find?_some h

end Integral

structure Value where
  type : Integral
  bits : BitVec type.width
  deriving DecidableEq

namespace Value

/-- The number that a value stands for. -/
def number (v : Value) : Int := if v.type.isSigned then v.bits.toInt else v.bits.toNat

/-- The value of a type that a number wraps around to. -/
def ofNumber (t : Integral) (n : Int) : Value := ⟨t, BitVec.ofInt t.width n⟩

/-- The value as one of another type. -/
def convert (v : Value) (t : Integral) : Value := ofNumber t v.number

/-- The value as an argument or a result of a type, which must not narrow it. -/
def widened? (v : Value) (t : Integral) : Option Value :=
  if v.type.widensTo t then some (v.convert t) else none

/-- The value as it is assigned to a variable of a type. A constant that a small type holds is
narrowed to it. -/
def assigned? (v : Value) (isConstant : Bool) (t : Integral) : Option Value :=
  if v.type.widensTo t || isConstant && t.isSmall && v.type != .long
      && (v.convert t).number == v.number then
    some (v.convert t)
  else none

/-- What an increment or a decrement makes of a value. -/
def step (v : Value) (isIncrement : Bool) : Value :=
  ofNumber v.type (v.number + if isIncrement then 1 else -1)

@[simp] theorem type_ofNumber (t : Integral) (n : Int) : (ofNumber t n).type = t := rfl

@[simp] theorem type_convert (v : Value) (t : Integral) : (v.convert t).type = t := rfl

@[simp] theorem type_step (v : Value) (isIncrement : Bool) : (v.step isIncrement).type = v.type :=
  rfl

@[simp] theorem convert_type (v : Value) : v.convert v.type = v := by
  obtain ⟨t, bits⟩ := v
  rw [convert, ofNumber, number]
  cases t
  case char => simp [Integral.isSigned, BitVec.ofInt_natCast]
  all_goals simp [Integral.isSigned]

theorem convert_of_type_eq {v : Value} {t : Integral} (h : v.type = t) : v.convert t = v := by
  rw [← h, convert_type]

@[simp] theorem convert_convert (v : Value) (t : Integral) :
    (v.convert t).convert t = v.convert t :=
  convert_of_type_eq rfl

theorem widened?_of_type_eq {v : Value} {t : Integral} (h : v.type = t) :
    v.widened? t = some v := by
  rw [widened?, h, Integral.widensTo_refl, if_pos rfl, convert_of_type_eq h]

@[simp] theorem widened?_convert (v : Value) (t : Integral) :
    (v.convert t).widened? t = some (v.convert t) :=
  widened?_of_type_eq rfl

-- What is assigned without being narrowed can be an argument.
theorem widened?_of_assigned? {v w : Value} {isConstant : Bool} {t : Integral}
    (h : v.assigned? isConstant t = some w) (hsmall : isConstant = true → t.isSmall = false) :
    v.widened? t = some w := by
  rw [assigned?, Option.ite_none_right_eq_some, Bool.or_eq_true] at h
  obtain ⟨hwidens | hnarrows, heq⟩ := h
  · rw [widened?, if_pos hwidens, heq]
  · simp only [Bool.and_eq_true] at hnarrows
    obtain ⟨⟨⟨hconstant, htype⟩, -⟩, -⟩ := hnarrows
    rw [hsmall hconstant] at htype
    cases htype

theorem assigned?_of_type_eq {v : Value} {t : Integral} (h : v.type = t) (isConstant : Bool) :
    v.assigned? isConstant t = some v := by
  rw [assigned?, h, Integral.widensTo_refl, Bool.true_or, if_pos rfl, convert_of_type_eq h]

theorem type_of_assigned? {v w : Value} {isConstant : Bool} {t : Integral}
    (h : v.assigned? isConstant t = some w) : w.type = t := by
  rw [assigned?, Option.ite_none_right_eq_some] at h
  rw [← Option.some.inj h.right, type_convert]

end Value

namespace Operator

/-- The operation on the bits of two values of one type. A shift does not depend on the type of its
right operand. -/
def onBits? {width : Nat} (o : Operator) (x y : BitVec width) : Option (BitVec width) :=
  match o with
  | plus => some (x + y)
  | minus => some (x - y)
  | times => some (x * y)
  | divide => if y = 0 then none else some (x.sdiv y)
  | remainder => if y = 0 then none else some (x.srem y)
  | bitAnd => some (x &&& y)
  | bitOr => some (x ||| y)
  | bitXor => some (x ^^^ y)
  | leftShift => some (x <<< (y.toNat % width))
  | rightShift => some (x.sshiftRight (y.toNat % width))
  | unsignedRightShift => some (x >>> (y.toNat % width))

/-- The type of an operation on two integral values. -/
def typeOf (o : Operator) (t u : Integral) : Integral :=
  if o.isShift then t.promoted .int else t.promoted u

/-- The value of an operation, if there is one. -/
def applied? (o : Operator) (v w : Value) : Option Value :=
  let t := o.typeOf v.type w.type
  (o.onBits? (v.convert t).bits (w.convert t).bits).map (Value.mk t)

theorem onPrimitives?_primitive (o : Operator) (t u : Integral) :
    o.onPrimitives? t.primitive u.primitive = some (o.typeOf t u).primitive := by
  cases o <;> cases t <;> cases u <;> rfl

theorem type_of_applied? {o : Operator} {v w x : Value} (h : o.applied? v w = some x) :
    x.type = o.typeOf v.type w.type := by
  obtain ⟨bits, -, rfl⟩ := Option.map_eq_some_iff.mp h
  rfl

example : divide.applied? (.ofNumber .int (-7)) (.ofNumber .byte 2) = some (.ofNumber .int (-3)) := by
  decide +kernel

example : unsignedRightShift.applied? (.ofNumber .byte (-1)) (.ofNumber .long 33) =
    some (.ofNumber .int 0x7fffffff) := by
  decide +kernel

end Operator

end ClassSplit.Java
