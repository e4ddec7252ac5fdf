import ClassSplit.Proofs.Java.Integer

/-!
What statements over integral variables do. Operands are evaluated from the left to the right; what
is seen on the way are the values of names, literals, operations, increments and calls, in the order
in which they are computed. Methods that only give back or store a value run on the fields of their
own object.
-/

namespace ClassSplit.Java

/-- A variable by its name alone, or a field of the object that runs. -/
inductive Holder where
  | name (word : String)
  | own (field : String)
  deriving DecidableEq

inductive Expression where
  | literal (v : Value)
  | read (x : Holder)
  | grouped (e : Expression)
  | binary (o : Operator) (left right : Expression)
  | step (isIncrement isFront : Bool) (x : Holder)
  | cast (t : Integral) (e : Expression)
  /-- A call without arguments of a method of an object that has a name. -/
  | call (object method : String)
  deriving DecidableEq

inductive Statement where
  | assign (x : Holder) (e : Expression)
  | combine (x : Holder) (o : Operator) (e : Expression)
  | evaluate (e : Expression)
  /-- A call with an argument. -/
  | send (object method : String) (argument : Expression)
  deriving DecidableEq

/-- Whether the value is known without running anything. -/
def Expression.isConstant : Expression → Bool
  | literal _ => true
  | read _ | step .. | call .. => false
  | grouped e | cast _ e => e.isConstant
  | binary _ left right => left.isConstant && right.isConstant

/-- What names mean, for states of some kind. -/
structure Environment (σ : Type) where
  read : Holder → σ → Option Value
  /-- The type of a variable that can be assigned. -/
  type? : Holder → Option Integral
  /-- The state after a variable has got a value of its type. -/
  write : Holder → Value → σ → σ
  /-- The result of a call, if it has one, and the state after it. -/
  call : String → String → Option Value → σ → Option (Option Value × σ)

/-- The value of an expression, the state after it and what has been seen. -/
structure Evaluation (σ : Type) where
  value : Value
  state : σ
  seen : List Value

variable {σ : Type}

/-- There is no outcome where a name means nothing, or where a division has no value. -/
def Expression.outcome? (E : Environment σ) : Expression → σ → Option (Evaluation σ)
  | literal v, s => some ⟨v, s, [v]⟩
  | read x, s => (E.read x s).map fun v => ⟨v, s, [v]⟩
  | grouped e, s => e.outcome? E s
  | binary o left right, s => do
    let a ← left.outcome? E s
    let b ← right.outcome? E a.state
    let v ← o.applied? a.value b.value
    some ⟨v, b.state, a.seen ++ b.seen ++ [v]⟩
  | step isIncrement isFront x, s => do
    let old ← E.read x s
    let t ← E.type? x
    let new := (old.step isIncrement).convert t
    let v := if isFront then new else old
    some ⟨v, E.write x new s, [v]⟩
  | cast t e, s => (e.outcome? E s).map fun a => { a with value := a.value.convert t }
  | call object method, s => do
    let (result, s') ← E.call object method none s
    let v ← result
    some ⟨v, s', [v]⟩

theorem Expression.outcome?_binary {E : Environment σ} {o : Operator} {left right : Expression}
    {s : σ} {a : Evaluation σ} (h : left.outcome? E s = some a) :
    (binary o left right).outcome? E s = (right.outcome? E a.state).bind fun b =>
      (o.applied? a.value b.value).map fun v => ⟨v, b.state, a.seen ++ b.seen ++ [v]⟩ := by
  rw [outcome?, h, Option.bind_eq_bind, Option.bind_some]
  refine Option.bind_congr fun b _ => ?_
  rw [Option.bind_eq_bind, Option.map_eq_bind]
  rfl

namespace Statement

/-- The state after a statement and what has been seen. -/
def run? (E : Environment σ) : Statement → σ → Option (σ × List Value)
  | assign x e, s => do
    let a ← e.outcome? E s
    let t ← E.type? x
    let v ← a.value.assigned? e.isConstant t
    some (E.write x v a.state, a.seen)
  | combine x o e, s => do
    let old ← E.read x s
    let a ← e.outcome? E s
    let t ← E.type? x
    let v ← o.applied? old a.value
    some (E.write x (v.convert t) a.state, old :: a.seen ++ [v])
  | evaluate e, s => (e.outcome? E s).map fun a => (a.state, a.seen)
  | send object method e, s => do
    let a ← e.outcome? E s
    let (_, s') ← E.call object method (some a.value) a.state
    some (s', a.seen)

def runAll? (E : Environment σ) : List Statement → σ → Option (σ × List Value)
  | [], s => some (s, [])
  | t :: ts, s => do
    let (s', seen) ← t.run? E s
    let (s'', seen') ← runAll? E ts s'
    some (s'', seen ++ seen')

end Statement

/-- The values of the fields of an object by their names. -/
abbrev Fields := String → Value

/-- Fields with these types have values of these types. -/
def Fields.Typed (types : String → Option Integral) (s : Fields) : Prop :=
  ∀ x t, types x = some t → (s x).type = t

/-- The value of a field after an assignment. -/
def Fields.assign (s : Fields) (field : String) (v : Value) : Fields :=
  fun x => if x = field then v else s x

theorem Fields.Typed.assign {types : String → Option Integral} {s : Fields} {field : String}
    {v : Value} (h : s.Typed types) (hv : types field = some v.type) :
    (s.assign field v).Typed types := by
  intro x t hx
  by_cases heq : x = field
  case pos =>
    rw [heq, hv] at hx
    rw [Fields.assign, if_pos heq]
    exact Option.some.inj hx
  case neg =>
    rw [Fields.assign, if_neg heq]
    exact h x t hx

namespace Environment

/-- The field that a variable is. A parameter hides the field of its name. -/
def field? (parameters : String → Option Value) (types : String → Option Integral) :
    Holder → Option String
  | .name x => if (parameters x).isSome ∨ types x = none then none else some x
  | .own x => if types x = none then none else some x

/-- Statements in a method of an object, which assign only to its fields. -/
def inside (parameters : String → Option Value) (types : String → Option Integral) :
    Environment Fields where
  read
    | .name x, s => (parameters x).or ((types x).map fun _ => s x)
    | .own x, s => (types x).map fun _ => s x
  type? x := (field? parameters types x).bind types
  write x v s := (field? parameters types x).elim s (s.assign · v)
  call _ _ _ _ := none

end Environment

/-- What the body of a method consists of. -/
inductive Procedure.Body where
  | giveBack (e : Expression)
  | run (t : Statement)
  deriving DecidableEq

/-- A method that gives back or stores a value. -/
structure Procedure where
  name : String
  /-- The type and the name of the parameter. -/
  parameter? : Option (Integral × String)
  /-- The type of the result. A method without a result has none. -/
  result? : Option Integral
  body : Procedure.Body
  deriving DecidableEq

namespace Procedure

/-- The parameter with the argument of a call, if there are as many of the one as of the other. -/
def arguments? (p : Procedure) (argument : Option Value) : Option (String → Option Value) :=
  match p.parameter?, argument with
  | none, none => some fun _ => none
  | some (t, x), some v => (v.widened? t).map fun w y => if y = x then some w else none
  | _, _ => none

/-- The result of a call and the fields after it. -/
def run? (p : Procedure) (types : String → Option Integral) (argument : Option Value)
    (s : Fields) : Option (Option Value × Fields) := do
  let parameters ← p.arguments? argument
  let E := Environment.inside parameters types
  match p.body, p.result? with
  | .giveBack e, some t => do
    let a ← e.outcome? E s
    let v ← a.value.assigned? e.isConstant t
    some (some v, a.state)
  | .run t, none => (t.run? E s).map fun (s', _) => (none, s')
  | _, _ => none

end Procedure

namespace Environment

/-- Statements in a method of an object that has handed its fields over to a helper. It has no
fields of its own besides, and calls of the helper run its methods. A parameter hides the helper. -/
def delegating (parameters : String → Option Value) (types : String → Option Integral)
    (helper : String) (methods : List Procedure) : Environment Fields where
  read
    | .name x, _ => parameters x
    | .own _, _ => none
  type? _ := none
  write _ _ s := s
  call object method argument s :=
    if object = helper ∧ parameters helper = none then
      (methods.find? (·.name == method)).bind (·.run? types argument s)
    else none

end Environment

end ClassSplit.Java
