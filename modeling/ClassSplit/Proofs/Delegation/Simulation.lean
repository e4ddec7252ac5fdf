import ClassSplit.NewClass.Accessor
import ClassSplit.Proofs.Java.Execution

/-!
Statements that reach the fields of their object through the methods of a helper do what they did
when the fields were their own: they end in the same fields, and the same values are seen on the way.
Main statement: `Routing.runAll?_delegated`.
-/

namespace ClassSplit

open Java

/-- How a field that has moved is reached: its type and the names of the methods. -/
structure Route where
  type : Integral
  nameOf : AccessorForm → String

namespace AccessorForm

/-- The method of a field that an increment or a decrement becomes a call of. -/
def ofStep (isIncrement isFront : Bool) : AccessorForm :=
  match isIncrement, isFront with
  | true, true => increment
  | true, false => postIncrement
  | false, true => decrement
  | false, false => postDecrement

/-- What the accessors of a field do. The parameter of the setter hides the field. -/
def procedure (form : AccessorForm) (t : Integral) (field name : String) : Procedure :=
  match form with
  | getter => ⟨name, none, some t, .giveBack (.read (.name field))⟩
  | setter => ⟨name, some (t, field), none, .run (.assign (.own field) (.read (.name field)))⟩
  | increment => ⟨name, none, some t, .giveBack (.step true true (.name field))⟩
  | postIncrement => ⟨name, none, some t, .giveBack (.step true false (.name field))⟩
  | decrement => ⟨name, none, some t, .giveBack (.step false true (.name field))⟩
  | postDecrement => ⟨name, none, some t, .giveBack (.step false false (.name field))⟩

theorem procedure_ofStep (isIncrement isFront : Bool) (t : Integral) (field name : String) :
    (ofStep isIncrement isFront).procedure t field name =
      ⟨name, none, some t, .giveBack (.step isIncrement isFront (.name field))⟩ := by
  cases isIncrement <;> cases isFront <;> rfl

end AccessorForm

/-- Where the fields have moved to: the helper that has them, how each is reached, and the names of
parameters, which hide fields. -/
structure Routing where
  helper : String
  route : String → Option Route
  isParameter : String → Bool

namespace Routing

variable (R : Routing)

def types (x : String) : Option Integral := (R.route x).map (·.type)

/-- The field that a variable is. -/
def field? : Holder → Option String
  | .name x => if R.isParameter x || (R.route x).isNone then none else some x
  | .own x => if (R.route x).isNone then none else some x

/-- The field that a variable is, and how it is reached. -/
def route? (x : Holder) : Option Route := (R.field? x).bind R.route

/-- The methods of the new class have the accessors of the fields. -/
def ServedBy (methods : List Procedure) : Prop :=
  ∀ x r, R.route x = some r → ∀ form : AccessorForm,
    methods.find? (·.name == r.nameOf form) = some (form.procedure r.type x (r.nameOf form))

/-- The values of the parameters, none of which has the name of the helper. -/
structure Supplies (parameters : String → Option Value) : Prop where
  isParameter : ∀ x, (parameters x).isSome = R.isParameter x
  helper : R.isParameter R.helper = false

end Routing

/-- An expression that is an operand without parentheses. -/
def Java.Expression.isOperand : Expression → Bool
  | literal _ | read _ | grouped _ | call _ _ => true
  | binary .. | step .. | cast .. => false

/-- An expression without calls. -/
def Java.Expression.IsLocal : Expression → Prop
  | literal _ | read _ | step .. => True
  | grouped e | cast _ e => e.IsLocal
  | binary _ left right => left.IsLocal ∧ right.IsLocal
  | call .. => False

namespace Routing

variable (R : Routing)

/-- An expression with its fields reached through the helper. -/
def delegated : Expression → Expression
  | .literal v => .literal v
  | .read x =>
    match R.route? x with
    | some r => .call R.helper (r.nameOf .getter)
    | none => .read x
  | .grouped e => .grouped (delegated e)
  | .binary o left right => .binary o (delegated left) (delegated right)
  | .step isIncrement isFront x =>
    match R.route? x with
    | some r => .call R.helper (r.nameOf (.ofStep isIncrement isFront))
    | none => .step isIncrement isFront x
  | .cast t e => .cast t (delegated e)
  | .call object method => .call object method

/-- Whether the value of an operation is cast to the type of the field. -/
def needsCast (t : Integral) (o : Operator) (right : Expression) : Bool :=
  !(o.isShift && (t == .int || t == .long)) &&
    match right, t with
    | .literal v, .int => v.type == .long
    | .literal _, .long => false
    | _, _ => true

/-- The value that a compound assignment stores. -/
def combination (r : Route) (o : Operator) (right : Expression) : Expression :=
  let operand := if right.isOperand then R.delegated right else .grouped (R.delegated right)
  let value := Expression.binary o (.call R.helper (r.nameOf .getter)) operand
  if needsCast r.type o right then .cast r.type (.grouped value) else value

/-- A statement with its fields reached through the helper. -/
def delegatedStatement : Statement → Statement
  | .assign x e =>
    match R.route? x with
    | some r => .send R.helper (r.nameOf .setter) (R.delegated e)
    | none => .assign x (R.delegated e)
  | .combine x o e =>
    match R.route? x with
    | some r => .send R.helper (r.nameOf .setter) (R.combination r o e)
    | none => .combine x o (R.delegated e)
  | .evaluate e => .evaluate (R.delegated e)
  | .send object method e => .send object method (R.delegated e)

/-- A statement without calls that assigns no constant to a field of a small type. An argument of a
call is not narrowed. -/
def Accepts : Statement → Prop
  | .assign x e =>
    e.IsLocal ∧ ∀ r, R.route? x = some r → e.isConstant = true → r.type.isSmall = false
  | .combine _ _ e | .evaluate e => e.IsLocal
  | .send .. => False

end Routing

namespace Routing

variable {R : Routing} {methods : List Procedure} {parameters : String → Option Value}
  {s : Fields} {x : Holder} {field : String} {r : Route}

theorem types_eq_none_iff : R.types field = none ↔ (R.route field).isNone = true := by
  rw [types, Option.map_eq_none_iff, Option.isNone_iff_eq_none]

theorem types_eq_some (h : R.route field = some r) : R.types field = some r.type := by
  rw [types, h, Option.map_some]

theorem field?_inside (h : R.Supplies parameters) (x : Holder) :
    Environment.field? parameters R.types x = R.field? x := by
  cases x with
  | name word =>
    simp only [Environment.field?, field?, h.isParameter, types_eq_none_iff, Bool.or_eq_true]
  | own word =>
    rw [Environment.field?, field?]
    simp only [types_eq_none_iff]

theorem exists_of_route?_eq_some (h : R.route? x = some r) :
    ∃ field, R.field? x = some field ∧ R.route field = some r :=
  Option.bind_eq_some_iff.mp h

theorem isSome_route_of_field? (h : R.field? x = some field) : (R.route field).isSome = true := by
  rw [← Bool.not_eq_false, Option.isSome_eq_false_iff]
  cases x with
  | name word =>
    simp only [field?, Option.ite_none_left_eq_some, Bool.or_eq_true, not_or] at h
    obtain ⟨⟨-, hroute⟩, hfield⟩ := h
    rwa [Option.some.inj hfield] at hroute
  | own word =>
    simp only [field?, Option.ite_none_left_eq_some] at h
    obtain ⟨hroute, hfield⟩ := h
    rwa [Option.some.inj hfield] at hroute

theorem field?_eq_none_of_route? (h : R.route? x = none) : R.field? x = none := by
  cases hfield : R.field? x with
  | none => rfl
  | some field =>
    have hsome := isSome_route_of_field? hfield
    rw [route?, hfield, Option.bind_some] at h
    rw [h] at hsome
    cases hsome

section Inside

variable (h : R.Supplies parameters)

include h

-- What is read of a variable that is a field, and what is not.
theorem read_inside_of_route? (hfield : R.field? x = some field) (s : Fields) :
    (Environment.inside parameters R.types).read x s = some (s field) := by
  obtain ⟨r, hr⟩ := Option.isSome_iff_exists.mp (isSome_route_of_field? hfield)
  cases x with
  | name word =>
    simp only [field?, Option.ite_none_left_eq_some, Bool.or_eq_true, not_or] at hfield
    obtain ⟨⟨hparameter, -⟩, hword⟩ := hfield
    obtain rfl := Option.some.inj hword
    have hnone : parameters word = none := by
      rw [← Option.isNone_iff_eq_none, ← Option.not_isSome, h.isParameter]
      simpa using hparameter
    simp [Environment.inside, hnone, types_eq_some hr]
  | own word =>
    simp only [field?, Option.ite_none_left_eq_some] at hfield
    obtain rfl := Option.some.inj hfield.right
    simp [Environment.inside, types_eq_some hr]

theorem read_inside_of_none (hfield : R.field? x = none) (s : Fields) :
    (Environment.inside parameters R.types).read x s =
      (Environment.delegating parameters R.types R.helper methods).read x s := by
  cases x with
  | name word =>
    rw [Environment.inside, Environment.delegating]
    dsimp only
    simp only [field?, ite_eq_left_iff, reduceCtorEq, imp_false, Decidable.not_not,
      Bool.or_eq_true] at hfield
    obtain hparameter | hroute := hfield
    · rw [← h.isParameter] at hparameter
      obtain ⟨v, hv⟩ := Option.isSome_iff_exists.mp hparameter
      rw [hv, Option.some_or]
    · rw [types_eq_none_iff.mpr hroute, Option.map_none, Option.or_none]
  | own word =>
    rw [Environment.inside, Environment.delegating]
    dsimp only
    simp only [field?, ite_eq_left_iff, reduceCtorEq, imp_false, Decidable.not_not] at hfield
    rw [types_eq_none_iff.mpr hfield, Option.map_none]

theorem type?_inside_of_route (hfield : R.field? x = some field) (hr : R.route field = some r) :
    (Environment.inside parameters R.types).type? x = some r.type := by
  rw [Environment.inside]
  dsimp only
  rw [field?_inside h, hfield, Option.bind_some, types_eq_some hr]

theorem type?_inside_of_none (hfield : R.field? x = none) :
    (Environment.inside parameters R.types).type? x = none := by
  rw [Environment.inside]
  dsimp only
  rw [field?_inside h, hfield, Option.bind_none]

theorem write_inside_of_field? (hfield : R.field? x = some field) (v : Value) (s : Fields) :
    (Environment.inside parameters R.types).write x v s = s.assign field v := by
  rw [Environment.inside]
  dsimp only
  rw [field?_inside h, hfield, Option.elim_some]

end Inside

section Procedure

variable (hr : R.route field = some r)

include hr

theorem run?_getter (hs : (s field).type = r.type) (name : String) :
    (AccessorForm.getter.procedure r.type field name).run? R.types none s =
      some (some (s field), s) := by
  simp [AccessorForm.procedure, Procedure.run?, Procedure.arguments?, Expression.outcome?,
    Environment.inside, types_eq_some hr, Value.assigned?_of_type_eq hs]

theorem run?_setter {v w : Value} (hv : v.widened? r.type = some w) (name : String) :
    (AccessorForm.setter.procedure r.type field name).run? R.types (some v) s =
      some (none, s.assign field w) := by
  have htype : w.type = r.type := by
    rw [Value.widened?, Option.ite_none_right_eq_some] at hv
    rw [← Option.some.inj hv.right, Value.type_convert]
  simp [AccessorForm.procedure, Procedure.run?, Procedure.arguments?, Statement.run?,
    Expression.outcome?, Environment.inside, Environment.field?, types_eq_some hr, hv,
    Value.assigned?_of_type_eq htype]

theorem run?_step (hs : (s field).type = r.type) (isIncrement isFront : Bool) (name : String) :
    ((AccessorForm.ofStep isIncrement isFront).procedure r.type field name).run? R.types none s =
      some (some (if isFront then (s field).step isIncrement else s field),
        s.assign field ((s field).step isIncrement)) := by
  have hstep : ((s field).step isIncrement).convert r.type = (s field).step isIncrement :=
    Value.convert_of_type_eq hs
  have hvalue : (if isFront then (s field).step isIncrement else s field).type = r.type := by
    cases isFront
    case false => exact hs
    case true => exact hs
  rw [AccessorForm.procedure_ofStep]
  simp [Procedure.run?, Procedure.arguments?, Expression.outcome?, Environment.inside,
    Environment.field?, types_eq_some hr, hstep, Value.assigned?_of_type_eq hvalue]

end Procedure

section Simulation

variable (hserved : R.ServedBy methods) (h : R.Supplies parameters)

include hserved h

theorem call_delegating (hr : R.route field = some r) (form : AccessorForm)
    (argument : Option Value) (s : Fields) :
    (Environment.delegating parameters R.types R.helper methods).call R.helper (r.nameOf form)
        argument s =
      (form.procedure r.type field (r.nameOf form)).run? R.types argument s := by
  have hnone : parameters R.helper = none := by
    rw [← Option.isNone_iff_eq_none, ← Option.not_isSome, h.isParameter, h.helper]
    rfl
  rw [Environment.delegating]
  dsimp only
  rw [if_pos ⟨rfl, hnone⟩, hserved field r hr form, Option.bind_some]

-- An expression has the same outcome, and the fields keep their types.
theorem outcome?_delegated {e : Expression} (he : e.IsLocal) (hs : s.Typed R.types) :
    (R.delegated e).outcome? (.delegating parameters R.types R.helper methods) s =
        e.outcome? (.inside parameters R.types) s ∧
      ∀ a, e.outcome? (.inside parameters R.types) s = some a → a.state.Typed R.types := by
  induction e generalizing s with
  | literal v =>
    refine ⟨rfl, fun a ha => ?_⟩
    cases ha
    exact hs
  | read x =>
    constructor
    case right =>
      intro a ha
      obtain ⟨v, -, rfl⟩ := Option.map_eq_some_iff.mp ha
      exact hs
    case left =>
      rw [delegated]
      cases hroute : R.route? x with
      | none =>
        rw [Expression.outcome?, Expression.outcome?,
          read_inside_of_none h (field?_eq_none_of_route? hroute)]
      | some r =>
        obtain ⟨field, hfield, hr⟩ := exists_of_route?_eq_some hroute
        have htype := hs field r.type (types_eq_some hr)
        simp [Expression.outcome?, call_delegating hserved h hr, run?_getter hr htype,
          read_inside_of_route? h hfield]
  | grouped e ih => exact ih he hs
  | binary o left right ihl ihr =>
    obtain ⟨hleft, hright⟩ := he
    obtain ⟨heq, htyped⟩ := ihl hleft hs
    rw [delegated, Expression.outcome?, Expression.outcome?, heq]
    cases ha : left.outcome? (.inside parameters R.types) s with
    | none => exact ⟨rfl, fun a ha => by cases ha⟩
    | some a =>
      obtain ⟨heq', htyped'⟩ := ihr hright (htyped a ha)
      simp only [Option.bind_eq_bind, Option.bind_some, heq', true_and]
      intro c hc
      obtain ⟨b, hb, hc⟩ := Option.bind_eq_some_iff.mp hc
      obtain ⟨v, -, hc⟩ := Option.bind_eq_some_iff.mp hc
      cases hc
      exact htyped' b hb
  | step isIncrement isFront x =>
    rw [delegated]
    cases hroute : R.route? x with
    | none =>
      have hfield := field?_eq_none_of_route? hroute
      have hread := @read_inside_of_none R methods parameters x h hfield s
      simp only [Expression.outcome?, hread, type?_inside_of_none h hfield]
      cases (Environment.delegating parameters R.types R.helper methods).read x s with
      | none => exact ⟨rfl, fun a ha => by cases ha⟩
      | some old => exact ⟨rfl, fun a ha => by cases ha⟩
    | some r =>
      obtain ⟨field, hfield, hr⟩ := exists_of_route?_eq_some hroute
      have htype := hs field r.type (types_eq_some hr)
      have hstep : ((s field).step isIncrement).convert r.type = (s field).step isIncrement :=
        Value.convert_of_type_eq htype
      simp only [Expression.outcome?, call_delegating hserved h hr, run?_step hr htype,
        read_inside_of_route? h hfield, type?_inside_of_route h hfield hr,
        write_inside_of_field? h hfield, hstep, Option.bind_eq_bind, Option.bind_some, true_and]
      intro a ha
      cases ha
      exact hs.assign (by rw [Value.type_step, htype, types_eq_some hr])
  | cast t e ih =>
    obtain ⟨heq, htyped⟩ := ih he hs
    rw [delegated, Expression.outcome?, Expression.outcome?, heq]
    refine ⟨rfl, fun a ha => ?_⟩
    obtain ⟨b, hb, rfl⟩ := Option.map_eq_some_iff.mp ha
    exact htyped b hb
  | call => exact absurd he id

omit hserved h in
-- Where the cast is left out, the value of the operation has the type of the field.
theorem type_eq_of_needsCast {t : Integral} {o : Operator} {e : Expression} {a : Evaluation Fields}
    {old v : Value} (hcast : needsCast t o e = false) (hold : old.type = t)
    (ha : e.outcome? (.inside parameters R.types) s = some a)
    (hv : o.applied? old a.value = some v) : v.type = t := by
  have htype := Operator.type_of_applied? hv
  rw [hold] at htype
  rw [htype, Operator.typeOf]
  unfold needsCast at hcast
  rw [Bool.and_eq_false_iff] at hcast
  obtain hshift | hliteral := hcast
  case inl =>
    simp only [Bool.not_eq_false', Bool.and_eq_true, Bool.or_eq_true, beq_iff_eq] at hshift
    obtain ⟨hshift, rfl | rfl⟩ := hshift
    all_goals
      rw [if_pos hshift]
      rfl
  case inr =>
    cases e
    case literal w =>
      cases ha
      cases t
      case int =>
        have hint : w.type ≠ .long := bne_iff_ne.mp (by simpa [bne] using hliteral)
        cases o.isShift
        all_goals simp [Integral.promoted, hint]
      case long =>
        cases o.isShift
        all_goals simp [Integral.promoted]
      all_goals cases hliteral
    all_goals cases hliteral

-- The value that is handed over has the type of the field.
theorem outcome?_combination {o : Operator} {e : Expression} {a : Evaluation Fields} {v : Value}
    (hr : R.route field = some r) (he : e.IsLocal) (hs : s.Typed R.types)
    (ha : e.outcome? (.inside parameters R.types) s = some a)
    (hv : o.applied? (s field) a.value = some v) :
    (R.combination r o e).outcome? (.delegating parameters R.types R.helper methods) s =
      some ⟨v.convert r.type, a.state, s field :: a.seen ++ [v]⟩ := by
  have htype := hs field r.type (types_eq_some hr)
  have hcall : (Expression.call R.helper (r.nameOf .getter)).outcome?
      (.delegating parameters R.types R.helper methods) s = some ⟨s field, s, [s field]⟩ := by
    simp [Expression.outcome?, call_delegating hserved h hr, run?_getter hr htype]
  have hoperand : (if e.isOperand then R.delegated e else .grouped (R.delegated e)).outcome?
      (.delegating parameters R.types R.helper methods) s = some a := by
    have heq := (outcome?_delegated hserved h he hs).left
    rw [ha] at heq
    split
    case isTrue => exact heq
    case isFalse => exact heq
  have hvalue : (Expression.binary o (.call R.helper (r.nameOf .getter))
      (if e.isOperand then R.delegated e else .grouped (R.delegated e))).outcome?
        (.delegating parameters R.types R.helper methods) s =
          some ⟨v, a.state, s field :: a.seen ++ [v]⟩ := by
    rw [Expression.outcome?_binary hcall, hoperand, Option.bind_some, hv]
    rfl
  rw [combination]
  split
  case isTrue => rw [Expression.outcome?, Expression.outcome?, hvalue, Option.map_some]
  case isFalse hcast =>
    rw [hvalue, Value.convert_of_type_eq
      (type_eq_of_needsCast (Bool.eq_false_iff.mpr hcast) htype ha hv)]

-- A statement does what it did, and the fields keep their types.
theorem run?_delegatedStatement {t : Statement} {o : Fields × List Value} (ht : R.Accepts t)
    (hs : s.Typed R.types) (ho : t.run? (.inside parameters R.types) s = some o) :
    (R.delegatedStatement t).run? (.delegating parameters R.types R.helper methods) s = some o ∧
      o.1.Typed R.types := by
  cases t with
  | assign x e =>
    obtain ⟨hlocal, hconstant⟩ := ht
    obtain ⟨a, ha, ho⟩ := Option.bind_eq_some_iff.mp ho
    obtain ⟨t, ht, ho⟩ := Option.bind_eq_some_iff.mp ho
    obtain ⟨v, hv, ho⟩ := Option.bind_eq_some_iff.mp ho
    cases ho
    obtain ⟨heq, htyped⟩ := outcome?_delegated hserved h hlocal hs
    rw [delegatedStatement]
    cases hroute : R.route? x with
    | none =>
      rw [type?_inside_of_none h (field?_eq_none_of_route? hroute)] at ht
      cases ht
    | some r =>
      obtain ⟨field, hfield, hr⟩ := exists_of_route?_eq_some hroute
      rw [type?_inside_of_route h hfield hr] at ht
      cases ht
      have hwidened := Value.widened?_of_assigned? hv (hconstant r hroute)
      rw [write_inside_of_field? h hfield]
      refine ⟨?_, (htyped a ha).assign ?_⟩
      · simp [Statement.run?, heq, ha, call_delegating hserved h hr, run?_setter hr hwidened]
      · rw [Value.type_of_assigned? hv, types_eq_some hr]
  | combine x o e =>
    obtain ⟨old, hold, ho⟩ := Option.bind_eq_some_iff.mp ho
    obtain ⟨a, ha, ho⟩ := Option.bind_eq_some_iff.mp ho
    obtain ⟨t, htype, ho⟩ := Option.bind_eq_some_iff.mp ho
    obtain ⟨v, hv, ho⟩ := Option.bind_eq_some_iff.mp ho
    cases ho
    obtain ⟨-, htyped⟩ := outcome?_delegated hserved h ht hs
    rw [delegatedStatement]
    cases hroute : R.route? x with
    | none =>
      rw [type?_inside_of_none h (field?_eq_none_of_route? hroute)] at htype
      cases htype
    | some r =>
      obtain ⟨field, hfield, hr⟩ := exists_of_route?_eq_some hroute
      rw [type?_inside_of_route h hfield hr] at htype
      cases htype
      rw [read_inside_of_route? h hfield] at hold
      cases hold
      have hvalue := outcome?_combination hserved h hr ht hs ha hv
      rw [write_inside_of_field? h hfield]
      refine ⟨?_, (htyped a ha).assign (by rw [Value.type_convert, types_eq_some hr])⟩
      simp [Statement.run?, hvalue, call_delegating hserved h hr,
        run?_setter hr (Value.widened?_convert v r.type)]
  | evaluate e =>
    obtain ⟨a, ha, rfl⟩ := Option.map_eq_some_iff.mp ho
    obtain ⟨heq, htyped⟩ := outcome?_delegated hserved h ht hs
    refine ⟨?_, htyped a ha⟩
    rw [delegatedStatement, Statement.run?, heq, ha, Option.map_some]
  | send => exact absurd ht id

-- A run of statements ends in the same fields, and the same values are seen.
theorem runAll?_delegated {ts : List Statement} {o : Fields × List Value}
    (hts : ∀ t ∈ ts, R.Accepts t) (hs : s.Typed R.types)
    (ho : Statement.runAll? (.inside parameters R.types) ts s = some o) :
    Statement.runAll? (.delegating parameters R.types R.helper methods)
      (ts.map R.delegatedStatement) s = some o := by
  induction ts generalizing s o with
  | nil => exact ho
  | cons t ts ih =>
    obtain ⟨⟨s', seen⟩, ht, ho⟩ := Option.bind_eq_some_iff.mp ho
    obtain ⟨⟨s'', seen'⟩, hrest, ho⟩ := Option.bind_eq_some_iff.mp ho
    cases ho
    obtain ⟨heq, htyped⟩ :=
      run?_delegatedStatement hserved h (hts t List.mem_cons_self) hs ht
    have hrest' := ih (fun u hu => hts u (List.mem_cons_of_mem _ hu)) htyped hrest
    simp [Statement.runAll?, heq, hrest']

end Simulation

end Routing

end ClassSplit
