import ClassSplit.Delegation.Reference
import ClassSplit.Proofs.Delegation.Basic
import ClassSplit.Proofs.Java.Conversion

/-!
The arguments of setters. What an assignment, an increment or a decrement stores in a field becomes
the argument of a call, and a call does less for its arguments than an assignment does for its right
side. Main statements: `accepts_argument_iff` and `changeReplacements_cases`.
-/

namespace ClassSplit

open Java

-- What is known of the types in a source.
structure Typing (s : JavaSource) extends Hierarchy where
  -- The type that a text stands for where a type is declared.
  named : String → StaticType
  typeOf : Node → StaticType
  -- The value of an expression that is an integer constant.
  constant? : Node → Option Int
  named_word (p : Primitive) : named p.word = .primitive p
  isReference_named {text : String} (h : ∀ p : Primitive, text ≠ p.word) :
    (named text).isReference = true
  typeOf_literal {n : Node} (h : isIntegerLiteralKind n.kind = true) :
    typeOf n = .primitive (if isLongLiteral (s.spelling n) then .long else .int)

-- A change of a field.
inductive Change where
  | assign (right : Node)
  | combine (operator : Operator) (right : Node)
  | step (isIncrement : Bool)

def Change.readsField : Change → Bool
  | assign _ => false
  | _ => true

-- The change that a site makes.
inductive Makes (s : JavaSource) (site : Site) : Change → Prop
  | assign {operator right : Node} (kind : site.kind = .assignmentExpression)
      (operator_eq : site.node.child? .operator = some operator)
      (right_eq : site.node.child? .right = some right) (sign : s.spelling operator = "=") :
      Makes s site (.assign right)
  | combine {operator right : Node} {o : Operator} (kind : site.kind = .assignmentExpression)
      (operator_eq : site.node.child? .operator = some operator)
      (right_eq : site.node.child? .right = some right)
      (sign : s.spelling operator = o.sign ++ "=") : Makes s site (.combine o right)
  | step (kind : site.kind = .updateExpression) :
      Makes s site (.step (Text.occursIn ['+', '+'] (s.textAt site).toList))

-- The argument of a setter.
inductive Argument where
  | copy (n : Node)
  -- An expression of the source in parentheses.
  | group (n : Node)
  -- A call of the getter.
  | get
  | one
  | binary (left : Argument) (operator : Operator) (right : Argument)
  -- A cast of an expression in parentheses.
  | cast (type : String) (operand : Argument)

namespace Argument

def text (s : JavaSource) (getCall : String) : Argument → String
  | copy n => s.slice n.span
  | group n => "(" ++ s.slice n.span ++ ")"
  | get => getCall
  | one => "1"
  | binary left o right => left.text s getCall ++ " " ++ o.sign ++ " " ++ right.text s getCall
  | cast type operand => "(" ++ type ++ ") (" ++ operand.text s getCall ++ ")"

-- What is handed to the setter of a field in the place of a change.
def ofChange (s : JavaSource) (f : Field) : Change → Argument
  | .assign right => copy right
  | .combine o right =>
    let combination := binary get o (if isOperandKind right.kind then copy right else group right)
    if s.needsCast f.type o.sign right then cast f.type combination else combination
  | .step isIncrement => binary get (.ofStep isIncrement) one

end Argument

namespace Typing

variable {s : JavaSource} {J : Typing s} {f : Field} {a : Argument} {t u : StaticType}
  {right : Node} {o : Operator} {p q r : Primitive} {change : Change} {getter : String}

-- The types of arguments, given the text of the type with which the getter is declared.
inductive Types (J : Typing s) (getter : String) : Argument → StaticType → Prop
  | copy (n : Node) : Types J getter (.copy n) (J.typeOf n)
  | group (n : Node) : Types J getter (.group n) (J.typeOf n)
  | get : Types J getter .get (J.named getter)
  | one : Types J getter .one (.primitive .int)
  | binary {left right : Argument} {o : Operator} {t u v : StaticType}
      (typesLeft : Types J getter left t) (typesRight : Types J getter right u)
      (result : o.result? t u = some v) : Types J getter (.binary left o right) v
  | cast {type : String} {operand : Argument} {t : StaticType}
      (types : Types J getter operand t) (casts : J.CastsTo t (J.named type)) :
      Types J getter (.cast type operand) (J.named type)

theorem Types.eq (ht : J.Types getter a t) (hu : J.Types getter a u) : t = u := by
  induction ht generalizing u with
  | copy | group | get | one | cast =>
    cases hu
    rfl
  | binary _ _ hresult ihleft ihright =>
    cases hu with
    | binary hleft hright hresult' =>
      rw [← ihleft hleft, ← ihright hright, hresult, Option.some.injEq] at hresult'
      exact hresult'

-- Whether an argument is converted to the type of a field.
def Accepts (J : Typing s) (getter : String) (f : Field) (a : Argument) : Prop :=
  ∃ t, J.Types getter a t ∧ J.Passes t (J.named f.type)

theorem Types.accepts_iff (h : J.Types getter a t) :
    J.Accepts getter f a ↔ J.Passes t (J.named f.type) := by
  constructor
  case mp =>
    rintro ⟨u, hu, hpasses⟩
    exact h.eq hu ▸ hpasses
  case mpr => exact fun hpasses => ⟨t, h, hpasses⟩

-- Whether the language allows a change of a field.
def Allows (J : Typing s) (f : Field) : Change → Prop
  | .assign right => J.Assigns (J.typeOf right) (J.constant? right) (J.named f.type)
  | .combine o right => ∃ t, o.result? (J.named f.type) (J.typeOf right) = some t ∧
      J.CastsTo t (J.named f.type)
  | .step _ => f.isFinal = false ∧ ∃ p, (J.named f.type).unboxed? = some p ∧ p.isNumeric = true

-- Whether a change converts in a way in which neither an argument is converted nor a cast is
-- written: it narrows a constant, or it makes more or less of a small number in a box, or it takes
-- a string for a value of a type that is not known.
def Strains (J : Typing s) (f : Field) : Change → Prop
  | .assign right => Narrows (J.typeOf right) (J.constant? right) (J.named f.type)
  | .combine o right => o.result? (J.named f.type) (J.typeOf right) = some .string ∧
      ¬J.Below .string (J.named f.type)
  | .step _ => ∃ p, J.named f.type = .boxed p ∧ p.isSmall = true

-- Only the words for primitive types stand for them.
theorem eq_word_of_named (h : J.named f.type = .primitive p) : f.type = p.word := by
  by_contra hne
  have hother : ∀ q : Primitive, f.type ≠ q.word := by
    intro q heq
    rw [heq, J.named_word, StaticType.primitive.injEq] at h
    exact hne (h ▸ heq)
  have hreference := J.isReference_named hother
  rw [h] at hreference
  cases hreference

theorem exists_word_of_needsCast {type operator : String}
    (h : s.needsCast type operator right = true) : ∃ p : Primitive, type = p.word := by
  by_contra hne
  have hother (p : Primitive) : type ≠ p.word := fun heq => hne ⟨p, heq⟩
  have hall : ["byte", "short", "char", "int", "long", "float"].all (· != type) = true := by
    simp only [List.all_cons, List.all_nil, Bool.and_true, Bool.and_eq_true, bne_iff_ne]
    exact ⟨(hother .byte).symm, (hother .short).symm, (hother .char).symm, (hother .int).symm,
      (hother .long).symm, (hother .float).symm⟩
  unfold JavaSource.needsCast at h
  rw [if_pos hall] at h
  cases h

theorem needsCast_of_isSmall (hp : p.isSmall = true) (operator : String) (right : Node) :
    s.needsCast p.word operator right = true := by
  cases p
  case byte | short | char => simp [JavaSource.needsCast, Primitive.word]
  all_goals cases hp

-- Where an operation is left without a cast.
theorem uncast_cases (h : s.needsCast p.word o.sign right = false) :
    p = .double ∨ p = .boolean ∨ o.isShift = true ∧ (p = .int ∨ p = .long) ∨
      isIntegerLiteralKind right.kind = true ∧
        (p = .int ∧ isLongLiteral (s.spelling right) = false ∨ p = .long ∨ p = .float) := by
  have hshift : ["<<", ">>", ">>>"].contains o.sign = o.isShift := by
    cases o
    all_goals decide
  unfold JavaSource.needsCast at h
  rw [hshift] at h
  cases p
  case byte | short | char => simp [Primitive.word] at h
  case double => exact .inl rfl
  case boolean => exact .inr (.inl rfl)
  case int =>
    simp only [Primitive.word] at h
    cases hoperator : o.isShift
    all_goals simp_all
  case long =>
    simp only [Primitive.word] at h
    cases hoperator : o.isShift
    all_goals simp_all
  case float => exact .inr (.inr (.inr ⟨by simpa [Primitive.word] using h, .inr (.inr rfl)⟩))

-- Where the cast is left out, the result of an operation is one of the type of the field anyway.
theorem widensTo_of_needsCast (h : s.needsCast p.word o.sign right = false)
    (hr : o.onPrimitives? p q = some r)
    (hq : isIntegerLiteralKind right.kind = true →
      q = if isLongLiteral (s.spelling right) then .long else .int) : r.widensTo p = true := by
  obtain ⟨rfl, rfl⟩ | ⟨hnumeric, hr⟩ := Operator.onPrimitives?_cases hr
  · rfl
  obtain rfl | rfl | ⟨hshift, hp⟩ | ⟨hliteral, hp⟩ := uncast_cases h
  · obtain ⟨-, rfl⟩ | ⟨-, rfl⟩ := hr
    · rfl
    · rfl
  · cases hnumeric
  · obtain ⟨hother, -⟩ | ⟨-, rfl⟩ := hr
    · rw [hshift] at hother
      cases hother
    · obtain rfl | rfl := hp
      · rfl
      · rfl
  · have hr : r = p.promoted q ∨ r = p.promoted .int := hr.imp And.right And.right
    rw [hq hliteral] at hr
    obtain ⟨rfl, hint⟩ | rfl | rfl := hp
    · rw [hint] at hr
      obtain rfl | rfl := hr
      · rfl
      · rfl
    all_goals
      split at hr
      all_goals
        obtain rfl | rfl := hr
        · rfl
        · rfl

theorem accepts_assign_iff (hallowed : J.Allows f (.assign right)) :
    J.Accepts getter f (.ofChange s f (.assign right)) ↔ ¬J.Strains f (.assign right) := by
  have htypes : J.Types getter (.copy right) (J.typeOf right) := .copy right
  exact htypes.accepts_iff.trans (Hierarchy.passes_iff_of_assigns hallowed)

theorem types_combination (h : o.result? (J.named getter) (J.typeOf right) = some t) :
    J.Types getter (.binary .get o (if isOperandKind right.kind then .copy right else .group right))
      t := by
  refine .binary .get ?_ h
  split
  case isTrue => exact .copy right
  case isFalse => exact .group right

-- A call accepts what a compound assignment computes, except for a string that only a cast without
-- a check makes a value of the type of the field.
theorem accepts_combination_iff (hgetter : J.named getter = J.named f.type)
    (hresult : o.result? (J.named f.type) (J.typeOf right) = some t)
    (hcasts : J.CastsTo t (J.named f.type)) :
    J.Accepts getter f (.ofChange s f (.combine o right)) ↔
      ¬(t = .string ∧ ¬J.Below .string (J.named f.type)) := by
  have htypes : J.Types getter _ t := types_combination (hgetter ▸ hresult)
  rw [Argument.ofChange]
  split
  case isTrue hcast =>
    obtain ⟨p, hp⟩ := exists_word_of_needsCast hcast
    have hnamed : J.named f.type = .primitive p := hp ▸ J.named_word p
    have hwhole : J.Types getter (.cast f.type _) (J.named f.type) := .cast htypes hcasts
    rw [hwhole.accepts_iff, hnamed]
    refine iff_of_true (Hierarchy.passes_refl p) ?_
    rintro ⟨rfl, -⟩
    exact Hierarchy.not_castsTo_of_string p (hnamed ▸ hcasts)
  case isFalse hcast =>
    rw [Bool.not_eq_true] at hcast
    rw [htypes.accepts_iff]
    obtain ⟨-, -, rfl⟩ | ⟨p', q, r, hp, hq, hr, rfl⟩ := Operator.result?_cases hresult
    · cases hreference : (J.named f.type).isReference with
      | false =>
        obtain ⟨p, hnamed⟩ := StaticType.exists_primitive hreference
        exact absurd (hnamed ▸ hcasts) (Hierarchy.not_castsTo_of_string p)
      | true => simp [Hierarchy.passes_string_iff hreference]
    · refine iff_of_true ?_ (by simp)
      cases hreference : (J.named f.type).isReference with
      | false =>
        obtain ⟨p, hnamed⟩ := StaticType.exists_primitive hreference
        rw [hnamed] at hp ⊢
        cases hp
        rw [eq_word_of_named hnamed] at hcast
        refine widensTo_of_needsCast hcast hr ?_
        intro hliteral
        rw [J.typeOf_literal hliteral] at hq
        exact (Option.some.inj hq).symm
      | true => exact Hierarchy.passes_of_castsTo hreference hcasts

theorem accepts_step_iff {isIncrement : Bool} (hgetter : J.named getter = J.named f.type)
    (hfinal : f.isFinal = false)
    (hp : (J.named f.type).unboxed? = some p) (hnumeric : p.isNumeric = true)
    (hboxed : f.isFinal = true ∨ f.isArithmetic = false) :
    J.Accepts getter f (.ofChange s f (.step isIncrement)) ↔
      ¬∃ p, J.named f.type = .boxed p ∧ p.isSmall = true := by
  have htypes : J.Types getter (.binary .get (.ofStep isIncrement) .one)
      (.primitive (p.promoted .int)) :=
    .binary .get .one (Operator.result?_ofStep (hgetter ▸ hp) hnumeric isIncrement)
  rw [Argument.ofChange, htypes.accepts_iff]
  obtain hnamed | hnamed := StaticType.unboxed?_eq_some.mp hp
  · have harithmetic : f.isArithmetic = true := by
      rw [Field.isArithmetic, eq_word_of_named hnamed]
      cases p
      case boolean => cases hnumeric
      all_goals decide
    obtain hfinal' | hother := hboxed
    · rw [hfinal] at hfinal'
      cases hfinal'
    · rw [harithmetic] at hother
      cases hother
  · rw [hnamed]
    constructor
    case mp =>
      rintro hpasses ⟨p', hp', hsmall⟩
      cases hp'
      rw [(Primitive.promoted_int_eq_iff hnumeric).mp (J.eq_of_below_boxed hpasses)] at hsmall
      cases hsmall
    case mpr =>
      intro hlarge
      have hsmall : p.isSmall = false := by
        by_contra hsmall
        exact hlarge ⟨p, rfl, by simpa using hsmall⟩
      rw [(Primitive.promoted_int_eq_iff hnumeric).mpr hsmall]
      exact J.below_refl _

-- What is handed to a setter in the place of a change is converted to the type of the field, unless
-- the change strains.
theorem accepts_argument_iff (hallowed : J.Allows f change)
    (hgetter : change.readsField = true → J.named getter = J.named f.type)
    (hboxed : ∀ isIncrement, change = .step isIncrement → f.isFinal = true ∨ f.isArithmetic = false) :
    J.Accepts getter f (.ofChange s f change) ↔ ¬J.Strains f change := by
  cases change with
  | assign right => exact accepts_assign_iff hallowed
  | combine o right =>
    obtain ⟨t, hresult, hcasts⟩ := hallowed
    rw [accepts_combination_iff (hgetter rfl) hresult hcasts, Strains, hresult, Option.some.injEq]
  | step isIncrement =>
    obtain ⟨hfinal, p, hp, hnumeric⟩ := hallowed
    exact accepts_step_iff (hgetter rfl) hfinal hp hnumeric (hboxed isIncrement rfl)

end Typing

-- What pieces show before anything inside them is replaced.
def shown (s : JavaSource) : List Piece → String
  | [] => ""
  | .text word :: pieces => word ++ shown s pieces
  | .source span :: pieces => s.slice span ++ shown s pieces

theorem shown_append {s : JavaSource} {pieces pieces' : List Piece} :
    shown s (pieces ++ pieces') = shown s pieces ++ shown s pieces' := by
  induction pieces with
  | nil => simp [shown]
  | cons piece pieces ih =>
    cases piece with
    | text | source => simp [shown, ih, String.append_assoc]

namespace Delegation

variable {d : Delegation} {site : Site} {f : Field} {accessors : Accessors}
  {rs : List Replacement} {change : Change}

-- The type with which the getter of a field is declared: that of the moved method that takes its
-- place, and otherwise that of the field.
def getterType (d : Delegation) (f : Field) (accessors : Accessors) : String :=
  let signature := AccessorForm.getter.signatureOf f accessors.getter
  ((d.methods.find? (·.signature == signature)).map (·.returnType)).getD f.type

-- The replacement of a change is a call of the setter.
inductive CallsSetter (d : Delegation) (site : Site) (f : Field) (accessors : Accessors)
    (change : Change) : List Replacement → Prop
  | intro {helper setter : String} {pieces : List Piece} (helper_eq : d.helper = some helper)
      (setter_eq : accessors.setter = some setter)
      (shows : shown d.source pieces =
        helper ++ "." ++ setter ++ "("
          ++ (Argument.ofChange d.source f change).text d.source
            (helper ++ "." ++ accessors.getter ++ "()") ++ ")") :
      CallsSetter d site f accessors change [⟨site.span, pieces⟩]

-- The replacement of a change is a call of the method that does the same.
inductive CallsStep (d : Delegation) (site : Site) (accessors : Accessors) :
    Change → List Replacement → Prop
  | intro {helper : String} {names : IncrementNames} {isIncrement isFront : Bool}
      (helper_eq : d.helper = some helper) (names_eq : accessors.increments = some names) :
      CallsStep d site accessors (.step isIncrement)
        [.ofText site.span (helper ++ "." ++ updateName names isIncrement isFront ++ "()")]

theorem shown_combined {getCall : String} {o : Operator} {right : Node} :
    shown d.source (d.combined f getCall o.sign right) =
      (Argument.ofChange d.source f (.combine o right)).text d.source getCall := by
  simp only [combined, Argument.ofChange]
  split
  all_goals
    split
    all_goals simp [shown, Argument.text, String.append_assoc]

-- The operator of a compound assignment is what stands in front of the equals sign.
theorem dropWhile_sign (o : Operator) :
    String.ofList ((o.sign ++ "=").toList.reverse.dropWhile (· == '=')).reverse = o.sign := by
  cases o
  all_goals decide

theorem callsSetter_of_assignment {operator right : Node}
    (hoperator : site.node.child? .operator = some operator)
    (hright : site.node.child? .right = some right)
    (hmakes : change = .assign right ∧ d.source.spelling operator = "=" ∨
      ∃ o : Operator, change = .combine o right ∧ d.source.spelling operator = o.sign ++ "=")
    (hrs : d.assignmentReplacements site f accessors = .ok rs) :
    d.CallsSetter site f accessors change rs := by
  rw [assignmentReplacements] at hrs
  split at hrs
  case isTrue => cases hrs
  case isFalse =>
    rw [hoperator, hright] at hrs
    cases hsetter : accessors.setter with
    | none =>
      rw [hsetter] at hrs
      cases hrs
    | some setter =>
      rw [hsetter] at hrs
      obtain ⟨helper, hhelper, heq⟩ := bind_eq_ok.mp hrs
      cases heq
      refine .intro (needHelper_eq_ok hhelper) hsetter ?_
      obtain ⟨rfl, hsign⟩ | ⟨o, rfl, hsign⟩ := hmakes
      · simp [hsign, shown, Argument.ofChange, Argument.text, String.append_assoc]
      · have hne : o.sign ++ "=" ≠ "=" := by
          cases o
          all_goals decide
        simp only [hsign, beq_iff_eq, hne, if_false, dropWhile_sign]
        simp [shown, shown_append, shown_combined, String.append_assoc]

theorem changeReplacements_cases (hmakes : Makes d.source site change)
    (htarget : (target? site).bind d.movedInstance? = some (f, accessors))
    (hrs : d.changeReplacements site = .ok rs) :
    d.CallsStep site accessors change rs ∨
      (∀ isIncrement, change = .step isIncrement → accessors.increments = none) ∧
        d.CallsSetter site f accessors change rs := by
  rw [changeReplacements, htarget] at hrs
  dsimp only at hrs
  cases hmakes with
  | assign kind operator_eq right_eq sign =>
    rw [if_pos kind] at hrs
    exact .inr ⟨nofun, callsSetter_of_assignment operator_eq right_eq (.inl ⟨rfl, sign⟩) hrs⟩
  | combine kind operator_eq right_eq sign =>
    rw [if_pos kind] at hrs
    exact .inr ⟨nofun,
      callsSetter_of_assignment operator_eq right_eq (.inr ⟨_, rfl, sign⟩) hrs⟩
  | step kind =>
    rw [if_neg (by simp [kind])] at hrs
    simp only [updateReplacements] at hrs
    obtain ⟨helper, hhelper, hrest⟩ := bind_eq_ok.mp hrs
    have hhelper := needHelper_eq_ok hhelper
    split at hrest
    case h_1 names _ hnames =>
      cases hrest
      exact .inl (.intro hhelper hnames)
    case h_2 => cases hrest
    case h_3 setter hnone hsetter =>
      split at hrest
      case isTrue =>
        cases hrest
        refine .inr ⟨fun _ _ => hnone, .intro hhelper hsetter ?_⟩
        have hcall : "() " = "()" ++ " " := rfl
        have hone : " 1)" = " " ++ "1" ++ ")" := rfl
        rw [hcall, hone]
        simp only [shown, Argument.ofChange, Argument.text, Operator.ofStep, String.append_assoc]
        split
        all_goals simp [Operator.sign]
      case isFalse => cases hrest

end Delegation

end ClassSplit
