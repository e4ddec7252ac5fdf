import ClassSplit.Proofs.Delegation.Failure
import ClassSplit.Proofs.Delegation.Setter
import ClassSplit.Proofs.Extraction.Steps
import ClassSplit.Proofs.NewClass.Field
import Mathlib

/-!
What an extraction makes of the changes of the fields that move. Where the language allows the
change and the getter has the type of the field, what a setter is called with is converted to that
type, unless it is a constant that only an assignment narrows, a step of a small number in a box, or
a string that is cast without a check. Main statement: `accepts_iff_of_change`.
-/

namespace ClassSplit

open Java

namespace Extraction

variable {settings : Settings} {r : Request} {s : JavaSource} {fields : List Field}
  {methods : List Method} {site : Site} {f : Field} {accessors : Accessors} {change : Change}
  {rs : List Replacement}

-- Only where a field has no other methods does the setter stand in for a step.
theorem isFinal_or_not_isArithmetic
    (hinstance : (delegationOf settings r s fields methods).movedInstance? site = some (f, accessors))
    (hnone : accessors.increments = none) : f.isFinal = true ∨ f.isArithmetic = false := by
  obtain ⟨delegated, hdelegated, rfl, haccessors⟩ :=
    Delegation.movedField?_of_movedInstance? hinstance
  obtain ⟨reference, -, hget⟩ := Option.bind_eq_some_iff.mp hdelegated
  obtain ⟨entry, hentry, rfl⟩ := NameMap.exists_mem_of_get? hget
  obtain ⟨_, hnamed, rfl⟩ := List.mem_map.mp (NameMap.mem_entries_ofList hentry)
  obtain ⟨moved, hmoved, rfl⟩ := List.mem_map.mp hnamed
  have hdeclared := MovedField.declared_of_mem_ofFields hmoved
  by_contra hneither
  rw [not_or, Bool.not_eq_true, Bool.not_eq_false] at hneither
  have hsome := hdeclared.isSome_increments haccessors hneither.left hneither.right
  rw [hnone] at hsome
  cases hsome

theorem accepts_iff_of_change (J : Typing s) (hmakes : Makes s site change)
    (hmoved : (Delegation.target? site).bind
      (delegationOf settings r s fields methods).movedInstance? = some (f, accessors))
    (hallowed : J.Allows f change)
    (hgetter : change.readsField = true →
      J.named ((delegationOf settings r s fields methods).getterType f accessors) =
        J.named f.type)
    (hrs : (delegationOf settings r s fields methods).changeReplacements site = .ok rs) :
    (delegationOf settings r s fields methods).CallsStep site accessors change rs ∨
      (delegationOf settings r s fields methods).CallsSetter site f accessors change rs ∧
        (J.Accepts ((delegationOf settings r s fields methods).getterType f accessors) f
          (.ofChange s f change) ↔ ¬J.Strains f change) := by
  obtain hstep | ⟨hnone, hsetter⟩ := Delegation.changeReplacements_cases hmakes hmoved hrs
  · exact .inl hstep
  · refine .inr ⟨hsetter, Typing.accepts_argument_iff hallowed hgetter ?_⟩
    intro isIncrement hchange
    obtain ⟨target, -, hinstance⟩ := Option.bind_eq_some_iff.mp hmoved
    exact isFinal_or_not_isArithmetic hinstance (hnone isIncrement hchange)

-- The types in a source that are known from the words for primitive types and from literals.
def plainTyping (s : JavaSource) : Typing s where
  Below t u := t = u
  Casts t u := t = u
  below_refl _ := rfl
  eq_of_below_boxed h := StaticType.boxed.inj h
  named text := ((Primitive.all.find? (·.word = text)).map .primitive).getD (.reference text)
  typeOf n :=
    if isIntegerLiteralKind n.kind then
      .primitive (if isLongLiteral (s.spelling n) then .long else .int)
    else .reference "Object"
  constant? n := if s.spelling n = "1" then some 1 else none
  named_word p := by
    cases p
    all_goals rfl
  isReference_named := by
    intro text h
    rw [List.find?_eq_none.mpr fun p _ => by simpa using (h p).symm]
    rfl
  typeOf_literal h := if_pos h

-- How the only field of a class is moved.
def delegationOfFields (s : JavaSource) : Delegation :=
  delegationOf {} ⟨"P", "A.java", [], ["b"]⟩ s s.model.fields []

-- An assignment of the number one to a field of a type, perhaps in combination with its old value.
structure AssignsOne (s : JavaSource) (type sign : String) (site : Site) (operator right : Node)
    (f : Field) (accessors : Accessors) (rs : List Replacement) : Prop where
  kind : site.kind = .assignmentExpression
  operator_eq : site.node.child? .operator = some operator
  right_eq : site.node.child? .right = some right
  sign_eq : s.spelling operator = sign
  typeOf_eq : (plainTyping s).typeOf right = .primitive .int
  constant_eq : (plainTyping s).constant? right = some 1
  type_eq : f.type = type
  moved : (Delegation.target? site).bind (delegationOfFields s).movedInstance? = some (f, accessors)
  replaced : (delegationOfFields s).changeReplacements site = .ok rs

def assignsOne (s : JavaSource) (type sign : String) (site : Site) : Bool :=
  site.kind = .assignmentExpression &&
    (site.node.child? .operator).any (s.spelling · == sign) &&
    (site.node.child? .right).any (fun right =>
      (plainTyping s).typeOf right = .primitive .int && (plainTyping s).constant? right = some 1) &&
    ((Delegation.target? site).bind (delegationOfFields s).movedInstance?).any
      (·.1.type == type) &&
    ((delegationOfFields s).changeReplacements site).toOption.isSome

theorem exists_assignsOne (source type sign : String)
    (h : (JavaSource.parse source none).toOption.any (fun s =>
      s.classBody?.any fun body => body.preorder.any (assignsOne s type sign)) = true) :
    ∃ s site operator right f accessors rs, JavaSource.parse source none = .ok s ∧
      AssignsOne s type sign site operator right f accessors rs := by
  obtain ⟨s, hparse, hcheck⟩ := JavaSource.exists_parse_of_check source _ h
  simp only [assignsOne, Option.any_eq_true, List.any_eq_true, Bool.and_eq_true,
    decide_eq_true_eq, beq_iff_eq] at hcheck
  obtain ⟨body, -, site, -, ⟨⟨⟨hkind, operator, hoperator, hsign⟩, right, hright, htype, hone⟩,
    ⟨f, accessors⟩, hmoved, hfield⟩, hrs⟩ := hcheck
  obtain ⟨rs, hrs⟩ := Option.isSome_iff_exists.mp hrs
  exact ⟨s, site, operator, right, f, accessors, rs, hparse, hkind, hoperator, hright, hsign,
    htype, hone, hfield, hmoved, ok_of_toOption hrs⟩

def shortSource : String := "class A\x7bshort b;void m()\x7bb+=1;\x7d\x7d"

theorem accepts_iff_of_change_short : ∃ s site right f accessors rs,
    JavaSource.parse shortSource none = .ok s ∧ Makes s site (.combine .plus right) ∧
      (Delegation.target? site).bind (delegationOfFields s).movedInstance? = some (f, accessors) ∧
      (plainTyping s).Allows f (.combine .plus right) ∧
      (delegationOfFields s).getterType f accessors = f.type ∧
      (delegationOfFields s).changeReplacements site = .ok rs ∧
      ((delegationOfFields s).CallsStep site accessors (.combine .plus right) rs ∨
        (delegationOfFields s).CallsSetter site f accessors (.combine .plus right) rs ∧
          ((plainTyping s).Accepts ((delegationOfFields s).getterType f accessors) f
              (.ofChange s f (.combine .plus right)) ↔
            ¬(plainTyping s).Strains f (.combine .plus right))) := by
  obtain ⟨s, site, operator, right, f, accessors, rs, hparse, h⟩ :=
    exists_assignsOne shortSource "short" "+=" (by decide +kernel)
  have hmakes : Makes s site (.combine .plus right) :=
    .combine h.kind h.operator_eq h.right_eq h.sign_eq
  have hnamed : (plainTyping s).named "short" = .primitive .short := rfl
  have hallowed : (plainTyping s).Allows f (.combine .plus right) := by
    rw [Typing.Allows, h.type_eq, h.typeOf_eq, hnamed]
    exact ⟨.primitive .int, rfl, .inr ⟨rfl, rfl⟩⟩
  exact ⟨s, site, right, f, accessors, rs, hparse, hmakes, h.moved, hallowed, rfl, h.replaced,
    accepts_iff_of_change (plainTyping s) hmakes h.moved hallowed (fun _ => rfl) h.replaced⟩

-- The number is a constant that an assignment makes a `byte`, and that a call does not.
def byteSource : String := "class A\x7bbyte b;void m()\x7bb=1;\x7d\x7d"

theorem not_forall_accepts :
    ¬∀ (source : String) (settings : Settings) (r : Request) (s : JavaSource)
      (fields : List Field) (methods : List Method) (J : Typing s) (site : Site) (f : Field)
      (accessors : Accessors) (change : Change) (rs : List Replacement),
        JavaSource.parse source none = .ok s → Makes s site change →
          (Delegation.target? site).bind
            (delegationOf settings r s fields methods).movedInstance? = some (f, accessors) →
          J.Allows f change →
          (delegationOf settings r s fields methods).changeReplacements site = .ok rs →
            (delegationOf settings r s fields methods).CallsStep site accessors change rs ∨
              (delegationOf settings r s fields methods).CallsSetter site f accessors change rs ∧
                J.Accepts ((delegationOf settings r s fields methods).getterType f accessors) f
                  (.ofChange s f change) := by
  intro hall
  obtain ⟨s, site, operator, right, f, accessors, rs, hparse, h⟩ :=
    exists_assignsOne byteSource "byte" "=" (by decide +kernel)
  have hmakes : Makes s site (.assign right) := .assign h.kind h.operator_eq h.right_eq h.sign_eq
  have hnamed : (plainTyping s).named "byte" = .primitive .byte := rfl
  have hstrains : (plainTyping s).Strains f (.assign right) := by
    rw [Typing.Strains, h.type_eq, h.typeOf_eq, h.constant_eq, hnamed]
    exact .primitive (.inl rfl) rfl rfl ⟨by decide, by decide⟩
  have hallowed : (plainTyping s).Allows f (.assign right) := Or.inr hstrains
  obtain hstep | ⟨-, haccepts⟩ := hall byteSource _ _ s _ _ (plainTyping s) site f accessors
    (.assign right) rs hparse hmakes h.moved hallowed h.replaced
  · cases hstep
  · exact (Typing.accepts_assign_iff hallowed).mp haccepts hstrains

end Extraction

end ClassSplit
