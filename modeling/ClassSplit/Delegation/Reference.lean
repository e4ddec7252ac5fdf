import ClassSplit.Delegation.Basic
import ClassSplit.Scope.Reference
import ClassSplit.Text.Search

/-!
References to fields that move. A read becomes a call of the getter, an assignment a call of the
setter, and an increment or decrement a call of the method that does the same. Where the value of an
assignment is used there is no call that gives it, so that the source is refused.
-/

namespace ClassSplit

open Java

/-- A node without the parentheses around it. -/
def insideParentheses (site : Site) : Site :=
  if site.kind = .parenthesizedExpression then
    match h : site.node.namedChildren.find? (!·.isComment) with
    | some inner => insideParentheses (site.below inner)
    | none => site
  else site
termination_by sizeOf site.node
decreasing_by
  exact Node.sizeOf_lt_of_mem_children (List.mem_filter.1 (List.mem_of_find?_eq_some h)).1

/-- The functional interfaces whose method has no result. -/
def consumingTypes : List String :=
  ["Runnable", "Consumer", "BiConsumer", "IntConsumer", "LongConsumer", "DoubleConsumer",
    "ObjIntConsumer", "ObjLongConsumer", "ObjDoubleConsumer"]

/-- The methods that hand values to a lambda and expect no result from it. -/
def consumingMethods : List String :=
  ["forEach", "forEachOrdered", "forEachRemaining", "ifPresent", "peek"]

/-- The kinds of expressions that need no parentheses as an operand. -/
def isOperandKind : Kind → Bool
  | .identifier | .decimalIntegerLiteral | .hexIntegerLiteral | .octalIntegerLiteral
  | .binaryIntegerLiteral | .decimalFloatingPointLiteral | .hexFloatingPointLiteral
  | .trueLiteral | .falseLiteral | .characterLiteral | .stringLiteral | .nullLiteral | .thisWord
  | .fieldAccess | .methodInvocation | .arrayAccess | .parenthesizedExpression
  | .objectCreationExpression | .classLiteral => true
  | _ => false

def isIntegerLiteralKind : Kind → Bool
  | .decimalIntegerLiteral | .hexIntegerLiteral | .octalIntegerLiteral
  | .binaryIntegerLiteral => true
  | _ => false

def isLongLiteral (word : String) : Bool :=
  match word.toList.getLast? with
  | some c => c == 'l' || c == 'L'
  | none => false

namespace JavaSource

variable (s : JavaSource)

/-- Whether the target of a lambda is known to use no value of its body. -/
def discardsResult (lambda : Site) : Bool :=
  match lambda.parent? with
  | none => false
  | some around =>
    match around.kind with
    | .variableDeclarator =>
      ((around.parent?.bind (·.child? .type)).map (rawTypeName <| s.textAt ·)).any
        (consumingTypes.contains ·)
    | .argumentList =>
      (((around.parent?.filter (·.kind = .methodInvocation)).bind (·.child? .name)).map
        s.textAt).any (consumingMethods.contains ·)
    | _ => false

/-- Whether the value of an expression is not used. -/
def discardsValue (site : Site) : Bool :=
  match site.parent? with
  | none => false
  | some around =>
    match around.kind with
    | .expressionStatement => true
    | .forStatement => site.role = some .update || site.role = some .init
    | .lambdaExpression => site.role = some .body && s.discardsResult around
    | _ => false

/-- Whether the result of an operation has to be cast back to the type of the field. A compound
assignment casts by itself; a call does not. The cast is left out where it changes nothing. -/
def needsCast (type operator : String) (right : Node) : Bool :=
  if ["byte", "short", "char", "int", "long", "float"].all (· != type) then false
  else if ["<<", ">>", ">>>"].contains operator && ["int", "long"].contains type then false
  else if isIntegerLiteralKind right.kind then
    match type with
    | "int" => isLongLiteral (s.spelling right)
    | "long" | "float" => false
    | _ => true
  else true

end JavaSource

namespace Delegation

variable (d : Delegation)

/-- The field that moves and that a node refers to. -/
def movedField? (site : Site) : Option DelegatedField :=
  (d.source.fieldReference? site).bind fun reference => d.fields.get? reference.field.name

/-- The accessors of the instance field that a node refers to. -/
def movedInstance? (site : Site) : Option (Field × Accessors) :=
  (d.movedField? site).bind fun f => f.accessors.map fun accessors => (f.field, accessors)

/-- The expression that an assignment, an increment or a decrement changes. -/
def target? (site : Site) : Option Site :=
  match site.kind with
  | .assignmentExpression => (site.child? .left).map insideParentheses
  | .updateExpression => site.namedChildren.head?.map insideParentheses
  | _ => none

/-- The reference that is changed by an assignment, an increment or a decrement, and for which the
whole expression stands. -/
def changedReference? (site : Site) : Option Site :=
  (target? site).filter fun target => (d.movedInstance? target).isSome

def unsupported {α : Type} (site : Site) (reason : String) : Except ExtractionError α :=
  .error (.unsupported (Text.lineNumber d.source.text site.span.start) reason)

/-- A read of a field. -/
def readReplacement (site : Site) (f : DelegatedField) : Except ExtractionError Replacement :=
  match f.accessors with
  | none => .ok (.ofText site.span (d.newClass ++ "." ++ f.field.name))
  | some accessors => do
    let helper ← d.needHelper
    .ok (.ofText site.span (helper ++ "." ++ accessors.getter ++ "()"))

/-- The new value that a compound assignment stores. -/
def combined (f : Field) (getCall operator : String) (right : Node) : List Piece :=
  let value : Piece := .source right.span
  let operand := if isOperandKind right.kind then [value] else [.text "(", value, .text ")"]
  let combination := .text (getCall ++ " " ++ operator ++ " ") :: operand
  if d.source.needsCast f.type operator right then
    .text ("(" ++ f.type ++ ") (") :: combination ++ [.text ")"]
  else combination

/-- An assignment to a field. -/
def assignmentReplacements (site : Site) (f : Field) (accessors : Accessors) :
    Except ExtractionError (List Replacement) :=
  if !d.source.discardsValue site then
    d.unsupported site ("assignment to moved field `" ++ f.name ++ "` is used as a value")
  else
    match accessors.setter, site.node.child? .operator, site.node.child? .right with
    | none, _, _ => d.unsupported site ("assignment to final field `" ++ f.name ++ "`")
    | some setter, some operator, some right => do
      let helper ← d.needHelper
      let sign := d.source.spelling operator
      let value :=
        if sign == "=" then [.source right.span]
        else
          d.combined f (helper ++ "." ++ accessors.getter ++ "()")
            (String.ofList (sign.toList.reverse.dropWhile (· == '=')).reverse) right
      .ok [⟨site.span, .text (helper ++ "." ++ setter ++ "(") :: value ++ [.text ")"]⟩]
    | _, _, _ => .ok []

/-- The method for an increment or a decrement, in front of its operand or behind it. -/
def updateName (names : IncrementNames) (isIncrement isFront : Bool) : String :=
  match isIncrement, isFront with
  | true, true => names.increment
  | true, false => names.postIncrement
  | false, true => names.decrement
  | false, false => names.postDecrement

/-- An increment or a decrement of a field. -/
def updateReplacements (site : Site) (f : Field) (accessors : Accessors) :
    Except ExtractionError (List Replacement) := do
  let isFront := site.node.children.head?.any (!·.isNamed)
  let isIncrement := Text.occursIn ['+', '+'] (d.source.textAt site).toList
  let helper ← d.needHelper
  match accessors.increments, accessors.setter with
  | some names, _ =>
    .ok [.ofText site.span (helper ++ "." ++ updateName names isIncrement isFront ++ "()")]
  | none, none => d.unsupported site ("update of final field `" ++ f.name ++ "`")
  | none, some setter =>
    if d.source.discardsValue site then
      .ok [.ofText site.span
        (helper ++ "." ++ setter ++ "(" ++ helper ++ "." ++ accessors.getter ++ "() "
          ++ (if isIncrement then "+" else "-") ++ " 1)")]
    else
      d.unsupported site
        ("`" ++ (if isIncrement then "++" else "--") ++ "` on moved field `" ++ f.name
          ++ "` is used as a value and `" ++ f.name ++ "` has no increment helpers")

/-- The replacements for an expression that changes an instance field. -/
def changeReplacements (site : Site) : Except ExtractionError (List Replacement) :=
  match (target? site).bind d.movedInstance? with
  | none => .ok []
  | some (f, accessors) =>
    if site.kind = .assignmentExpression then d.assignmentReplacements site f accessors
    else d.updateReplacements site f accessors

/-- The replacements for a node, given the references that expressions around them change. -/
def siteReplacements (changed : List Span) (site : Site) :
    Except ExtractionError (List Replacement) := do
  let changes ← d.changeReplacements site
  if changed.contains site.span then .ok changes
  else
    match d.movedField? site with
    | none => .ok changes
    | some f => do
      let read ← d.readReplacement site f
      .ok (changes ++ [read])

/-- The replacements for all references to moved fields in the class, apart from those in spans that
are gone. -/
def referenceReplacements (gone : List Span) : Except ExtractionError (List Replacement) := do
  let some body := d.source.classBody? | .error (d.notFound "class body")
  let sites := body.preorder.filter fun site => !gone.any (·.covers site.span)
  let changed := (sites.filterMap d.changedReference?).map (·.span)
  let replacements ← sites.mapM (d.siteReplacements changed)
  .ok replacements.flatten

end Delegation

end ClassSplit
