import ClassSplit.Scope.Binding

/-!
What names and receivers refer to. An identifier or a field access is a reference to a field of the
primary class if nothing closer has its name; a receiver is another instance of the class unless
its type says otherwise.
-/

namespace ClassSplit

open Java

inductive ReferenceForm where
  /-- The name alone. -/
  | bare
  /-- Through the instance of the class. -/
  | this
  /-- Through the name of the class. -/
  | classQualified
  deriving DecidableEq

structure FieldReference where
  field : Field
  site : Site
  form : ReferenceForm

/-- Whether an identifier stands where it can refer to a variable, and not where it declares one,
names a member behind a dot or is a label. -/
def isExpressionName (site : Site) : Bool :=
  match site.parent? with
  | none => false
  | some parent =>
    match parent.kind, site.role with
    | .methodReference, _ => parent.node.namedChildren.head?.any (·.span = site.span)
    | .variableDeclarator, some .name | .formalParameter, some .name
    | .catchFormalParameter, some .name | .methodDeclaration, some .name
    | .constructorDeclaration, some .name | .methodInvocation, some .name
    | .fieldAccess, some .field | .enhancedForStatement, some .name | .resource, some .name
    | .lambdaExpression, some .parameters | .elementValuePair, some .key
    | .annotationWithArguments, some .name | .annotationMarker, some .name
    | .enumConstant, some .name | .instanceofExpression, some .name => false
    | .typePattern, _ | .recordPattern, _ | .recordPatternComponent, _ | .classDeclaration, _
    | .interfaceDeclaration, _ | .enumDeclaration, _ | .recordDeclaration, _
    | .annotationTypeDeclaration, _ | .inferredParameters, _ | .labeledStatement, _
    | .breakStatement, _ | .continueStatement, _ | .scopedIdentifier, _
    | .importDeclaration, _ | .packageDeclaration, _ => false
    | _, _ => true

/-- The name of a type without type arguments and qualifier. -/
def rawTypeName (type : String) : String :=
  let plain := Text.trim ((Text.trim type.toList).takeWhile (· != '<'))
  String.ofList (Text.trim (Signature.afterLast (· == '.') plain))

/-- The type of the elements of an array type. -/
def elementType? (type : String) : Option String :=
  match (Text.trim type.toList).reverse with
  | '.' :: '.' :: '.' :: back => some (String.ofList (Text.trimEnd back.reverse))
  | ']' :: back =>
    match Text.trimStart back with
    | '[' :: rest => some (String.ofList (Text.trimEnd rest.reverse))
    | _ => none
  | _ => none

/-- How many arguments an invocation has. -/
def argumentCount (invocation : Node) : Nat :=
  ((invocation.child? .arguments).map fun arguments =>
    (arguments.namedChildren.filter (!·.isComment)).length).getD 0

/-- What is known of the receiver of a field access. -/
inductive Receiver where
  /-- The instance itself, or no instance at all. -/
  | notAnInstance
  | typed (type : String)
  | unknown

namespace JavaSource

variable (s : JavaSource)

/-- Whether `this` at a site means an instance of the primary class. -/
def inPrimaryInstance (site : Site) : Bool := go site.ancestors
where
  go : List Site → Bool
    | [] => false
    | around :: above =>
      if s.isPrimaryBody around.node then true
      else
        match around.kind with
        | .classBody | .enumBody | .interfaceBody | .annotationTypeBody => false
        | _ => go above

/-- The form of a field access whose object is such a node, if it goes to the primary class. -/
def accessForm? (site : Site) (object : Node) (field : Field) : Option ReferenceForm :=
  match object.kind with
  | .thisWord => if s.inPrimaryInstance site then some .this else none
  | .identifier =>
    if s.spelling object == s.model.name && field.isStatic
        && (s.localBinding? (site.below object) s.model.name).isNone then
      some .classQualified
    else none
  | .fieldAccess => do
    let outer ← object.child? .object
    let inner ← object.child? .field
    if inner.kind = .thisWord ∧ s.spelling outer = s.model.name then some .this else none
  | _ => none

/-- The reference to a field of the primary class that a node is, if it is one. -/
def fieldReference? (site : Site) : Option FieldReference :=
  match site.kind with
  | .identifier => do
    let field ← s.model.field? (s.spelling site.node)
    if !isExpressionName site then none
    else if site.parent?.any (·.kind = .switchLabel) && !field.isStatic then none
    else if (s.localBinding? site field.name).isSome then none
    else some { field, site, form := .bare }
  | .fieldAccess => do
    let object ← site.node.child? .object
    let name ← site.node.child? .field
    if name.kind ≠ .identifier then none
    else do
      let field ← s.model.field? (s.spelling name)
      let form ← s.accessForm? site object field
      some { field, site, form }
  | _ => none

/-- The name of the method that an invocation calls on the primary class itself. -/
def memberCall? (site : Site) : Option String :=
  if site.kind ≠ .methodInvocation then none
  else do
    let name ← site.node.child? .name
    match site.node.child? .object with
    | none => some (s.spelling name)
    | some object =>
      if object.kind = .thisWord && s.inPrimaryInstance site then some (s.spelling name) else none

/-- The type of a call on the primary class, from the methods that it can mean. -/
def callReceiver (site : Site) : Receiver :=
  match s.memberCall? site with
  | none => .unknown
  | some callee =>
    let arity := argumentCount site.node
    let returns :=
      ((s.model.methodsNamed callee).filter (·.acceptsArity arity)).map (·.returnType)
    match returns with
    | [] => .unknown
    | [only] => .typed only
    | first :: _ =>
      if returns.any (rawTypeName · == s.model.name) then .typed s.model.name else .typed first

def nameReceiver (site : Site) : Receiver :=
  let name := s.spelling site.node
  match s.localBinding? site name with
  | some ⟨some type⟩ => .typed type
  | some ⟨none⟩ => .unknown
  | none =>
    match s.model.field? name with
    | some field => .typed field.type
    | none => .notAnInstance

/-- What is known of the receiver at a site. -/
def receiver (site : Site) : Receiver :=
  match site.kind with
  | .thisWord | .superWord => .notAnInstance
  | .identifier => s.nameReceiver site
  | .parenthesizedExpression =>
    match h : site.node.namedChildren.head? with
    | some inner => receiver (site.below inner)
    | none => .unknown
  | .objectCreationExpression | .castExpression =>
    match site.node.child? .type with
    | some type => .typed (s.spelling type)
    | none => .unknown
  | .fieldAccess =>
    if (site.node.child? .field).any (·.kind = .thisWord) then .notAnInstance
    else
      match s.fieldReference? site with
      | some reference => .typed reference.field.type
      | none => .unknown
  | .methodInvocation => s.callReceiver site
  | .arrayAccess =>
    match h : site.node.child? .array with
    | some array =>
      match receiver (site.below array) with
      | .typed type => ((elementType? type).map Receiver.typed).getD .unknown
      | _ => .unknown
    | none => .unknown
  | _ => .unknown
termination_by sizeOf site.node
decreasing_by
  · exact Node.sizeOf_lt_of_head?_namedChildren h
  · exact Node.sizeOf_lt_of_child? h

/-- Whether the receiver at a site may be another instance of the primary class. One whose type is
not known may be. -/
def isOtherInstance (site : Site) : Bool :=
  match s.receiver site with
  | .notAnInstance => false
  | .typed type =>
    Text.trim type.toList == "var".toList || rawTypeName type == s.model.name
  | .unknown => true

/-- The bodies of nested types below a site that declare a method of a name. -/
def shadowingBodies (site : Site) (name : String) : List Span :=
  (site.preorder.filter fun body =>
    body.kind = .classBody && !s.isPrimaryBody body.node
      && body.node.namedChildren.any fun member =>
        member.kind = .methodDeclaration && s.declares member name).map (·.span)

end JavaSource

end ClassSplit
