import ClassSplit.Model.OfTree

/-!
The names that are declared closer than the fields of the class. A name at some place means a
local variable, a parameter, a variable of a loop, of a resource or of a pattern, or a field of a
nested type, if one of these is visible there.
-/

namespace ClassSplit

open Java

/-- What a name is bound to: a variable of a type, which need not be written. -/
structure Binding where
  type : Option String
  deriving DecidableEq

namespace JavaSource

variable (s : JavaSource)

def spelling (n : Node) : String := textOf s.text n

def isPrimaryBody (n : Node) : Bool := n.kind = .classBody && n.span = s.model.body

/-- Whether a node declares a name. -/
def declares (n : Node) (name : String) : Bool := (n.child? .name).any (s.spelling · == name)

def typeBinding (n : Node) : Binding := ⟨(n.child? .type).map s.spelling⟩

/-- What a declaration of variables binds a name to. -/
def declarationBinding? (declaration : Node) (name : String) : Option Binding :=
  if declaration.namedChildren.any fun c => c.kind = .variableDeclarator && s.declares c name then
    some (s.typeBinding declaration)
  else none

/-- What the statements of a block that begin before an offset bind a name to. -/
def blockBinding? (block : Node) (name : String) (offset : Nat) : Option Binding :=
  (block.namedChildren.filter fun c =>
      c.span.start < offset && c.kind = .localVariableDeclaration).findSome?
    (s.declarationBinding? · name)

def parameterBinding? (parameter : Node) (name : String) : Option Binding :=
  match parameter.kind with
  | .formalParameter => if s.declares parameter name then some (s.typeBinding parameter) else none
  | .spreadParameter =>
    if (parameter.namedChildren.find? (·.kind = .variableDeclarator)).any (s.declares · name) then
      let type := parameter.namedChildren.find? fun c =>
        c.kind ≠ .modifiers ∧ c.kind ≠ .variableDeclarator
      some ⟨type.map s.spelling⟩
    else none
  | _ => none

def parametersBinding? (parameters : Node) (name : String) : Option Binding :=
  parameters.namedChildren.findSome? (s.parameterBinding? · name)

/-- The parameters of a lambda need not have types. -/
def lambdaBinding? (parameters : Node) (name : String) : Option Binding :=
  match parameters.kind with
  | .identifier => if s.spelling parameters == name then some ⟨none⟩ else none
  | .inferredParameters =>
    if parameters.namedChildren.any (s.spelling · == name) then some ⟨none⟩ else none
  | _ => s.parametersBinding? parameters name

/-- What the type pattern of a case binds a name to. -/
def caseBinding? (case : Node) (name : String) : Option Binding :=
  let below (kind : Kind) (ns : List Node) : List Node :=
    (ns.flatMap Node.namedChildren).filter (·.kind = kind)
  let patterns := below .typePattern (below .pattern (below .switchLabel [case]))
  (patterns.find? fun p => p.namedChildren.getLast?.any (s.spelling · == name)).map fun p =>
    ⟨p.namedChildren.head?.map s.spelling⟩

def catchBinding? (clause : Node) (name : String) : Option Binding :=
  match clause.namedChildren.find? (·.kind = .catchFormalParameter) with
  | none => none
  | some parameter =>
    if s.declares parameter name then
      some ⟨(parameter.namedChildren.find? (·.kind = .catchType)).map s.spelling⟩
    else none

/-- What a construct binds a name to for the places inside it. Only what begins before the offset
counts where declarations follow each other. -/
def constructBinding? (construct : Node) (name : String) (offset : Nat) : Option Binding :=
  match construct.kind with
  | .block | .constructorBody => s.blockBinding? construct name offset
  | .switchBlockStatementGroup =>
    (s.blockBinding? construct name offset).or (s.caseBinding? construct name)
  | .switchRule => s.caseBinding? construct name
  | .switchBlock =>
    (construct.namedChildren.filter (·.span.start < offset)).findSome?
      (s.blockBinding? · name offset)
  | .methodDeclaration | .constructorDeclaration =>
    (construct.child? .parameters).bind (s.parametersBinding? · name)
  | .lambdaExpression => (construct.child? .parameters).bind (s.lambdaBinding? · name)
  | .forStatement =>
    (construct.namedChildren.filter (·.kind = .localVariableDeclaration)).findSome?
      (s.declarationBinding? · name)
  | .enhancedForStatement =>
    if s.declares construct name then some (s.typeBinding construct) else none
  | .catchClause => s.catchBinding? construct name
  | .tryWithResourcesStatement =>
    (construct.child? .resources).bind fun resources =>
      ((resources.namedChildren.filter (·.span.start < offset)).find? (s.declares · name)).map
        s.typeBinding
  | .classBody | .enumBody | .interfaceBody =>
    (construct.namedChildren.filter fun c =>
        c.kind = .fieldDeclaration || c.kind = .constantDeclaration).findSome?
      (s.declarationBinding? · name)
  | _ => none

end JavaSource

/-- The places below which a pattern variable may be visible. -/
def isPatternScope (site : Site) : Bool :=
  match site.kind with
  | .methodDeclaration | .constructorDeclaration | .lambdaExpression | .staticInitializer => true
  | .block => site.parent?.any (·.kind = .classBody)
  | _ => false

def covers? (n : Option Node) (span : Span) : Bool := n.any (·.span.covers span)

def isNegation (n : Node) : Bool :=
  n.kind = .unaryExpression && n.children.head?.any (·.kind = .token "!")

/-- Whether the variable of a type test is visible in a span, seen from the constructs around
the test. A test in a condition makes the variable visible in the rest of the condition and in the
branch that is taken when the test succeeds; a negated test in the other branch and in what follows
the statement. Elsewhere the variable is visible in the rest of the statement. -/
def patternReaches (span : Span) (negated : Bool) (current : Node) : List Site → Bool
  | [] => false
  | around :: above =>
    let n := around.node
    let isCondition := current.role = some .condition
    match n.kind with
    | .unaryExpression => patternReaches span (negated != isNegation n) n above
    | .ifStatement | .whileStatement | .ternaryExpression =>
      if isCondition then
        if current.span.covers span then true
        else if !negated then
          covers? (n.child? (if n.kind = .whileStatement then .body else .consequence)) span
        else
          covers? (n.child? .alternative) span
            || n.kind ≠ .ternaryExpression && n.span.stop ≤ span.start
              && covers? (above.head?.map (·.node)) span
      else if n.kind = .ternaryExpression then patternReaches span negated n above
      else n.span.covers span
    | .expressionStatement | .returnStatement | .localVariableDeclaration | .yieldStatement
    | .throwStatement | .assertStatement | .doStatement | .forStatement | .enhancedForStatement
    | .lambdaExpression | .block | .fieldDeclaration => n.span.covers span
    | _ => patternReaches span negated n above

/-- Whether the variable of a type test is visible at a span. -/
def patternInScope (test : Site) (span : Span) : Bool :=
  test.span.stop ≤ span.start && patternReaches span false test.node test.ancestors

namespace JavaSource

variable (s : JavaSource)

/-- What a type test below a scope binds a name to at a site. -/
def patternBinding? (scope site : Site) (name : String) : Option Binding :=
  (scope.preorder.find? fun test =>
      test.kind = .instanceofExpression && s.declares test.node name
        && patternInScope test site.span).map fun test =>
    ⟨(test.node.child? .right).map s.spelling⟩

/-- What a name at a site is bound to by the innermost of some enclosing constructs that binds it.
The body of the primary class ends the search. -/
def bindingWithin? (site : Site) (name : String) : List Site → Option Binding
  | [] => none
  | around :: above =>
    if s.isPrimaryBody around.node then none
    else
      match (s.constructBinding? around.node name site.span.start).or
          (if isPatternScope around then s.patternBinding? around site name else none) with
      | some binding => some binding
      | none => bindingWithin? site name above

/-- The declaration closest to a site that binds a name, fields of the primary class aside. -/
def localBinding? (site : Site) (name : String) : Option Binding :=
  s.bindingWithin? site name site.ancestors

end JavaSource

end ClassSplit
