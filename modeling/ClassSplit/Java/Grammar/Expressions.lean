import ClassSplit.Java.Grammar.Types

/-!
Expressions. Binary operators associate to the left, level by level; an assignment and a lambda
extend as far to the right as they can; a sign in front of an expression binds tighter than `++`
and `--` behind it.
-/

namespace ClassSplit.Java.Grammar

open Recognizer

variable (g : Goals)

def argumentList : Recognizer :=
  node .argumentList (mark "(" ++ commaSeparated (g (.expression true)) ++ mark ")")

def parenthesized (kind : Kind) : Recognizer :=
  node kind (mark "(" ++ g (.expression true) ++ mark ")")

def stringParts (fragment : Kind) : Recognizer :=
  many (ofKind fragment <|> ofKind .escapeSequence
    <|> node .stringInterpolation
      (mark "\\\x7b" ++ g (.expression true) ++ mark "\x7d"))

def stringLiteral : Recognizer :=
  node .stringLiteral (mark "\"" ++ stringParts g .stringFragment ++ mark "\"")
    <|> node .stringLiteral
      (mark "\"\"\"" ++ stringParts g .multilineStringFragment ++ mark "\"\"\"")

def literalKinds : List Kind :=
  [.decimalIntegerLiteral, .hexIntegerLiteral, .octalIntegerLiteral, .binaryIntegerLiteral,
    .decimalFloatingPointLiteral, .hexFloatingPointLiteral, .characterLiteral]

def literal : Recognizer :=
  leaf (literalKinds.contains ·.kind) (·.kind)
    <|> keywordAs .trueLiteral "true" <|> keywordAs .falseLiteral "false"
    <|> keywordAs .nullLiteral "null"
    <|> stringLiteral g

/-- What follows `::`. -/
def referencedMember : Recognizer :=
  mark "::" ++ optional (typeArguments g) ++ (keyword "new" <|> identifier [])

def isPlainTypeName : List Node → Bool
  | [n] => isPlain n
  | _ => false
where
  isPlain : Node → Bool
    | .leaf kind _ _ _ => kind = .typeIdentifier
    | .branch kind _ _ children =>
      kind = .scopedTypeIdentifier && children.all fun c =>
        c.kind = .typeIdentifier || c.kind = .scopedTypeIdentifier || c.kind = .token "."

/-- Expressions that begin with a type. A plain name in front of `::` is not taken for a type. -/
def typed : Recognizer :=
  node .classLiteral (g .type ++ mark "." ++ keyword "class")
    <|> node .methodReference
      (suchThat (g .type) (!isPlainTypeName ·) ++ referencedMember g)

def arrayInitializer : Recognizer :=
  node .arrayInitializer
    (mark "\x7b" ++ commaSeparated (g .initializer) ++ optional (mark ",") ++ mark "\x7d")

def initializer : Recognizer := arrayInitializer g <|> g (.expression true)

def objectCreation : Recognizer :=
  keyword "new"
    ++ (annotations g ++ role .typeArguments (typeArguments g) ++ annotations g
      <|> annotations g)
    ++ role .type (simpleType g) ++ role .arguments (argumentList g) ++ optional (g .classBody)

def arrayCreation : Recognizer :=
  node .arrayCreationExpression
    (keyword "new" ++ annotations g ++ role .type (simpleType g)
      ++ (role .dimensions
            (many1 (node .dimensionsExpr
              (annotations g ++ mark "[" ++ g (.expression true) ++ mark "]")))
          ++ role .dimensions (optional (dimensions g))
        <|> role .dimensions (dimensions g) ++ role .value (arrayInitializer g)))

/-- An invocation or a field of an object that has been recognized. -/
def memberOf (object : Recognizer) : Recognizer :=
  node .methodInvocation
      (role .object object ++ mark "."
        ++ optional (keywordAs .superWord "super" ++ mark ".")
        ++ role .typeArguments (optional (typeArguments g))
        ++ role .name (identifier ["this", "super", "new"])
        ++ role .arguments (argumentList g))
    <|> node .fieldAccess
      (role .object object ++ optional (mark "." ++ keywordAs .superWord "super") ++ mark "."
        ++ role .field (keywordAs .thisWord "this" <|> identifier ["super", "new"]))

/-- One step of a chain such as `a.b(c)[d].e`. -/
def chainStep (ns : List Node) : Recognizer :=
  node .objectCreationExpression (given ns ++ mark "." ++ objectCreation g)
    <|> memberOf g (given ns)
    <|> node .templateExpression
      (role .templateProcessor (given ns) ++ mark "." ++ role .templateArgument (stringLiteral g))
    <|> node .arrayAccess
      (role .array (given ns) ++ mark "[" ++ role .index (g (.expression true)) ++ mark "]")
    <|> node .methodReference (given ns ++ referencedMember g)

def chainHead : Recognizer :=
  literal g
    <|> typed g
    <|> node .methodInvocation
      (role .name (identifier expressionKeywords) ++ role .arguments (argumentList g))
    <|> identifier expressionKeywords
    <|> parenthesized g .parenthesizedExpression
    <|> keywordAs .thisWord "this"
    <|> memberOf g (keywordAs .superWord "super")
    <|> node .methodReference (keywordAs .superWord "super" ++ referencedMember g)
    <|> node .objectCreationExpression (objectCreation g)
    <|> arrayCreation g

def primary : Recognizer := extend (chainHead g) (chainStep g)

def assignmentOperators : List String :=
  ["=", "+=", "-=", "*=", "/=", "&=", "|=", "^=", "%=", "<<=", ">>=", ">>>="]

def isAssignable (ns : List Node) : Bool :=
  isKind ns .identifier || isKind ns .fieldAccess || isKind ns .arrayAccess

/-- A primary expression or the assignment that it begins. -/
def assignment (lambdas : Bool) : Recognizer :=
  (primary g).bind fun ns =>
    (if isAssignable ns then
        node .assignmentExpression
          (role .left (given ns) ++ role .operator (operator assignmentOperators)
            ++ role .right (g (.expression lambdas)))
      else fail)
    <|> given ns

/-- Whether a parenthesis that has been opened is closed just in front of an arrow. -/
def closesBeforeArrow (depth : Nat) : List Token → Bool
  | [] => false
  | t :: ts =>
    if t.kind = .token "(" then closesBeforeArrow (depth + 1) ts
    else if t.kind = .token ")" then
      if depth = 0 then ts.head?.any (·.kind = .token "->")
      else closesBeforeArrow (depth - 1) ts
    else closesBeforeArrow depth ts

def arrowAhead : Recognizer where
  run
    | t :: ts =>
      if t.kind = .token "(" && closesBeforeArrow 0 ts then some ([], t :: ts) else none
    | [] => none

def inferredParameters : Recognizer :=
  node .inferredParameters
    (mark "(" ++ commaSeparated1 (identifier (expressionKeywords ++ modifierKeywords))
      ++ mark ")")

def lambdaExpression (lambdas : Bool) : Recognizer :=
  node .lambdaExpression
    (role .parameters
        (identifier expressionKeywords ++ ahead (mark "->")
          <|> arrowAhead ++ (inferredParameters <|> formalParameters g))
      ++ mark "->" ++ role .body (g .block <|> g (.expression lambdas)))

/-- Whether an operand begins here, signs that are also operators aside. -/
def operandBegins : List Token → Bool
  | [] => false
  | t :: _ =>
    match t.kind with
    | .identifier => t.text != "instanceof"
    | .token text => ["(", "!", "~", "\"", "\"\"\""].contains text
    | kind => literalKinds.contains kind

/-- Whether what follows a parenthesised name makes a cast of it. -/
def castContinues : List Token → Bool
  | [] => false
  | t :: ts =>
    operandBegins (t :: ts)
      || ((t.kind = .token "++" || t.kind = .token "--") && operandBegins ts)

def castContinuation : Recognizer where
  run ts := if castContinues ts then some ([], ts) else none

/-- A cast. After a name in parentheses a sign is an operator between two operands, after any
other type it belongs to the operand of the cast. -/
def castExpression (lambdas : Bool) : Recognizer :=
  node .castExpression
      (mark "(" ++ (role .type (annotatedType g)).bind fun types =>
        given types ++ mark ")"
          ++ (if isPlainTypeName types then castContinuation else done)
          ++ role .value (g (.operand lambdas)))
    <|> node .castExpression
      (mark "(" ++ role .type (annotatedType g)
        ++ many1 (mark "&" ++ role .type (annotatedType g)) ++ mark ")"
        ++ role .value ((if lambdas then lambdaExpression g lambdas else fail) <|> primary g))

def switchExpression : Recognizer :=
  node .switchExpression
    (keyword "switch" ++ role .condition (parenthesized g .parenthesizedExpression)
      ++ role .body (g .switchBlock))

/-- An operand without the `++` or `--` behind it. -/
def signed (lambdas : Bool) : Recognizer :=
  node .unaryExpression
      (role .operator (mark "+" <|> mark "-" <|> mark "!" <|> mark "~")
        ++ role .operand (g (.signed lambdas)))
    <|> node .updateExpression ((mark "++" <|> mark "--") ++ g (.signed lambdas))
    <|> (if lambdas then lambdaExpression g lambdas else fail)
    <|> switchExpression g
    <|> castExpression g lambdas
    <|> assignment g lambdas

def operand (lambdas : Bool) : Recognizer :=
  extend (g (.signed lambdas)) fun ns =>
    node .updateExpression (given ns ++ (mark "++" <|> mark "--"))

def recordPattern : Recognizer :=
  node .recordPattern
    ((suchThat (g .type) (isKind · .genericType) <|> identifier [])
      ++ node .recordPatternBody
        (mark "(" ++ commaSeparated
            (node .recordPatternComponent
                (keywordAs .underscorePattern "_" <|> g .type ++ identifier [])
              <|> g .recordPattern)
          ++ mark ")"))

/-- The test whether an operand has a type. -/
def instanceTest (ns : List Node) : Recognizer :=
  node .instanceofExpression
    (role .left (given ns) ++ keyword "instanceof" ++ optional (keyword "final")
      ++ (role .pattern (g .recordPattern)
        <|> role .right (annotatedType g) ++ optional (role .name (identifier ["instanceof"]))))

/-- The binary operators, those that bind loosest first. -/
def operatorLevels : List (List String) :=
  [["||"], ["&&"], ["|"], ["^"], ["&"], ["==", "!="], [">=", "<=", ">", "<"],
    [">>>", ">>", "<<"], ["+", "-"], ["*", "/", "%"]]

def binary (lambdas : Bool) : List (List String) → Recognizer
  | [] => g (.operand lambdas)
  | operators :: tighter =>
    extend (binary lambdas tighter) fun ns =>
      node .binaryExpression
          (role .left (given ns) ++ role .operator (operator operators)
            ++ role .right (binary lambdas tighter))
        <|> (if operators.contains "<" then instanceTest g ns else fail)

def expression (lambdas : Bool) : Recognizer :=
  (binary g lambdas operatorLevels).bind fun ns =>
    node .ternaryExpression
        (role .condition (given ns) ++ mark "?" ++ role .consequence (g (.expression true))
          ++ mark ":" ++ role .alternative (g (.expression lambdas)))
      <|> given ns

end ClassSplit.Java.Grammar
