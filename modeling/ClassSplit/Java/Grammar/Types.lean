import ClassSplit.Java.Grammar.Combinator

/-!
Names, annotations, types, modifiers and parameters.
-/

namespace ClassSplit.Java.Grammar

open Recognizer

def integralTypes : List String := ["byte", "short", "int", "long", "char"]

def floatingPointTypes : List String := ["float", "double"]

/-- The words that an expression may begin with and that are not names. -/
def expressionKeywords : List String :=
  ["this", "super", "new", "switch", "true", "false", "null", "void", "boolean"]
    ++ integralTypes ++ floatingPointTypes

/-- Keywords that are names wherever they have no meaning as a keyword. -/
def reservedNames : List String := ["open", "module", "record", "with", "yield", "sealed"]

def modifierKeywords : List String :=
  ["public", "protected", "private", "abstract", "static", "final", "strictfp", "default",
    "synchronized", "native", "transient", "volatile", "sealed"]

/-- The words that a type does not begin with. -/
def typeKeywords : List String :=
  expressionKeywords ++ modifierKeywords.erase "sealed" ++ ["class", "interface", "enum"]

/-- The words that have a meaning of their own after a dot. -/
def selectorKeywords : List String := ["this", "super", "new", "class"]

variable (g : Goals)

/-- A name that may be qualified. -/
def name : Recognizer :=
  extend (identifier []) fun ns =>
    node .scopedIdentifier
      (role .scope (given ns) ++ mark "." ++ role .name (identifier []))

def annotations : Recognizer := many (g .annotationForm)

/-- The sign of an annotation, not that of the declaration of one. -/
def annotationSign : Recognizer where
  run
    | sign :: next :: ts =>
      if next.text = "interface" ∧ next.span.start = sign.span.stop then none
      else (mark "@").run (sign :: next :: ts)
    | _ => none

def annotationSignOfDeclaration : Recognizer where
  run
    | sign :: next :: ts =>
      if sign.kind = .token "@" ∧ next.text = "interface" ∧ next.span.start = sign.span.stop then
        let text := "@interface"
        some ([.leaf (.token text) none ⟨sign.span.start, next.span.stop⟩ text], ts)
      else none
    | _ => none

def elementPair : Recognizer :=
  node .elementValuePair
    (role .key (identifier (expressionKeywords ++ reservedNames)) ++ mark "="
      ++ role .value (g .elementValue))

def annotationArguments : Recognizer :=
  node .annotationArgumentList
    (mark "(" ++ (commaSeparated1 (elementPair g) ++ mark ")"
      <|> g .elementValue ++ mark ")"
      <|> mark ")"))

def annotationForm : Recognizer :=
  node .annotationWithArguments
      (annotationSign ++ role .name name ++ role .arguments (annotationArguments g))
    <|> node .annotationMarker (annotationSign ++ role .name name)

def elementValue : Recognizer :=
  node .elementValueArrayInitializer
      (mark "\x7b" ++ commaSeparated (g .elementValue) ++ optional (mark ",") ++ mark "\x7d")
    <|> g .annotationForm
    <|> g (.expression true)

def dimensions : Recognizer :=
  node .dimensions (many1 (annotations g ++ mark "[" ++ mark "]"))

/-- A type that may have annotations in front. -/
def annotatedType : Recognizer :=
  node .annotatedType (many1 (g .annotationForm) ++ g .type) <|> g .type

def wildcard : Recognizer :=
  node .wildcard
    (annotations g ++ mark "?"
      ++ optional (keyword "extends" ++ annotatedType g
        <|> keywordAs .superWord "super" ++ annotatedType g))

def typeArguments : Recognizer :=
  node .typeArguments
    (mark "<" ++ commaSeparated (wildcard g <|> annotatedType g) ++ mark ">")

def primitiveType : Recognizer :=
  keywordAs .voidType "void"
    <|> node .integralType (oneOfKeywords integralTypes)
    <|> node .floatingPointType (oneOfKeywords floatingPointTypes)
    <|> keywordAs .booleanType "boolean"

def isKind (ns : List Node) (kind : Kind) : Bool := ns.any (·.kind = kind)

/-- A type by name. Names, type arguments and selections alternate. -/
def namedType : Recognizer :=
  extend (wordAs .typeIdentifier typeKeywords) fun ns =>
    (if isKind ns .genericType then fail
      else node .genericType (given ns ++ typeArguments g))
    <|> node .scopedTypeIdentifier
      (given ns ++ mark "." ++ annotations g ++ wordAs .typeIdentifier selectorKeywords)

def simpleType : Recognizer := primitiveType <|> namedType g

/-- A type without annotations in front. -/
def type : Recognizer :=
  (simpleType g).bind fun ns =>
    node .arrayType (role .element (given ns) ++ role .dimensions (dimensions g)) <|> given ns

def typeParameter : Recognizer :=
  node .typeParameter
    (annotations g ++ wordAs .typeIdentifier []
      ++ optional (node .typeBound
        (keyword "extends" ++ separated1 (annotatedType g) (mark "&"))))

def typeParameters : Recognizer :=
  node .typeParameters (mark "<" ++ commaSeparated1 (typeParameter g) ++ mark ">")

/-- The modifier `non-sealed`, which is one token. -/
def nonSealed : Recognizer where
  run
    | a :: b :: c :: ts =>
      if a.text = "non" ∧ b.kind = .token "-" ∧ c.text = "sealed"
          ∧ b.span.start = a.span.stop ∧ c.span.start = b.span.stop then
        some ([.leaf (.token "non-sealed") none ⟨a.span.start, c.span.stop⟩ "non-sealed"], ts)
      else none
    | _ => none

def modifiers : Recognizer :=
  node .modifiers (many1 (g .annotationForm <|> oneOfKeywords modifierKeywords <|> nonSealed))

/-- A declaration that is given its modifiers. -/
def modified (declaration : List Node → Recognizer) : Recognizer :=
  (optional (modifiers g)).bind declaration

/-- The name of a variable, with brackets that belong to its type. -/
def declaratorName (keywords : List String) : Recognizer :=
  role .name (keywordAs .underscorePattern "_" <|> identifier keywords)
    ++ role .dimensions (optional (dimensions g))

def declarator (keywords : List String) : Recognizer :=
  node .variableDeclarator
    (declaratorName g keywords ++ optional (mark "=" ++ role .value (g .initializer)))

def declarators (keywords : List String) : Recognizer :=
  commaSeparated1 (role .declarator (declarator g keywords))

def formalParameter : Recognizer :=
  modified g fun mods =>
    node .formalParameter (given mods ++ role .type (g .type) ++ declaratorName g ["this"])
    <|> node .spreadParameter
      (given mods ++ g .type ++ mark "..." ++ declarator g [])

/-- The parameter that stands for the receiver. -/
def receiverParameter : Recognizer :=
  node .receiverParameter
    (annotations g ++ g .type ++ many (identifier ["this"] ++ mark ".")
      ++ keywordAs .thisWord "this")

def formalParameters : Recognizer :=
  node .formalParameters
    (mark "(" ++ (receiverParameter g
          ++ optional (mark "," ++ commaSeparated (formalParameter g)) ++ mark ")"
      <|> commaSeparated (formalParameter g) ++ mark ")"))

def throwsClause : Recognizer :=
  node .throws (keyword "throws" ++ commaSeparated1 (annotatedType g))

end ClassSplit.Java.Grammar
