import ClassSplit.Java.Grammar.Statements

/-!
Declarations of modules, packages, imports, types and members.
-/

namespace ClassSplit.Java.Grammar

open Recognizer

variable (g : Goals)

def typeList : Recognizer := node .typeList (separated1 (annotatedType g) (mark ","))

def superInterfaces : Recognizer :=
  node .superInterfaces (keyword "implements" ++ typeList g)

def permitsClause : Recognizer := node .permits (keyword "permits" ++ typeList g)

def classDeclaration (mods : List Node) : Recognizer :=
  node .classDeclaration
    (given mods ++ keyword "class" ++ role .name (identifier [])
      ++ optional (role .typeParameters (typeParameters g))
      ++ optional (role .superclass (node .superclass (keyword "extends" ++ annotatedType g)))
      ++ optional (role .interfaces (superInterfaces g))
      ++ optional (role .permits (permitsClause g))
      ++ role .body (g .classBody))

def interfaceDeclaration (mods : List Node) : Recognizer :=
  node .interfaceDeclaration
    (given mods ++ keyword "interface" ++ role .name (identifier [])
      ++ optional (role .typeParameters (typeParameters g))
      ++ optional (node .extendsInterfaces (keyword "extends" ++ typeList g))
      ++ optional (role .permits (permitsClause g))
      ++ role .body (g .interfaceBody))

def enumDeclaration (mods : List Node) : Recognizer :=
  node .enumDeclaration
    (given mods ++ keyword "enum" ++ role .name (identifier [])
      ++ optional (role .interfaces (superInterfaces g))
      ++ role .body (g .enumBody))

def recordDeclaration (mods : List Node) : Recognizer :=
  node .recordDeclaration
    (given mods ++ keyword "record" ++ role .name (identifier [])
      ++ optional (role .typeParameters (typeParameters g))
      ++ role .parameters (formalParameters g)
      ++ optional (role .interfaces (superInterfaces g))
      ++ role .body (g .classBody))

def annotationDeclaration (mods : List Node) : Recognizer :=
  node .annotationTypeDeclaration
    (given mods ++ annotationSignOfDeclaration ++ role .name (identifier [])
      ++ role .body (g .annotationBody))

def typeDeclaration (mods : List Node) : Recognizer :=
  classDeclaration g mods
    <|> interfaceDeclaration g mods
    <|> enumDeclaration g mods
    <|> recordDeclaration g mods
    <|> annotationDeclaration g mods

def modulesList : Recognizer :=
  optional (keyword "to" ++ role .modules name ++ many (mark "," ++ role .modules name))

def moduleDirective : Recognizer :=
  node .requiresModuleDirective
      (keyword "requires"
        ++ many (role .modifiers
          (node .requiresModifier (oneOfKeywords ["transitive", "static"])))
        ++ role .module name ++ mark ";")
    <|> node .exportsModuleDirective
      (keyword "exports" ++ role .package name ++ modulesList ++ mark ";")
    <|> node .opensModuleDirective
      (keyword "opens" ++ role .package name ++ modulesList ++ mark ";")
    <|> node .usesModuleDirective (keyword "uses" ++ role .type name ++ mark ";")
    <|> node .providesModuleDirective
      (keyword "provides" ++ role .provided name ++ keyword "with" ++ name
        ++ many (mark "," ++ role .provider name) ++ mark ";")

def moduleDeclaration : Recognizer :=
  node .moduleDeclaration
    (annotations g ++ optional (keyword "open") ++ keyword "module" ++ role .name name
      ++ role .body (node .moduleBody (mark "\x7b" ++ many moduleDirective ++ mark "\x7d")))

def packageDeclaration : Recognizer :=
  node .packageDeclaration (annotations g ++ keyword "package" ++ name ++ mark ";")

def importDeclaration : Recognizer :=
  node .importDeclaration
    (keyword "import" ++ optional (keyword "static") ++ name
      ++ optional (mark "." ++ leaf (·.kind = .token "*") fun _ => .asterisk) ++ mark ";")

def declaration : Recognizer :=
  importDeclaration
    <|> modified g (typeDeclaration g)
    <|> packageDeclaration g
    <|> moduleDeclaration g

def methodDeclaration (mods : List Node) : Recognizer :=
  node .methodDeclaration
    (given mods ++ optional (role .typeParameters (typeParameters g) ++ annotations g)
      ++ role .type (g .type) ++ role .name (identifier [])
      ++ role .parameters (formalParameters g)
      ++ role .dimensions (optional (dimensions g)) ++ optional (throwsClause g)
      ++ (role .body (g .block) <|> mark ";"))

/-- The first statement of a constructor may be the call of another constructor. -/
def constructorInvocation : Recognizer :=
  node .explicitConstructorInvocation
      (role .typeArguments (optional (typeArguments g))
        ++ role .constructor (keywordAs .thisWord "this" <|> keywordAs .superWord "super")
        ++ role .arguments (argumentList g) ++ mark ";")
    <|> node .explicitConstructorInvocation
      (role .object (primary g) ++ mark "."
        ++ role .typeArguments (optional (typeArguments g))
        ++ role .constructor (keywordAs .superWord "super")
        ++ role .arguments (argumentList g) ++ mark ";")

def constructorDeclaration (mods : List Node) : Recognizer :=
  node .constructorDeclaration
    (given mods ++ role .typeParameters (optional (typeParameters g))
      ++ role .name (identifier typeKeywords) ++ role .parameters (formalParameters g)
      ++ optional (throwsClause g)
      ++ role .body (node .constructorBody
        (mark "\x7b" ++ optional (constructorInvocation g) ++ many (g .statement)
          ++ mark "\x7d")))

def compactConstructor (mods : List Node) : Recognizer :=
  node .compactConstructorDeclaration
    (given mods ++ role .name (identifier typeKeywords) ++ role .body (g .block))

def variableDeclaration (kind : Kind) (mods : List Node) : Recognizer :=
  node kind (given mods ++ role .type (g .type) ++ declarators g [] ++ mark ";")

def member (mods : List Node) : Recognizer :=
  typeDeclaration g mods
    <|> notAhead (keyword "record")
      ++ (constructorDeclaration g mods
        <|> compactConstructor g mods
        <|> methodDeclaration g mods
        <|> variableDeclaration g .fieldDeclaration mods)

def classMember : Recognizer :=
  mark ";"
    <|> g .block
    <|> node .staticInitializer (keyword "static" ++ g .block)
    <|> modified g (member g)

def classBody : Recognizer :=
  node .classBody (mark "\x7b" ++ many (classMember g) ++ mark "\x7d")

def interfaceBody : Recognizer :=
  node .interfaceBody
    (mark "\x7b"
      ++ many (mark ";"
        <|> modified g fun mods =>
          typeDeclaration g mods
            <|> notAhead (keyword "record")
              ++ (methodDeclaration g mods <|> variableDeclaration g .constantDeclaration mods))
      ++ mark "\x7d")

def annotationElement (mods : List Node) : Recognizer :=
  node .annotationTypeElementDeclaration
    (given mods ++ role .type (g .type) ++ role .name (identifier []) ++ mark "(" ++ mark ")"
      ++ role .dimensions (optional (dimensions g))
      ++ optional (keyword "default" ++ role .value (g .elementValue)) ++ mark ";")

def annotationBody : Recognizer :=
  node .annotationTypeBody
    (mark "\x7b"
      ++ many (mark ";"
        <|> modified g fun mods =>
          classDeclaration g mods
            <|> interfaceDeclaration g mods
            <|> enumDeclaration g mods
            <|> annotationDeclaration g mods
            <|> annotationElement g mods
            <|> variableDeclaration g .constantDeclaration mods)
      ++ mark "\x7d")

def enumConstant : Recognizer :=
  node .enumConstant
    (optional (modifiers g) ++ role .name (identifier modifierKeywords)
      ++ role .arguments (optional (argumentList g)) ++ role .body (optional (g .classBody)))

def enumBody : Recognizer :=
  node .enumBody
    (mark "\x7b" ++ commaSeparated (enumConstant g) ++ optional (mark ",")
      ++ optional (node .enumBodyDeclarations (mark ";" ++ many (classMember g)))
      ++ mark "\x7d")

/-- What may stand outside of all types. -/
def topLevel : Recognizer := g .statement <|> modified g (methodDeclaration g)

end ClassSplit.Java.Grammar
