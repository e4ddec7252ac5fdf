import ClassSplit.Java.Source
import ClassSplit.Model.Basic

/-!
The model of the primary class of a source text.
-/

namespace ClassSplit

open Java

/-- A source text with its tree and the model of its primary class. -/
structure JavaSource where
  text : List Char
  tree : Node
  model : ClassModel

namespace JavaSource

inductive ParseError where
  /-- The text is not a sentence of the grammar. -/
  | malformed
  /-- There is no class outside of other types. -/
  | noClass
  deriving DecidableEq

def ParseError.message : ParseError → String
  | .malformed => "syntax error"
  | .noClass => "no class declaration found"

/-- The text of a node as a string. -/
def textOf (text : List Char) (n : Node) : String :=
  match n with
  | .leaf _ _ _ word => word
  | .branch _ _ span _ => String.ofList (Text.slice text span)

/-- The text of a type without its superfluous blanks. -/
def typeTextOf (text : List Char) (n : Node) : String :=
  String.ofList (Signature.collapseType (textOf text n).toList)

def modifiersNode? (n : Node) : Option Node := n.childOfKind? .modifiers

/-- Adds what one modifier says. -/
def addModifier (text : List Char) (mods : Modifiers) (n : Node) : Modifiers :=
  match n.kind with
  | .token "public" => { mods with visibility := .everyone }
  | .token "protected" => { mods with visibility := .subclasses }
  | .token "private" => { mods with visibility := .classOnly }
  | .token word =>
    { mods with
      isStatic := mods.isStatic || word == "static"
      isFinal := mods.isFinal || word == "final"
      isAbstract := mods.isAbstract || word == "abstract"
      keywords := mods.keywords ++ [word] }
  | .annotationWithArguments | .annotationMarker =>
    { mods with annotations := mods.annotations ++ [textOf text n] }
  | _ => mods

def readModifiers (text : List Char) (declaration : Node) : Modifiers :=
  match modifiersNode? declaration with
  | none => .none
  | some n => n.children.foldl (addModifier text) { Modifiers.none with text := textOf text n }

/-- The brackets behind a name. -/
def dimensionsOf (text : List Char) (n : Node) : String :=
  match n.child? .dimensions with
  | none => ""
  | some dims => brackets ((textOf text dims).toList.count '[')

def readFields (text : List Char) (group : Nat) (declaration : Node) : List Field :=
  let modifiers := readModifiers text declaration
  let base := ((declaration.child? .type).map (typeTextOf text)).getD ""
  (declaration.namedChildren.filter (·.kind = .variableDeclarator)).filterMap fun declarator => do
    let name ← declarator.child? .name
    some
      { name := textOf text name
        type := base ++ dimensionsOf text declarator
        modifiers
        initializer := (declarator.child? .value).map (textOf text)
        declaration := declaration.span
        declarator := declarator.span
        group }

def readParameter? (text : List Char) (n : Node) : Option Parameter :=
  match n.kind with
  | .formalParameter => do
    let type ← n.child? .type
    let name ← n.child? .name
    some
      { type := typeTextOf text type ++ dimensionsOf text n, name := textOf text name
        variadic := false }
  | .spreadParameter => do
    let type ← n.namedChildren.find? fun c => c.kind ≠ .modifiers ∧ c.kind ≠ .variableDeclarator
    let declarator ← n.childOfKind? .variableDeclarator
    let name ← declarator.child? .name
    some { type := typeTextOf text type, name := textOf text name, variadic := true }
  | _ => none

def readParameters (text : List Char) (declaration : Node) : List Parameter :=
  match declaration.child? .parameters with
  | none => []
  | some n => n.namedChildren.filterMap (readParameter? text)

def readMethod (text : List Char) (isConstructor : Bool) (declaration : Node) : Method :=
  let name := ((declaration.child? .name).map (textOf text)).getD ""
  let params := readParameters text declaration
  let types := params.map fun p => p.type ++ (if p.variadic then "..." else "")
  { name
    signature := canonicalSignature (name ++ "(" ++ ",".intercalate types ++ ")")
    params
    returnType :=
      if isConstructor then ""
      else ((declaration.child? .type).map (typeTextOf text)).getD "void"
    modifiers := readModifiers text declaration
    isConstructor
    span := declaration.span
    body := (declaration.child? .body).map (·.span) }

def typeForm? : Kind → Option TypeForm
  | .classDeclaration => some .classType
  | .interfaceDeclaration => some .interfaceType
  | .enumDeclaration => some .enumType
  | .recordDeclaration => some .recordType
  | .annotationTypeDeclaration => some .annotationType
  | _ => none

def readNestedType? (text : List Char) (declaration : Node) : Option NestedType := do
  let form ← typeForm? declaration.kind
  let name ← declaration.child? .name
  some
    { name := textOf text name, form, visibility := (readModifiers text declaration).visibility }

/-- The package that a compilation unit declares last. -/
def readPackage? (text : List Char) (root : Node) : Option String :=
  match (root.namedChildren.filter (·.kind = .packageDeclaration)).getLast? with
  | none => none
  | some n =>
    (n.namedChildren.find? fun c => c.kind = .scopedIdentifier ∨ c.kind = .identifier).map
      (textOf text)

def readClass (text : List Char) (root declaration : Node) : ClassModel :=
  let body := declaration.child? .body
  let members := (body.map (·.namedChildren)).getD []
  { name := ((declaration.child? .name).map (textOf text)).getD ""
    package := readPackage? text root
    imports :=
      (root.namedChildren.filter (·.kind = .importDeclaration)).map (textOf text)
    modifiers := readModifiers text declaration
    fields := (members.mapIdx fun group member =>
      if member.kind = .fieldDeclaration then readFields text group member else []).flatten
    methods := members.filterMap fun member =>
      match member.kind with
      | .methodDeclaration => some (readMethod text false member)
      | .constructorDeclaration => some (readMethod text true member)
      | _ => none
    nestedTypes := members.filterMap (readNestedType? text)
    span := declaration.span
    body := (body.map (·.span)).getD declaration.span }

/-- The classes outside of other types. -/
def topClasses (root : Node) : List Node :=
  root.namedChildren.filter (·.kind = .classDeclaration)

/-- Reads a source. Its primary class is the one with the wanted name if there is one, otherwise
the first. -/
def parse (source : String) (wanted : Option String) : Except ParseError JavaSource :=
  let text := source.toList
  match tree? text with
  | none => .error .malformed
  | some root =>
    let classes := topClasses root
    let named := wanted.bind fun name =>
      classes.find? fun c => ((c.child? .name).map (textOf text)).any (· == name)
    match named.or classes.head? with
    | none => .error .noClass
    | some declaration =>
      .ok { text, tree := root, model := readClass text root declaration }

variable (s : JavaSource)

/-- The declaration of the primary class. -/
def classSite? : Option Site :=
  ((Site.root s.tree).namedChildren).find? fun c =>
    c.kind = .classDeclaration ∧ c.span = s.model.span

def classBody? : Option Site := s.classSite?.bind (·.child? .body)

/-- The declaration of the member that has a span. -/
def member? (span : Span) : Option Site :=
  s.classBody?.bind fun body => body.namedChildren.find? (·.span = span)

def slice (span : Span) : String := String.ofList (Text.slice s.text span)

def textAt (site : Site) : String := textOf s.text site.node

end JavaSource

end ClassSplit
