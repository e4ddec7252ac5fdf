import ClassSplit.Datum.Decode
import ClassSplit.Model.Facts

/-!
Class models, facts and candidates as structured data, in both directions.
-/

namespace ClassSplit

open Datum

namespace Span

def toDatum (s : Span) : Datum := .object [("start", .ofNat s.start), ("end", .ofNat s.stop)]

def shape : Shape :=
  { title := "TextRange", slots := [required "start" asNat, required "end" asNat] }

def ofDatum : Decoder Span := fun d => do
  let d ← shape.entries d
  .ok { start := ← field d "start" asNat, stop := ← field d "end" asNat }

end Span

namespace Visibility

def variants : List (String × Visibility) :=
  [("public", .everyone), ("protected", .subclasses), ("packagePrivate", .package),
    ("private", .classOnly)]

def label : Visibility → String
  | .everyone => "public"
  | .subclasses => "protected"
  | .package => "packagePrivate"
  | .classOnly => "private"

def ofDatum : Decoder Visibility := asVariant .json variants

end Visibility

namespace Modifiers

def toDatum (m : Modifiers) : Datum :=
  .object
    [("visibility", .string m.visibility.label), ("isStatic", .bool m.isStatic),
      ("isFinal", .bool m.isFinal), ("isAbstract", .bool m.isAbstract),
      ("annotations", .ofStrings m.annotations), ("keywords", .ofStrings m.keywords),
      ("text", .string m.text)]

def shape : Shape :=
  { title := "Modifiers"
    slots :=
      [required "visibility" Visibility.ofDatum, required "isStatic" asBool,
        required "isFinal" asBool, required "isAbstract" asBool,
        allowed "annotations" (asList asString), allowed "keywords" (asList asString),
        allowed "text" asString]
    absentInArray := ["annotations", "keywords", "text"] }

def ofDatum : Decoder Modifiers := fun d => do
  let d ← shape.entries d
  .ok
    { visibility := ← field d "visibility" Visibility.ofDatum
      isStatic := ← field d "isStatic" asBool
      isFinal := ← field d "isFinal" asBool
      isAbstract := ← field d "isAbstract" asBool
      annotations := ← fieldOr d "annotations" (asList asString) []
      keywords := ← fieldOr d "keywords" (asList asString) []
      text := ← fieldOr d "text" asString "" }

end Modifiers

namespace Field

def toDatum (f : Field) : Datum :=
  .object
    [("name", .string f.name), ("ty", .string f.type), ("modifiers", f.modifiers.toDatum),
      ("initializer", .ofOption f.initializer), ("declarationRange", f.declaration.toDatum),
      ("declaratorRange", f.declarator.toDatum), ("group", .ofNat f.group)]

def shape : Shape :=
  { title := "FieldDecl"
    slots :=
      [required "name" asString, required "ty" asString,
        required "modifiers" Modifiers.ofDatum, allowed "initializer" (asOption asString),
        required "declarationRange" Span.ofDatum, required "declaratorRange" Span.ofDatum,
        required "group" asNat] }

def ofDatum : Decoder Field := fun d => do
  let d ← shape.entries d
  .ok
    { name := ← field d "name" asString
      type := ← field d "ty" asString
      modifiers := ← field d "modifiers" Modifiers.ofDatum
      initializer := ← fieldOr d "initializer" (asOption asString) none
      declaration := ← field d "declarationRange" Span.ofDatum
      declarator := ← field d "declaratorRange" Span.ofDatum
      group := ← field d "group" asNat }

end Field

namespace Parameter

def toDatum (p : Parameter) : Datum :=
  .object [("ty", .string p.type), ("name", .string p.name), ("variadic", .bool p.variadic)]

def shape : Shape :=
  { title := "Parameter"
    slots := [required "ty" asString, required "name" asString, required "variadic" asBool] }

def ofDatum : Decoder Parameter := fun d => do
  let d ← shape.entries d
  .ok
    { type := ← field d "ty" asString
      name := ← field d "name" asString
      variadic := ← field d "variadic" asBool }

end Parameter

namespace Method

def toDatum (m : Method) : Datum :=
  .object
    [("name", .string m.name), ("signature", .string m.signature),
      ("params", .array (m.params.map Parameter.toDatum)), ("returnType", .string m.returnType),
      ("modifiers", m.modifiers.toDatum), ("isConstructor", .bool m.isConstructor),
      ("range", m.span.toDatum), ("bodyRange", (m.body.map Span.toDatum).getD .null)]

def shape : Shape :=
  { title := "MethodDecl"
    slots :=
      [required "name" asString, required "signature" asString,
        required "params" (asList Parameter.ofDatum), required "returnType" asString,
        required "modifiers" Modifiers.ofDatum, required "isConstructor" asBool,
        required "range" Span.ofDatum, allowed "bodyRange" (asOption Span.ofDatum)] }

def ofDatum : Decoder Method := fun d => do
  let d ← shape.entries d
  .ok
    { name := ← field d "name" asString
      signature := ← field d "signature" asString
      params := ← field d "params" (asList Parameter.ofDatum)
      returnType := ← field d "returnType" asString
      modifiers := ← field d "modifiers" Modifiers.ofDatum
      isConstructor := ← field d "isConstructor" asBool
      span := ← field d "range" Span.ofDatum
      body := ← fieldOr d "bodyRange" (asOption Span.ofDatum) none }

end Method

namespace TypeForm

def variants : List (String × TypeForm) :=
  [("class", .classType), ("interface", .interfaceType), ("enum", .enumType),
    ("record", .recordType), ("annotation", .annotationType)]

def label : TypeForm → String
  | .classType => "class"
  | .interfaceType => "interface"
  | .enumType => "enum"
  | .recordType => "record"
  | .annotationType => "annotation"

def ofDatum : Decoder TypeForm := asVariant .json variants

end TypeForm

namespace NestedType

def toDatum (t : NestedType) : Datum :=
  .object
    [("name", .string t.name), ("kind", .string t.form.label),
      ("visibility", .string t.visibility.label)]

def shape : Shape :=
  { title := "NestedType"
    slots :=
      [required "name" asString, required "kind" TypeForm.ofDatum,
        required "visibility" Visibility.ofDatum] }

def ofDatum : Decoder NestedType := fun d => do
  let d ← shape.entries d
  .ok
    { name := ← field d "name" asString
      form := ← field d "kind" TypeForm.ofDatum
      visibility := ← field d "visibility" Visibility.ofDatum }

end NestedType

namespace ClassModel

def toDatum (c : ClassModel) : Datum :=
  .object
    [("name", .string c.name), ("package", .ofOption c.package),
      ("imports", .ofStrings c.imports), ("modifiers", c.modifiers.toDatum),
      ("fields", .array (c.fields.map Field.toDatum)),
      ("methods", .array (c.methods.map Method.toDatum)),
      ("nestedTypes", .array (c.nestedTypes.map NestedType.toDatum)),
      ("range", c.span.toDatum), ("bodyRange", c.body.toDatum)]

def shape : Shape :=
  { title := "SourceClass"
    slots :=
      [required "name" asString, allowed "package" (asOption asString),
        required "imports" (asList asString), required "modifiers" Modifiers.ofDatum,
        required "fields" (asList Field.ofDatum), required "methods" (asList Method.ofDatum),
        required "nestedTypes" (asList NestedType.ofDatum), required "range" Span.ofDatum,
        required "bodyRange" Span.ofDatum] }

def ofDatum : Decoder ClassModel := fun d => do
  let d ← shape.entries d
  .ok
    { name := ← field d "name" asString
      package := ← fieldOr d "package" (asOption asString) none
      imports := ← field d "imports" (asList asString)
      modifiers := ← field d "modifiers" Modifiers.ofDatum
      fields := ← field d "fields" (asList Field.ofDatum)
      methods := ← field d "methods" (asList Method.ofDatum)
      nestedTypes := ← field d "nestedTypes" (asList NestedType.ofDatum)
      span := ← field d "range" Span.ofDatum
      body := ← field d "bodyRange" Span.ofDatum }

end ClassModel

def NameSet.toDatum (s : NameSet) : Datum := .ofStrings s.toList

def NameSet.ofDatum : Decoder NameSet := fun d => (asList asString d).map NameSet.ofList

namespace Facts

def tableToDatum (table : FactTable) : Datum :=
  .object (table.entries.map fun (name, names) => (name, names.toDatum))

def asTable : Decoder FactTable := fun d => (asEntries NameSet.ofDatum d).map NameMap.ofList

def toDatum (facts : Facts) : Datum :=
  .object
    [("methodCalls", tableToDatum facts.calls), ("fieldAccesses", tableToDatum facts.accesses),
      ("typeReferences", tableToDatum facts.types)]

def shape : Shape :=
  { title := "DependencyFacts"
    slots :=
      [allowed "methodCalls" asTable, allowed "fieldAccesses" asTable,
        allowed "typeReferences" asTable]
    absentInArray := ["methodCalls", "fieldAccesses", "typeReferences"] }

def ofDatum : Decoder Facts := fun d => do
  let d ← shape.entries d
  .ok
    { calls := ← fieldOr d "methodCalls" asTable .empty
      accesses := ← fieldOr d "fieldAccesses" asTable .empty
      types := ← fieldOr d "typeReferences" asTable .empty }

end Facts

namespace Candidate

def shape : Shape :=
  { title := "CandidateSet"
    slots :=
      [required "newClassName" asString, allowed "fieldNames" (asList asString),
        allowed "methodSignatures" (asList asString)]
    absentInArray := ["fieldNames", "methodSignatures"] }

def ofDatum : Decoder Candidate := fun d => do
  let d ← shape.entries d
  .ok
    { newClass := ← field d "newClassName" asString
      fields := ← fieldOr d "fieldNames" (asList asString) []
      methods := ← fieldOr d "methodSignatures" (asList asString) [] }

end Candidate

end ClassSplit
