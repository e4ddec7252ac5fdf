import ClassSplit.NewClass.Field
import ClassSplit.NewClass.Method

/-!
The source text of the new class.
-/

namespace ClassSplit

/-- What the source of a new class is made of. -/
structure NewClass where
  name : String
  /-- The class from which the members come. -/
  origin : ClassModel
  fields : List MovedField
  methods : List MovedMethod
  /-- One level of indentation. -/
  indent : String

namespace NewClass

/-- The package and the imports, which are those of the old class. -/
def preamble (origin : ClassModel) : String :=
  (match origin.package with
    | some package => "package " ++ package ++ ";\n\n"
    | none => "")
  ++ (if origin.imports.isEmpty then "" else "\n".intercalate origin.imports ++ "\n\n")

/-- The parts of the body: all fields, then each accessor and each method. -/
def blocks (n : NewClass) : List String :=
  (if n.fields.isEmpty then [] else ["\n".intercalate (n.fields.map (·.declaration))])
    ++ n.fields.flatMap (·.members) ++ n.methods.map (·.source)

def indentedBlock (n : NewClass) (block : String) : String :=
  String.ofList (Text.indentBlock n.indent.toList block.toList)

/-- The class is public if the old class is. -/
def source (n : NewClass) : String :=
  let access := if n.origin.modifiers.visibility = .everyone then "public " else ""
  let body := n.blocks.map n.indentedBlock
  preamble n.origin ++ access ++ "class " ++ n.name ++ " \x7b\n"
    ++ (if body.isEmpty then "" else "\n\n".intercalate body ++ "\n") ++ "\x7d\n"

end NewClass

end ClassSplit
