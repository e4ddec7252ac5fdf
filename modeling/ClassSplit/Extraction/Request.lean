import ClassSplit.Datum.Decode
import ClassSplit.Model.Facts

/-!
What is asked of an extraction: a name for the new class, the path of the source file and the
members to move.
-/

namespace ClassSplit

open Datum

structure Request where
  newClass : String
  path : String
  methods : List String
  fields : List String
  deriving DecidableEq

namespace Request

def candidate (r : Request) : Candidate :=
  { newClass := r.newClass, fields := r.fields, methods := r.methods }

def shape : Shape :=
  { title := "ExtractClassRequest"
    slots :=
      [required "newClassName" asString, required "sourceFilePath" asPath,
        allowed "methodSignatures" (asList asString), allowed "fieldNames" (asList asString)]
    absentInArray := ["methodSignatures", "fieldNames"] }

def ofDatum : Decoder Request := fun d => do
  let d ← shape.entries d
  .ok
    { newClass := ← field d "newClassName" asString
      path := ← field d "sourceFilePath" asPath
      methods := ← fieldOr d "methodSignatures" (asList asString) []
      fields := ← fieldOr d "fieldNames" (asList asString) [] }

end Request

end ClassSplit
