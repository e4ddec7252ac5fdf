import ClassSplit.Plan.Repair
import ClassSplit.Text.Words

/-!
The decision about a proposed set of members. The selection of methods is completed first; then
everything that a new class could not do blocks the extraction, and what changes for the class that
stays is reported.
-/

namespace ClassSplit

inductive Plan where
  /-- With the issues that block the extraction. -/
  | rejected (issues : List Issue)
  /-- With the members that move, and what is worth knowing about them. -/
  | approved (fields methods : List String) (issues : List Issue)
  deriving DecidableEq

namespace Plan

def isApproved : Plan → Bool
  | rejected _ => false
  | approved .. => true

def issues : Plan → List Issue
  | rejected issues => issues
  | approved _ _ issues => issues

def toDatum : Plan → Datum
  | rejected issues =>
    .object [("status", .string "rejected"), ("issues", .array (issues.map Issue.toDatum))]
  | approved fields methods issues =>
    .object
      [("status", .string "approved"), ("finalFieldNames", .ofStrings fields),
        ("finalMethodSignatures", .ofStrings methods),
        ("issues", .array (issues.map Issue.toDatum))]

end Plan

/-- How many rounds the completion of a selection may take unless told otherwise. -/
def defaultRepairRounds : Nat := 10

namespace Verdict

def words (text : String) : List String := (Text.identifiers text.toList).map String.ofList

variable (c : ClassModel) (facts : Facts)

def abstractIssues (known : SignatureSet) (m : Method) : List Issue :=
  let own : List Issue :=
    if m.isAbstract then
      [{ kind := .abstractCall, member := m.signature
         description := "abstract method has no implementation to move" }]
    else []
  let called := (facts.callsOf m).toList.flatMap fun callee =>
    (c.methodsNamed callee).filter fun target =>
      target.isAbstract && !known.contains target.signature
  own ++ called.map fun target =>
    { kind := .abstractCall, member := m.signature
      description :=
        "calls abstract method " ++ target.signature
          ++ " which the new class cannot implement" }

def methodTypeIssues (m : Method) : List Issue :=
  ((facts.typesOf m).toList.filter c.isPrivateNestedType).map fun type =>
    { kind := .innerTypeReference, member := m.signature
      description := "references private nested type " ++ type }

def fieldTypeIssues (name : String) : List Issue :=
  match c.field? name with
  | none => []
  | some field =>
    ((words field.type).filter c.isPrivateNestedType).map fun type =>
      { kind := .innerTypeReference, member := name
        description := "declared type mentions private nested type " ++ type }

/-- The static fields that the methods use and that have not been asked for, each with the first
method that uses it. -/
def staticAdditions (methods : List Method) (fields : List String) : List (String × String) :=
  distinctOn Prod.fst (methods.flatMap fun m =>
    ((facts.accessesOf m).toList.filter fun name =>
        (c.field? name).any (·.isStatic) && !fields.contains name).map fun name =>
      (name, m.signature))

def staticIssue (addition : String × String) : Issue :=
  { kind := .staticFieldIncluded, member := addition.1
    description := "static field read by " ++ addition.2 ++ " moves with it" }

/-- What a moved method loses: fields and methods that stay and that it cannot reach. -/
def accessIssues (known : SignatureSet) (fields : List String) (m : Method) : List Issue :=
  let remaining := (facts.accessesOf m).toList.filter fun name =>
    (c.field? name).any (!·.isStatic) && !fields.contains name
  let unreachable := (facts.callsOf m).toList.filter fun callee =>
    ((c.methodsNamed callee).filter (!known.contains ·.signature)).any fun target =>
      !target.isStatic || target.isPrivate
  (remaining.map fun name =>
      { kind := .remainingFieldAccess, member := m.signature
        description := "accesses instance field " ++ name ++ ", which stays behind" })
    ++ unreachable.map fun callee =>
      { kind := .unqualifiableCall, member := m.signature
        description :=
          "calls " ++ callee ++ ", which stays behind and is not reachable as " ++ c.name ++ "."
            ++ callee }

/-- The members that an initializer mentions and that stay. -/
def staysBehind (methods : List Method) (fields : List String) (name : String) : Bool :=
  (c.field? name).isSome && !fields.contains name
    || !(c.methodsNamed name).isEmpty && !methods.any (·.name == name)

def initializerIssues (methods : List Method) (fields : List String) (name : String)
    (field : Field) : List Issue :=
  match field.initializer with
  | none => []
  | some initializer =>
    ((words initializer).filter (staysBehind c methods fields)).map fun mention =>
      { kind := .initializerMention, member := name
        description :=
          "initializer mentions " ++ mention ++ ", which stays behind; copied verbatim" }

def privateStaticIssues (known : SignatureSet) (name : String) (field : Field) : List Issue :=
  let stillUsed := (c.properMethods.filter (!known.contains ·.signature)).any fun m =>
    (facts.accessesOf m).contains name
  if field.isStatic && field.modifiers.visibility = .classOnly && stillUsed then
    [{ kind := .privateStaticFieldUse, member := name
       description := "private static field is still used by the remaining class" }]
  else []

def fieldIssues (known : SignatureSet) (methods : List Method) (fields : List String)
    (name : String) : List Issue :=
  match c.field? name with
  | none => []
  | some field =>
    initializerIssues c methods fields name field ++ privateStaticIssues c facts known name field

def capIssue (newClass : String) (rounds : Nat) : Issue :=
  { kind := .repairCapExceeded, member := newClass
    description := "auto-repair did not settle within " ++ toString rounds ++ " iterations" }

/-- Decides on a candidate, with at most so many rounds to complete it. -/
def decide (rounds : Nat) (candidate : Candidate) : Plan :=
  let repaired := (Selection.ofRequest candidate.methods).repair c facts [] rounds
  let known := repaired.selection.known
  let methods := Selection.resolve c repaired.selection.methods
  let requested := distinctOn id candidate.fields
  let additions := if repaired.settled then staticAdditions c facts methods requested else []
  let fields := requested ++ additions.map Prod.fst
  let issues :=
    repaired.issues
      ++ (if repaired.settled then [] else [capIssue candidate.newClass rounds])
      ++ methods.flatMap (abstractIssues c facts known)
      ++ methods.flatMap (methodTypeIssues c facts)
      ++ requested.flatMap (fieldTypeIssues c)
      ++ additions.map staticIssue
      ++ (if repaired.settled then
          methods.flatMap (accessIssues c facts known fields)
            ++ fields.flatMap (fieldIssues c facts known methods fields)
        else [])
  if issues.any (·.isBlocking) then .rejected (issues.filter (·.isBlocking))
  else .approved fields repaired.selection.methods issues

end Verdict

end ClassSplit
