import ClassSplit.Delegation.Patch
import ClassSplit.Extraction.NewSource
import ClassSplit.Extraction.Outcome
import ClassSplit.Extraction.Request
import ClassSplit.Java.Name
import ClassSplit.Path
import ClassSplit.Plan.OtherInstance
import ClassSplit.Scope.Facts
import ClassSplit.Settings.Basic
import ClassSplit.Text.Words

/-!
The extraction of a class: the decision on the request, the source of the new class and the source
of the old one after its patch.
-/

namespace ClassSplit

namespace Extraction

/-- The source of a request, with the class that has the name of the file as its primary class. -/
def parseFor (r : Request) (source : String) : Except JavaSource.ParseError JavaSource :=
  JavaSource.parse source (Path.stem? r.path)

/-- The plan for a request. Facts that are not given are read off the source. -/
def planFor (settings : Settings) (r : Request) (facts : Option Facts) (s : JavaSource) : Plan :=
  Verdict.decide s.model (facts.getD s.facts) settings.repairRounds r.candidate

def plan (settings : Settings) (r : Request) (facts : Option Facts) (source : String) :
    Except JavaSource.ParseError Plan :=
  (parseFor r source).map (planFor settings r facts)

/-- The fields with some names in the order of declaration. -/
def resolveFields (c : ClassModel) (names : List String) : Except ExtractionError (List Field) := do
  let fields ← names.mapM fun name =>
    match c.field? name with
    | some f => .ok f
    | none => .error (.memberNotFound c.name name)
  .ok (fields.mergeSort fun f g => f.declarator.start ≤ g.declarator.start)

/-- The methods with some signatures in the order of declaration, each once. -/
def resolveMethods (c : ClassModel) (signatures : List String) :
    Except ExtractionError (List Method) := do
  let methods ← signatures.mapM fun signature =>
    match c.findMethod? signature with
    | some m => .ok m
    | none =>
      .error
        (if (c.findConstructor? signature).isSome then .constructor signature
        else .memberNotFound c.name signature)
  .ok ((distinctOn (·.span) methods).mergeSort fun m n => m.span.start ≤ n.span.start)

/-- The names that the helper field must not have: those that occur in the class. -/
def namesInUse (s : JavaSource) : List String :=
  (Text.identifiers (Text.slice s.text s.model.span)).map String.ofList
    ++ s.model.fields.map (·.name)

/-- The names to try for the helper field in order. -/
def helperCandidate (base : String) : Nat → String
  | 0 => base
  | n + 1 => base ++ toString (n + 2)

/-- The name of the helper field: the one that is set or that of the class, with a number behind it
if it is in use or cannot be declared. -/
def helperName (settings : Settings) (s : JavaSource) (newClass : String) : String :=
  let base := settings.helperName.getD (String.ofList (Text.decapitalize newClass.toList))
  let used := namesInUse s
  let isTaken (name : String) : Bool := used.contains name || !Java.isDeclarable name
  firstFree isTaken (helperCandidate base) (used.length + Java.reservedWords.length) 0

/-- The path of the new file, next to the old one. -/
def newPath (settings : Settings) (path newClass : String) : String :=
  let extension := (settings.extension.or (Path.extension? path)).getD "java"
  let name := newClass ++ "." ++ extension
  match Path.parent? path with
  | some directory => Path.join directory name
  | none => name

/-- Fails if a text does not follow the grammar. -/
def checked (which : GeneratedText) (text : String) : Except ExtractionError Unit :=
  if (Java.tree? text.toList).isSome then .ok () else .error (.malformedResult which)

/-- Moves members that have been approved. -/
def carryOut (settings : Settings) (r : Request) (s : JavaSource) (fields : List Field)
    (methods : List Method) (issues : List Issue) : Except ExtractionError Outcome := do
  let needsHelper := methods.any (!·.isStatic) || fields.any (!·.isStatic)
  let helper := if needsHelper then some (helperName settings s r.newClass) else none
  let movedFields := MovedField.ofFields s.text methods settings.indent [] fields
  let movedMethods ← (Relocation.mk s r.newClass methods (fields.map (·.name))).moveMethods
  let delegation : Delegation :=
    { source := s, newClass := r.newClass, helper, methods
      fields := Delegation.fieldsOfList (movedFields.map fun f => ⟨f.field, f.accessors⟩)
      indent := settings.indent }
  let oldSource ← delegation.patchedSource
  let newSource :=
    NewClass.source
      { name := r.newClass, origin := s.model, fields := movedFields, methods := movedMethods
        indent := settings.indent }
  checked .newClass newSource
  checked .oldClass oldSource
  .ok
    { message :=
        "extracted " ++ toString fields.length ++ " field(s) and " ++ toString methods.length
          ++ " method(s) from " ++ s.model.name ++ " into " ++ r.newClass
      result := some { newSource, oldSource, newPath := newPath settings r.path r.newClass }
      issues }

/-- Decides on a request for a source and carries it out. -/
def attempt (settings : Settings) (r : Request) (facts : Option Facts) (s : JavaSource) :
    Except ExtractionError Outcome := do
  let c := s.model
  if r.newClass = c.name ∨ (c.nestedType? r.newClass).isSome then
    .ok (.failed ("`" ++ r.newClass ++ "` clashes with a type declared in " ++ c.name) [])
  else
    match planFor settings r facts s with
    | .rejected issues => .ok (.refusal c.name issues)
    | .approved fieldNames signatures issues => do
      let fields ← resolveFields c fieldNames
      let methods ← resolveMethods c signatures
      let instanceNames := (fields.filter (!·.isStatic)).map (·.name)
      match s.otherInstanceIssues instanceNames with
      | [] => carryOut settings r s fields methods issues
      | blocking => .ok (.refusal c.name blocking)

/-- Answers a request. A source that cannot be read or that has an unsupported construct is a failed
outcome; an error means that the request does not fit the class. -/
def extract (settings : Settings) (r : Request) (facts : Option Facts) (source : String) :
    Except ExtractionError Outcome :=
  if !Java.isDeclarable r.newClass then
    .ok (.failed ("`" ++ r.newClass ++ "` is not a valid class name") [])
  else
    match parseFor r source with
    | .error e => .ok (.failed ("failed to parse " ++ r.path ++ ": " ++ e.message) [])
    | .ok s =>
      match attempt settings r facts s with
      | .error e => if e.isUnsupported then .ok (.failed e.message []) else .error e
      | .ok outcome => .ok outcome

end Extraction

end ClassSplit
