import ClassSplit.Extraction.Error
import ClassSplit.Scope.Reference
import ClassSplit.Text.Layout

/-!
Methods of the new class. A method moves as it is written, apart from a few tokens: it stops being
private, its calls to methods that stay go through the old class's name, and the old class's name in
front of a field that moves becomes the new one.
-/

namespace ClassSplit

open Java

/-- What is to happen to the token of a kind at a place; without a text it is removed. -/
structure TokenEdit where
  origin : Span
  kind : Kind
  text : Option String
  deriving DecidableEq

/-- Carries an edit out on the tree with a root. -/
def TokenEdit.apply (root : Nat) (e : TokenEdit) : Arena.Step Unit := do
  match (← EStateM.get).findByOrigin? root e.origin e.kind.name, e.text with
  | none, _ => pure ()
  | some id, some text => Arena.setText id text
  | some id, none => Arena.remove id

/-- Copies a tree of an arena into the arena at hand and carries edits out on the copy. -/
def TokenEdit.applyToCopy (original : Arena) (root : Nat) (edits : List TokenEdit) :
    Arena.Step Nat := do
  let copy ← Arena.clone original root
  forM edits (·.apply copy)
  pure copy

/-- A method as the new class declares it, at the left margin. -/
structure MovedMethod where
  signature : String
  source : String
  deriving DecidableEq

/-- What moves to which class. -/
structure Relocation where
  source : JavaSource
  newClass : String
  methods : List Method
  /-- The names of the fields that move; some may not exist. -/
  fields : List String

namespace Relocation

variable (r : Relocation)

/-- Removes the word `private`. -/
def privacyEdits (m : Method) (declaration : Site) : List TokenEdit :=
  match JavaSource.modifiersNode? declaration.node with
  | none => []
  | some mods =>
    if m.isPrivate then
      (mods.children.filter (·.kind = .token "private")).map fun word =>
        ⟨word.span, .token "private", none⟩
    else []

/-- Whether a method moves. -/
def moves (m : Method) : Bool := r.methods.any (·.span = m.span)

/-- Whether a call of a method of the old class goes to a method that stays. Overloads are told
apart by the number of arguments. If some of those that fit move and some stay, the call can stay in
the old class only if all are static, because then the old class keeps all of them. -/
def goesBack (callee : String) (call declaration : Site) : Except ExtractionError Bool :=
  if (r.source.shadowingBodies declaration callee).any (·.covers call.span) then .ok false
  else
    let fitting := (r.source.model.methodsNamed callee).filter
      (·.acceptsArity (argumentCount call.node))
    if fitting.all r.moves then .ok false
    else if !fitting.any r.moves || fitting.all (·.isStatic) then .ok true
    else
      .error (.unsupported (Text.lineNumber r.source.text call.span.start)
        ("call to `" ++ callee ++ "` may target either a moved or a remaining overload"))

/-- Puts the name of the old class in front of a call, or in the place of `this`. -/
def qualify? (call : Site) (callee : String) : Option TokenEdit :=
  let className := r.source.model.name
  match call.child? .object with
  | some this => some ⟨this.span, .thisWord, some className⟩
  | none =>
    (call.child? .name).map fun name =>
      ⟨name.span, .identifier, some (className ++ "." ++ callee)⟩

/-- The name of the old class in a reference to a field. -/
def qualifier? (reference : FieldReference) : Option Site :=
  let object := reference.site.child? .object
  let named : Option Site :=
    match reference.form with
    | .classQualified => object
    | .this => (object.filter (·.kind = .fieldAccess)).bind (·.child? .object)
    | .bare => none
  named.filter (·.kind = .identifier)

/-- The edits that a node of a moved declaration asks for. -/
def siteEdits (declaration site : Site) : Except ExtractionError (List TokenEdit) :=
  match r.source.memberCall? site with
  | some callee => do
    if ← r.goesBack callee site declaration then .ok (r.qualify? site callee).toList else .ok []
  | none =>
    match r.source.fieldReference? site with
    | none => .ok []
    | some reference =>
      if r.fields.contains reference.field.name then
        .ok ((qualifier? reference).map fun name =>
          ⟨name.span, .identifier, some r.newClass⟩).toList
      else .ok []

def tokenEdits (m : Method) (declaration : Site) : Except ExtractionError (List TokenEdit) := do
  let edits ← declaration.preorder.mapM (r.siteEdits declaration)
  .ok (privacyEdits m declaration ++ edits.flatten)

/-- The declaration of a method with its edits, as one text. -/
def editedText (declaration : Site) (edits : List TokenEdit) : Except ArenaError String :=
  let (root, original) := Arena.empty.lower r.source.text declaration.node
  match (TokenEdit.applyToCopy original root edits).run Arena.empty with
  | .ok copy edited => edited.render copy
  | .error e _ => .error e

def moveMethod (m : Method) : Except ExtractionError MovedMethod := do
  let some declaration := r.source.member? m.span
    | .error (.memberNotFound r.source.model.name m.signature)
  let edits ← r.tokenEdits m declaration
  let text ← (r.editedText declaration edits).mapError .arena
  let indent := (Text.leadingIndent r.source.text m.span.start).getD []
  .ok ⟨m.signature, String.ofList (Text.dedentBlock (indent ++ text.toList))⟩

/-- The moved methods in the order in which they are given. -/
def moveMethods : Except ExtractionError (List MovedMethod) := r.methods.mapM r.moveMethod

end Relocation

end ClassSplit
