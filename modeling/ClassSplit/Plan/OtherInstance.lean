import ClassSplit.Plan.Issue
import ClassSplit.Scope.Reference
import ClassSplit.Text.Layout

/-!
Accesses to fields of another object of the class. A field that moves is reached through the helper
of its own object, so that these accesses cannot be expressed any more.
-/

namespace ClassSplit

open Java

namespace JavaSource

variable (s : JavaSource)

/-- The line on which a site begins. -/
def lineOf (site : Site) : Nat := Text.lineNumber s.text site.span.start

/-- The issue with a field access that goes to one of the fields in another object. -/
def otherInstanceIssue? (fields : List String) (site : Site) : Option Issue :=
  if site.kind ≠ .fieldAccess then none
  else do
    let object ← site.child? .object
    let name ← site.child? .field
    if fields.contains (s.textAt name) && s.isOtherInstance object then
      some
        { kind := .otherInstanceReference, member := s.textAt name
          description :=
            "`" ++ s.textAt site ++ "` at line " ++ toString (s.lineOf site)
              ++ " reads the field through another instance" }
    else none

/-- The issues with all accesses in the class that go to one of the fields in another object. -/
def otherInstanceIssues (fields : List String) : List Issue :=
  match s.classBody? with
  | none => []
  | some body => body.preorder.filterMap (s.otherInstanceIssue? fields)

end JavaSource

end ClassSplit
