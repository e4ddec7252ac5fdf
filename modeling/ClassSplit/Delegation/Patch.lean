import ClassSplit.Delegation.Reference
import ClassSplit.Delegation.Removal

/-!
The patch of the class that stays, and its text after it.
-/

namespace ClassSplit

namespace Delegation

variable (d : Delegation)

/-- The replacements in the order in which they are found: bodies of moved methods, declarations of
moved fields, the helper field, references. -/
def patch : Except ExtractionError Patch := do
  let stubs ← d.methods.mapM d.stub
  let removals ← d.fieldRemovals
  let references ← d.referenceReplacements (stubs.map (·.span) ++ removals.gone)
  .ok ⟨stubs ++ removals.replacements ++ (d.helper.map d.helperInsertion).toList ++ references⟩

/-- The text of the source after the patch. -/
def patchedSource : Except ExtractionError String := do
  let patch ← d.patch
  (patch.apply (String.ofList d.source.text)).mapError .splice

end Delegation

end ClassSplit
