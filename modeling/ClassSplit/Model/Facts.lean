import ClassSplit.Model.Basic
import ClassSplit.NameMap

/-!
What is known of the methods of a class: which methods each one calls, which fields it uses and
which types it mentions. The methods are known by their signatures, in any spelling.
-/

namespace ClassSplit

abbrev FactTable := NameMap NameSet

structure Facts where
  calls : FactTable
  accesses : FactTable
  types : FactTable

namespace Facts

def empty : Facts := ⟨.empty, .empty, .empty⟩

instance : Inhabited Facts := ⟨empty⟩

/-- The names under the method's signature. Its own canonical spelling goes first, then a key with
the same canonical form, then a key that has a spelling in common with it. -/
def namesOf (table : FactTable) (m : Method) : NameSet :=
  (((table.get? m.signature).or
      ((table.entries.find? (canonicalSignature ·.1 == m.signature)).map Prod.snd)).or
    ((table.entries.find? (signaturesMatch ·.1 m.signature)).map Prod.snd)).getD .empty

def callsOf (facts : Facts) (m : Method) : NameSet := namesOf facts.calls m

def accessesOf (facts : Facts) (m : Method) : NameSet := namesOf facts.accesses m

def typesOf (facts : Facts) (m : Method) : NameSet := namesOf facts.types m

end Facts

/-- The members that are proposed for a new class. -/
structure Candidate where
  newClass : String
  fields : List String
  methods : List String

end ClassSplit
