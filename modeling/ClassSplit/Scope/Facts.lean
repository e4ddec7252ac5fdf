import ClassSplit.Model.Facts
import ClassSplit.Scope.Reference

/-!
The facts about the methods of a class, read off its source.
-/

namespace ClassSplit

open Java

namespace JavaSource

variable (s : JavaSource)

/-- The methods called on the class itself below a site. -/
def callsBelow (site : Site) : NameSet := .ofList (site.preorder.filterMap s.memberCall?)

/-- The fields of the class that are referred to below a site. -/
def accessesBelow (site : Site) : NameSet :=
  .ofList (site.preorder.filterMap fun n => (s.fieldReference? n).map (·.field.name))

/-- The type names below a site. -/
def typesBelow (site : Site) : NameSet :=
  .ofList ((site.preorder.filter (·.kind = .typeIdentifier)).map fun n => s.spelling n.node)

/-- The methods of the class with their declarations. -/
def methodSites : List (Method × Site) :=
  s.model.properMethods.filterMap fun m => (s.member? m.span).map fun site => (m, site)

def facts : Facts :=
  let table (names : Site → NameSet) : FactTable :=
    .ofList (s.methodSites.map fun (m, site) => (m.signature, names site))
  { calls := table s.callsBelow, accesses := table s.accessesBelow, types := table s.typesBelow }

end JavaSource

end ClassSplit
