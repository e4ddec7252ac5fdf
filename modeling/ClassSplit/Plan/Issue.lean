import ClassSplit.Datum.Decode

/-!
What is noticed about a proposed set of members. An issue either blocks the extraction or only
informs about it, and its kind alone decides which.
-/

namespace ClassSplit

inductive IssueKind where
  | abstractCall
  | innerTypeReference
  | otherInstanceReference
  | repairCapExceeded
  | privateMethodIncluded
  | staticFieldIncluded
  | remainingFieldAccess
  | unqualifiableCall
  | initializerMention
  | privateStaticFieldUse
  deriving DecidableEq

inductive Severity where
  | blocking
  | informational
  deriving DecidableEq

namespace IssueKind

def severity : IssueKind → Severity
  | abstractCall | innerTypeReference | otherInstanceReference | repairCapExceeded => .blocking
  | privateMethodIncluded | staticFieldIncluded | remainingFieldAccess | unqualifiableCall
  | initializerMention | privateStaticFieldUse => .informational

def variants : List (String × IssueKind) :=
  [("BlockedAbstractCall", abstractCall), ("BlockedInnerTypeRef", innerTypeReference),
    ("BlockedCrossInstanceFieldRef", otherInstanceReference),
    ("RepairCapExceeded", repairCapExceeded),
    ("AutoIncludedPrivateMethod", privateMethodIncluded),
    ("AutoIncludedStaticField", staticFieldIncluded),
    ("RemainingInstanceFieldAccess", remainingFieldAccess),
    ("UnqualifiableCallBack", unqualifiableCall),
    ("InitializerReferencesRemainingMember", initializerMention),
    ("PrivateStaticFieldAccess", privateStaticFieldUse)]

def label : IssueKind → String
  | abstractCall => "BlockedAbstractCall"
  | innerTypeReference => "BlockedInnerTypeRef"
  | otherInstanceReference => "BlockedCrossInstanceFieldRef"
  | repairCapExceeded => "RepairCapExceeded"
  | privateMethodIncluded => "AutoIncludedPrivateMethod"
  | staticFieldIncluded => "AutoIncludedStaticField"
  | remainingFieldAccess => "RemainingInstanceFieldAccess"
  | unqualifiableCall => "UnqualifiableCallBack"
  | initializerMention => "InitializerReferencesRemainingMember"
  | privateStaticFieldUse => "PrivateStaticFieldAccess"

def ofDatum : Datum.Decoder IssueKind := Datum.asVariant .json variants

end IssueKind

def Severity.label : Severity → String
  | .blocking => "blocking"
  | .informational => "informational"

structure Issue where
  kind : IssueKind
  /-- The field or the signature of the method that the issue is about. -/
  member : String
  description : String
  deriving DecidableEq

namespace Issue

def severity (i : Issue) : Severity := i.kind.severity

def isBlocking (i : Issue) : Bool := i.severity = .blocking

def text (i : Issue) : String := i.kind.label ++ " (" ++ i.member ++ "): " ++ i.description

def toDatum (i : Issue) : Datum :=
  .object
    [("kind", .string i.kind.label), ("severity", .string i.severity.label),
      ("member", .string i.member), ("description", .string i.description)]

end Issue

end ClassSplit
