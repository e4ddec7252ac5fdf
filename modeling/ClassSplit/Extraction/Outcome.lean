import ClassSplit.Plan.Issue

/-!
The answer to a request: both texts, or the reason why there are none.
-/

namespace ClassSplit

/-- What an extraction produces. -/
structure Extracted where
  newSource : String
  oldSource : String
  /-- The path of the file for the new class. -/
  newPath : String

structure Outcome where
  message : String
  result : Option Extracted
  /-- The issues that block the extraction, or those that are worth knowing after it. -/
  issues : List Issue

namespace Outcome

def failed (message : String) (issues : List Issue) : Outcome := ⟨message, none, issues⟩

def isSuccess (o : Outcome) : Bool := o.result.isSome

/-- The refusal to move members, for some issues. -/
def refusal (className : String) (issues : List Issue) : Outcome :=
  failed
    ("cannot extract from " ++ className ++ ": " ++ "; ".intercalate (issues.map Issue.text))
    issues

def resultEntries (r : Extracted) : List (String × Datum) :=
  [("newClassSource", .string r.newSource), ("modifiedOriginalSource", .string r.oldSource),
    ("newClassPath", .string r.newPath)]

def toDatum (o : Outcome) : Datum :=
  .object
    ([("success", .bool o.isSuccess), ("message", .string o.message)]
      ++ (o.result.map resultEntries).getD []
      ++ (if o.issues.isEmpty then []
        else [("issues", .array (o.issues.map Issue.toDatum))]))

end Outcome

end ClassSplit
