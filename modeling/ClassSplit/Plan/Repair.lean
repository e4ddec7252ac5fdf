import ClassSplit.Model.Facts
import ClassSplit.Plan.Issue
import ClassSplit.Signature.Collection

/-!
Completing a selection of methods. A private method can be called only from its own class, so it
has to move with every method that calls it. The selection grows in rounds until nothing is
missing, or until a limit on the rounds is reached.
-/

namespace ClassSplit

/-- The elements whose key has not occurred before. -/
def distinctOn {α κ : Type} [DecidableEq κ] (key : α → κ) : List α → List α
  | [] => []
  | x :: xs => x :: (distinctOn key xs).filter fun y => key y ≠ key x

theorem mem_of_mem_distinctOn {α κ : Type} [DecidableEq κ] {key : α → κ} {x : α} {xs : List α}
    (h : x ∈ distinctOn key xs) : x ∈ xs := by
  induction xs with
  | nil => exact h
  | cons y ys ih =>
    cases List.mem_cons.1 h
    case inl h => exact h ▸ List.mem_cons_self
    case inr h => exact List.mem_cons_of_mem _ (ih (List.mem_filter.1 h).1)

-- Every key survives.
theorem exists_mem_distinctOn {α κ : Type} [DecidableEq κ] {key : α → κ} {x : α} {xs : List α}
    (h : x ∈ xs) : ∃ y ∈ distinctOn key xs, key y = key x := by
  induction xs with
  | nil => cases h
  | cons y ys ih =>
    by_cases hk : key y = key x
    · exact ⟨y, List.mem_cons_self, hk⟩
    · cases List.mem_cons.1 h
      case inl h => exact absurd (h ▸ rfl) hk
      case inr h =>
        have ⟨z, hz, hzx⟩ := ih h
        refine ⟨z, List.mem_cons_of_mem _ (List.mem_filter.2 ⟨hz, ?_⟩), hzx⟩
        simpa [hzx] using Ne.symm hk

/-- The methods that are selected, as they were written, and all their spellings. -/
structure Selection where
  methods : List String
  known : SignatureSet

namespace Selection

/-- The selection that was asked for; a text that is repeated counts once. -/
def ofRequest (methods : List String) : Selection :=
  ⟨distinctOn id methods, SignatureSet.ofList methods⟩

def add (s : Selection) (signature : String) : Selection :=
  ⟨s.methods ++ [signature], s.known.insert signature⟩

variable (c : ClassModel) (facts : Facts)

/-- The declarations that the selected texts denote, each once. -/
def resolve (methods : List String) : List Method :=
  distinctOn (·.span) (methods.filterMap c.findMethod?)

/-- The private methods that a method calls and that are not selected, with that method. -/
def missingCallees (s : Selection) (m : Method) : List (String × String) :=
  (facts.callsOf m).toList.flatMap fun callee =>
    ((c.methodsNamed callee).filter fun target =>
        target.isPrivate && !s.known.contains target.signature).map fun target =>
      (target.signature, m.signature)

/-- What one round adds: the signatures that are missing, each with the first method that needs
it. -/
def missing (s : Selection) : List (String × String) :=
  distinctOn Prod.fst ((resolve c s.methods).flatMap (s.missingCallees c facts))

def inclusionIssue (addition : String × String) : Issue :=
  { kind := .privateMethodIncluded, member := addition.1
    description := "private method called by " ++ addition.2 ++ " moves with it" }

/-- The selection after the rounds, the issues that they raise, and whether nothing is missing in
the end. -/
structure Repaired where
  selection : Selection
  issues : List Issue
  settled : Bool

/-- Completes a selection in at most so many rounds. The last round only finds that nothing is
missing. -/
def repair (s : Selection) (issues : List Issue) : Nat → Repaired
  | 0 => ⟨s, issues, false⟩
  | rounds + 1 =>
    match s.missing c facts with
    | [] => ⟨s, issues, true⟩
    | additions =>
      repair ((additions.map Prod.fst).foldl add s) (issues ++ additions.map inclusionIssue)
        rounds

end Selection

end ClassSplit
