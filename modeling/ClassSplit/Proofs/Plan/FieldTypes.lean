import ClassSplit.Proofs.Plan.Verdict

/-!
The types of the fields that an approved plan moves. The fields that are asked for have types that a
new class can name; a static field is taken along with the methods that use it whatever its type is.
Main statement: `exposed_iff_of_decide`.
-/

namespace ClassSplit

namespace Verdict

open Selection

variable {c : ClassModel} {facts : Facts} {rounds : Nat} {candidate : Candidate}
  {fields methods : List String} {issues : List Issue} {name : String}

-- The declared type of a field mentions a type that is private to the class.
def Exposed (c : ClassModel) (name : String) : Prop :=
  ∃ f, c.field? name = some f ∧ ∃ type ∈ words f.type, c.isPrivateNestedType type = true

instance (c : ClassModel) (name : String) : Decidable (Exposed c name) :=
  decidable_of_iff ((c.field? name).any fun f => (words f.type).any c.isPrivateNestedType) <| by
    simp [Exposed, Option.any_eq_true]

theorem fieldTypeIssues_eq_nil : fieldTypeIssues c name = [] ↔ ¬Exposed c name := by
  cases hfield : c.field? name with
  | none => simp [fieldTypeIssues, Exposed, hfield]
  | some f => simp [fieldTypeIssues, Exposed, hfield]

theorem not_exposed_of_blockers_eq_nil {known : SignatureSet} {methods : List Method}
    (h : blockers c facts known methods fields = []) (hname : name ∈ fields) :
    ¬Exposed c name := by
  rw [blockers, List.append_eq_nil_iff] at h
  exact fieldTypeIssues_eq_nil.mp (List.flatMap_eq_nil_iff.mp h.right name hname)

-- A static field that an approved method uses.
def UsedStatic (c : ClassModel) (facts : Facts) (methods : List String) (name : String) : Prop :=
  (∃ f, c.field? name = some f ∧ f.isStatic = true) ∧
    ∃ m ∈ resolve c methods, name ∈ facts.accessesOf m

theorem exposed_iff_of_decide (h : decide c facts rounds candidate = .approved fields methods issues)
    (name : String) :
    name ∈ fields ∧ Exposed c name ↔
      name ∉ candidate.fields ∧ UsedStatic c facts methods name ∧ Exposed c name := by
  obtain ⟨added, s, hbacking⟩ := backing_of_decide h
  have hrequested : name ∈ candidate.fields.eraseDups → ¬Exposed c name :=
    not_exposed_of_blockers_eq_nil hbacking.unblocked
  rw [hbacking.fields_eq, List.mem_append, mem_map_staticAdditions, UsedStatic]
  rw [List.mem_eraseDups] at hrequested ⊢
  constructor
  case mp =>
    rintro ⟨hasked | ⟨hnew, hused⟩, hexposed⟩
    · exact absurd hexposed (hrequested hasked)
    · exact ⟨hnew, hused, hexposed⟩
  case mpr =>
    rintro ⟨hnew, hused, hexposed⟩
    exact ⟨.inr ⟨hnew, hused⟩, hexposed⟩

-- A static field of a private type.
def secretSource : String :=
  "class A\x7bprivate static class T\x7b\x7dprivate static T s;void m()\x7bs=null;\x7d\x7d"

theorem exists_secret : ∃ s, JavaSource.parse secretSource none = .ok s ∧
    decide s.model s.facts 10 ⟨"B", [], ["m()"]⟩ =
        .approved ["s"] ["m()"] [staticIssue ("s", "m()")] ∧
      decide s.model s.facts 10 ⟨"B", ["s"], ["m()"]⟩ = .rejected (fieldTypeIssues s.model "s") ∧
        Exposed s.model "s" := by
  obtain ⟨s, hparse, hcheck⟩ := JavaSource.exists_parse_of_check secretSource
    (fun s => Decidable.decide (
      decide s.model s.facts 10 ⟨"B", [], ["m()"]⟩ =
          .approved ["s"] ["m()"] [staticIssue ("s", "m()")] ∧
        decide s.model s.facts 10 ⟨"B", ["s"], ["m()"]⟩ = .rejected (fieldTypeIssues s.model "s") ∧
          Exposed s.model "s"))
    (by decide +kernel)
  exact ⟨s, hparse, of_decide_eq_true hcheck⟩

theorem exposed_iff_of_decide_secret : ∃ s, JavaSource.parse secretSource none = .ok s ∧
    decide s.model s.facts 10 ⟨"B", [], ["m()"]⟩ =
        .approved ["s"] ["m()"] [staticIssue ("s", "m()")] ∧
      UsedStatic s.model s.facts ["m()"] "s" ∧ Exposed s.model "s" := by
  obtain ⟨s, hparse, hdecide, -, hexposed⟩ := exists_secret
  have hiff := exposed_iff_of_decide hdecide "s"
  exact ⟨s, hparse, hdecide, (hiff.mp ⟨List.mem_singleton_self _, hexposed⟩).right⟩

-- The same field is refused when it is asked for.
theorem not_forall_not_exposed :
    ¬∀ (c : ClassModel) (facts : Facts) (rounds : Nat) (candidate : Candidate)
      (fields methods : List String) (issues : List Issue),
        decide c facts rounds candidate = .approved fields methods issues →
          ∀ name ∈ fields, ¬Exposed c name := by
  intro h
  obtain ⟨s, -, hdecide, -, hexposed⟩ := exists_secret
  exact h s.model s.facts 10 ⟨"B", [], ["m()"]⟩ ["s"] ["m()"] _ hdecide "s"
    (List.mem_singleton_self _) hexposed

end Verdict

end ClassSplit
