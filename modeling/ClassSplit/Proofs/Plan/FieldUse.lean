import ClassSplit.Proofs.Model.Facts
import ClassSplit.Proofs.Plan.Verdict

/-!
The fields that the methods of an approved plan use. A static field moves with the methods that use
it; an instance field that stays behind is reported with every method that uses it. Main statement:
`accountsFor_of_decide`.
-/

namespace ClassSplit

open Java

namespace Verdict

open Selection

variable {c : ClassModel} {facts : Facts} {rounds : Nat} {candidate : Candidate}
  {fields methods : List String} {issues : List Issue} {m : Method} {f : Field}

-- The issue with a method that uses an instance field that stays.
def remainingAccess (m : Method) (name : String) : Issue :=
  { kind := .remainingFieldAccess, member := m.signature
    description := "accesses instance field " ++ name ++ ", which stays behind" }

-- What a plan does about a field that a method uses.
structure AccountsFor (fields : List String) (issues : List Issue) (m : Method) (f : Field) :
    Prop where
  moves_of_isStatic : f.isStatic = true → f.name ∈ fields
  moves_or_reported : f.isStatic = false → f.name ∈ fields ∨ remainingAccess m f.name ∈ issues

theorem mem_accessIssues {known : SignatureSet} (hfield : c.field? f.name = some f)
    (hinstance : f.isStatic = false) (haccess : f.name ∈ facts.accessesOf m)
    (hstays : f.name ∉ fields) : remainingAccess m f.name ∈ accessIssues c facts known fields m := by
  refine List.mem_append_left _ (List.mem_map.mpr ⟨f.name, ?_, rfl⟩)
  exact List.mem_filter.mpr ⟨haccess, by simp [hfield, hinstance, hstays]⟩

-- What the facts know to be used is accounted for.
theorem accountsFor_of_mem_accessesOf
    (h : decide c facts rounds candidate = .approved fields methods issues)
    (hm : m ∈ resolve c methods) (hfield : c.field? f.name = some f)
    (haccess : f.name ∈ facts.accessesOf m) : AccountsFor fields issues m f := by
  obtain ⟨added, s, hbacking⟩ := backing_of_decide h
  constructor
  case moves_of_isStatic =>
    intro hstatic
    rw [hbacking.fields_eq, List.mem_append, mem_map_staticAdditions, List.mem_eraseDups]
    by_cases hrequested : f.name ∈ candidate.fields
    case pos => exact .inl hrequested
    case neg => exact .inr ⟨hrequested, ⟨f, hfield, hstatic⟩, m, hm, haccess⟩
  case moves_or_reported =>
    intro hinstance
    by_cases hmoves : f.name ∈ fields
    case pos => exact .inl hmoves
    case neg =>
      have hissue : remainingAccess m f.name ∈ accessIssues c facts s.known fields m :=
        mem_accessIssues hfield hinstance haccess hmoves
      have hremark := List.mem_append_left
        (fields.flatMap (fieldIssues c facts s.known (resolve c methods) fields))
        (List.mem_flatMap.mpr ⟨m, hm, hissue⟩)
      rw [hbacking.issues_eq]
      exact .inr (List.mem_append_right _ (List.mem_append_right _ hremark))

section

variable {source : String} {wanted : Option String} {s : JavaSource}

theorem accountsFor_of_decide (hparse : JavaSource.parse source wanted = .ok s)
    (hdistinct : (s.model.properMethods.map (·.signature)).Nodup)
    (h : decide s.model s.facts rounds candidate = .approved fields methods issues)
    (hm : m ∈ resolve s.model methods) :
    ∃ declaration, s.member? m.span = some declaration ∧
      ∀ site ∈ declaration.preorder, ∀ reference, s.fieldReference? site = some reference →
        AccountsFor fields issues m reference.field := by
  have hproper := mem_properMethods_of_mem_resolve hm
  obtain ⟨declaration, hdeclaration⟩ :=
    JavaSource.exists_declaration_of_parse hparse (List.mem_filter.mp hproper).left
  refine ⟨declaration, hdeclaration, ?_⟩
  intro site hsite reference hreference
  refine accountsFor_of_mem_accessesOf h hm (JavaSource.field?_of_fieldReference? hreference) ?_
  exact (JavaSource.mem_accessesOf_facts hdistinct hproper hdeclaration).mpr
    ⟨site, hsite, reference, hreference, rfl⟩

end

-- A method that copies an instance field that stays to a static field.
def copyingSource : String := "class A\x7bstatic int n;int k;void m()\x7bn=k;\x7d\x7d"

def copyingCandidate : Candidate := ⟨"B", [], ["m()"]⟩

theorem accountsFor_of_decide_copying : ∃ s issues, ∃ m ∈ resolve s.model ["m()"],
    JavaSource.parse copyingSource none = .ok s ∧
      (s.model.properMethods.map (·.signature)).Nodup ∧
        decide s.model s.facts 10 copyingCandidate = .approved ["n"] ["m()"] issues ∧
          ∃ declaration, s.member? m.span = some declaration ∧
            ∀ site ∈ declaration.preorder, ∀ reference, s.fieldReference? site = some reference →
              AccountsFor ["n"] issues m reference.field := by
  obtain ⟨s, hparse, hcheck⟩ := JavaSource.exists_parse_of_check copyingSource
    (fun s => Decidable.decide ((s.model.properMethods.map Method.signature).Nodup ∧
      resolve s.model ["m()"] ≠ [] ∧
        decide s.model s.facts 10 copyingCandidate = .approved ["n"] ["m()"]
          (decide s.model s.facts 10 copyingCandidate).issues))
    (by decide +kernel)
  obtain ⟨hdistinct, hresolve, hdecide⟩ := of_decide_eq_true hcheck
  obtain ⟨m, hm⟩ := List.exists_mem_of_ne_nil _ hresolve
  exact ⟨s, _, m, hm, hparse, hdistinct, hdecide, accountsFor_of_decide hparse hdistinct hdecide hm⟩

end Verdict

end ClassSplit
