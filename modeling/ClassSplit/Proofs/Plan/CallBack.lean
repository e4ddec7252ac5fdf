import ClassSplit.NewClass.Method
import ClassSplit.Proofs.Model.Facts
import ClassSplit.Proofs.Model.Order
import ClassSplit.Proofs.Model.Signature
import ClassSplit.Proofs.Plan.Verdict

/-!
Calls from a new class back to the old one. A moved method calls a method that stays under the name
of the old class, which only works for a static method that is not private; all other such calls are
reported, provided that every private method of the class is found under its own signature. Main
statement: `callBack_mem_issues_of_decide`.
-/

namespace ClassSplit

open Java

namespace Relocation

variable {r : Relocation}

-- A call that is edited to go to the old class, in the declaration of a method.
structure Qualifies (r : Relocation) (m : Method) (site : Site) (callee : String) : Prop where
  memberCall? : r.source.memberCall? site = some callee
  exists_edit : ∃ declaration edit, r.source.member? m.span = some declaration ∧
    site ∈ declaration.preorder ∧ r.siteEdits declaration site = .ok [edit]

-- An overload that a call may mean, that stays and that the old class's name does not reach.
structure OutOfReach (r : Relocation) (site : Site) (callee : String) (t : Method) : Prop where
  named : t ∈ r.source.model.methodsNamed callee
  fits : t.acceptsArity (argumentCount site.node) = true
  stays : r.moves t = false
  unreachable : t.isStatic = false ∨ t.isPrivate = true

-- Whether some call in the declaration of a method is edited to go to the old class and may mean an
-- overload that is out of reach there.
def losesCall (r : Relocation) (m : Method) (callee : String) (t : Method) : Bool :=
  (r.source.member? m.span).any fun declaration => declaration.preorder.any fun site =>
    r.source.memberCall? site == some callee
      && (r.siteEdits declaration site).toOption.any (·.length = 1)
      && (t ∈ r.source.model.methodsNamed callee && t.acceptsArity (argumentCount site.node)
        && !r.moves t && (!t.isStatic || t.isPrivate))

theorem exists_of_losesCall {m t : Method} {callee : String}
    (h : r.losesCall m callee t = true) :
    ∃ site, r.Qualifies m site callee ∧ r.OutOfReach site callee t := by
  obtain ⟨declaration, hdeclaration, hsites⟩ := (Option.any_eq_true ..).mp h
  obtain ⟨site, hsite, hcheck⟩ := List.any_eq_true.mp hsites
  rw [Bool.and_eq_true, Bool.and_eq_true, beq_iff_eq] at hcheck
  obtain ⟨⟨hcall, hedits⟩, hreach⟩ := hcheck
  obtain ⟨edits, hok, hlength⟩ := (Option.any_eq_true ..).mp hedits
  obtain ⟨edit, rfl⟩ := List.length_eq_one_iff.mp (of_decide_eq_true hlength)
  refine ⟨site, ⟨hcall, declaration, edit, hdeclaration, hsite, ?_⟩, ?_⟩
  · cases hsiteEdits : r.siteEdits declaration site with
    | error e => rw [hsiteEdits] at hok; cases hok
    | ok edits => rw [hsiteEdits] at hok; cases hok; rfl
  · simp only [Bool.and_eq_true, decide_eq_true_eq, Bool.not_eq_true', Bool.or_eq_true] at hreach
    exact ⟨hreach.left.left.left, hreach.left.left.right, hreach.left.right, hreach.right⟩

end Relocation

namespace Verdict

open Selection Signature

variable {c : ClassModel} {facts : Facts} {rounds : Nat} {candidate : Candidate}
  {fields methods : List String} {issues : List Issue} {m t : Method} {callee : String}

-- The issue with a method that calls a method that stays.
def callBack (c : ClassModel) (m : Method) (callee : String) : Issue :=
  { kind := .unqualifiableCall, member := m.signature
    description :=
      "calls " ++ callee ++ ", which stays behind and is not reachable as " ++ c.name ++ "."
        ++ callee }

theorem callBack_mem_accessIssues {known : SignatureSet} (hcall : callee ∈ facts.callsOf m)
    (ht : t ∈ c.methodsNamed callee) (hunknown : known.contains t.signature = false)
    (hunreachable : t.isStatic = false ∨ t.isPrivate = true) :
    callBack c m callee ∈ accessIssues c facts known fields m := by
  refine List.mem_append_right _ (List.mem_map.mpr ⟨callee, List.mem_filter.mpr ⟨hcall, ?_⟩, rfl⟩)
  refine List.any_eq_true.mpr ⟨t, List.mem_filter.mpr ⟨ht, by simp [hunknown]⟩, ?_⟩
  simpa using hunreachable

-- The signatures of a class do not get its methods mixed up:
-- 1. each stands for its method
-- 2. no two methods match
-- 3. a private method is found under its signature
structure Findable (c : ClassModel) : Prop where
  denotes : ∀ m ∈ c.properMethods, ∃ y : Signature, y.Denotes m
  eq_of_match : ∀ m ∈ c.properMethods, ∀ n ∈ c.properMethods,
    signaturesMatch m.signature n.signature = true → m = n
  findMethod?_private : ∀ m ∈ c.properMethods, m.isPrivate = true →
    c.findMethod? m.signature = some m

-- A method whose signature is known has been selected.
theorem Findable.exists_of_contains {added : List (String × String)} {s : Selection}
    (hc : Findable c) (hs : Completion c facts candidate.methods added s)
    (hw : ∀ text ∈ candidate.methods, WellNested text) (ht : t ∈ c.properMethods)
    (h : s.known.contains t.signature = true) : ∃ n ∈ resolve c s.methods, n.span = t.span := by
  obtain ⟨u, hu, hmatch⟩ := (hs.run.consistent (consistent_ofRequest _)).exists_match h
  have hfound : c.findMethod? u = some t := by
    rw [hs.methods_eq, List.mem_append, List.mem_eraseDups] at hu
    cases hu with
    | inl hrequested =>
      exact ClassModel.findMethod?_of_match hc.denotes hc.eq_of_match (hw u hrequested) ht
        (signaturesMatch_comm u t.signature ▸ hmatch)
    | inr hadded =>
      obtain ⟨addition, haddition, rfl⟩ := List.mem_map.mp hadded
      obtain ⟨n, hn, hprivate, hsignature⟩ := hs.run.exists_private addition haddition
      rw [hsignature] at hmatch ⊢
      obtain rfl := hc.eq_of_match n hn t ht hmatch
      exact hc.findMethod?_private n hn hprivate
  exact exists_mem_distinctOn (List.mem_filterMap.mpr ⟨u, hu, hfound⟩)

section

variable {source : String} {wanted : Option String} {s : JavaSource} {r : Relocation} {site : Site}

theorem callBack_mem_issues_of_decide (hparse : JavaSource.parse source wanted = .ok s)
    (happart : ∀ m ∈ s.model.properMethods, ∀ n ∈ s.model.properMethods,
      signaturesMatch m.signature n.signature = true → m = n)
    (hfound : ∀ m ∈ s.model.properMethods, m.isPrivate = true →
      s.model.findMethod? m.signature = some m)
    (hw : ∀ text ∈ candidate.methods, WellNested text)
    (h : decide s.model s.facts rounds candidate = .approved fields methods issues)
    (hsource : r.source = s) (hmethods : ∀ m, m ∈ r.methods ↔ m ∈ resolve s.model methods)
    (hm : m ∈ r.methods) (hcall : r.Qualifies m site callee) (ht : r.OutOfReach site callee t) :
    callBack s.model m callee ∈ issues := by
  subst hsource
  obtain ⟨added, selection, hbacking⟩ := backing_of_decide h
  rw [hmethods, hbacking.methods_eq] at hm
  have hproper := mem_properMethods_of_mem_resolve hm
  have hfindable : Findable r.source.model :=
    ⟨fun m hm => JavaSource.exists_denotes_of_parse hparse hm, happart, hfound⟩
  have hdistinct : (r.source.model.properMethods.map (·.signature)).Nodup := by
    refine List.Nodup.map_on ?_ ((JavaSource.nodup_methods_of_parse hparse).filter _)
    intro m hm n hn heq
    exact happart m hm n hn (signaturesMatch_of_bareForm_eq (congrArg _ (congrArg _ heq)))
  obtain ⟨declaration, edit, hdeclaration, hsite, -⟩ := hcall.exists_edit
  have hcalled : callee ∈ r.source.facts.callsOf m :=
    (JavaSource.mem_callsOf_facts hdistinct hproper hdeclaration).mpr
      ⟨site, hsite, hcall.memberCall?⟩
  have hunknown : selection.known.contains t.signature = false := by
    by_contra hcontains
    rw [Bool.not_eq_false] at hcontains
    have htproper := (ClassModel.mem_methodsNamed.mp ht.named).left
    obtain ⟨n, hn, hspan⟩ :=
      hfindable.exists_of_contains hbacking.completion hw htproper hcontains
    have hmoves : r.moves t = true :=
      List.any_eq_true.mpr ⟨n, (hmethods n).mpr (hbacking.methods_eq ▸ hn), by simpa using hspan⟩
    rw [ht.stays] at hmoves
    cases hmoves
  rw [hbacking.issues_eq, hbacking.methods_eq]
  refine List.mem_append_right _ (List.mem_append_right _ (List.mem_append_left _ ?_))
  exact List.mem_flatMap.mpr
    ⟨m, hm, callBack_mem_accessIssues hcalled ht.named hunknown ht.unreachable⟩

end

-- The methods of a class that are selected, on their way to a new class.
def relocationOf (s : JavaSource) (methods : List String) : Relocation :=
  ⟨s, "Part", resolve s.model methods, []⟩

-- A method that calls an instance method that stays.
def callingSource : String := "class A\x7bvoid m()\x7bf(1);\x7dvoid f(int x)\x7b\x7d\x7d"

def callingCandidate : Candidate := ⟨"Part", [], ["m()"]⟩

theorem callBack_mem_issues_of_decide_calling : ∃ s issues, ∃ m ∈ resolve s.model ["m()"],
    JavaSource.parse callingSource none = .ok s ∧
      decide s.model s.facts 10 callingCandidate = .approved [] ["m()"] issues ∧
        callBack s.model m "f" ∈ issues := by
  obtain ⟨s, hparse, hcheck⟩ := JavaSource.exists_parse_of_check callingSource
    (fun s => Decidable.decide ((∀ m ∈ s.model.properMethods, ∀ n ∈ s.model.properMethods,
        signaturesMatch m.signature n.signature = true → m = n) ∧
      (∀ m ∈ s.model.properMethods, m.isPrivate = true →
        s.model.findMethod? m.signature = some m) ∧
      decide s.model s.facts 10 callingCandidate = .approved [] ["m()"]
        (decide s.model s.facts 10 callingCandidate).issues ∧
      ∃ m ∈ resolve s.model ["m()"], ∃ t ∈ s.model.properMethods,
        (relocationOf s ["m()"]).losesCall m "f" t = true))
    (by decide +kernel)
  obtain ⟨happart, hfound, hdecide, m, hm, t, -, hlost⟩ := of_decide_eq_true hcheck
  obtain ⟨site, hcall, ht⟩ := Relocation.exists_of_losesCall hlost
  have hw : ∀ text ∈ callingCandidate.methods, WellNested text := by decide +kernel
  exact ⟨s, _, m, hm, hparse, hdecide, callBack_mem_issues_of_decide hparse happart hfound hw
    hdecide rfl (fun _ => Iff.rfl) hm hcall ht⟩

-- A private method is called. Its canonical signature, in which a comment opens more brackets than
-- it closes, is another text once it has been read, and it denotes the other method.
def commentedSource : String :=
  "class A\x7bvoid m()\x7ba(new int[0]);\x7dprivate static void a(int/*,>(,<,*>*/[] x)\x7b\x7d"
    ++ "static void a(int/*,>,<,*/[][] x)\x7b\x7d\x7d"

theorem exists_lost_call : ∃ s methods issues, ∃ m ∈ resolve s.model methods, ∃ t site,
    JavaSource.parse commentedSource none = .ok s ∧
      (∀ m ∈ s.model.properMethods, ∀ n ∈ s.model.properMethods,
        signaturesMatch m.signature n.signature = true → m = n) ∧
      decide s.model s.facts 10 callingCandidate = .approved [] methods issues ∧
      (relocationOf s methods).Qualifies m site "a" ∧
      (relocationOf s methods).OutOfReach site "a" t ∧ callBack s.model m "a" ∉ issues := by
  obtain ⟨s, hparse, hcheck⟩ := JavaSource.exists_parse_of_check commentedSource
    (fun s => Decidable.decide ((∀ m ∈ s.model.properMethods, ∀ n ∈ s.model.properMethods,
        signaturesMatch m.signature n.signature = true → m = n) ∧
      decide s.model s.facts 10 callingCandidate = .approved [] ["m()", "a(int,>,<,*>)"]
        (decide s.model s.facts 10 callingCandidate).issues ∧
      ∃ m ∈ resolve s.model ["m()", "a(int,>,<,*>)"], ∃ t ∈ s.model.properMethods,
        (relocationOf s ["m()", "a(int,>,<,*>)"]).losesCall m "a" t = true ∧
          callBack s.model m "a" ∉ (decide s.model s.facts 10 callingCandidate).issues))
    (by decide +kernel)
  obtain ⟨happart, hdecide, m, hm, t, -, hlost, hsilent⟩ := of_decide_eq_true hcheck
  obtain ⟨site, hcall, ht⟩ := Relocation.exists_of_losesCall hlost
  exact ⟨s, _, _, m, hm, t, site, hparse, happart, hdecide, hcall, ht, hsilent⟩

theorem not_forall_callBack_mem_issues :
    ¬∀ (source : String) (s : JavaSource) (candidate : Candidate) (rounds : Nat)
      (fields methods : List String) (issues : List Issue) (m t : Method) (site : Site)
      (callee : String),
        JavaSource.parse source none = .ok s →
          (∀ m ∈ s.model.properMethods, ∀ n ∈ s.model.properMethods,
            signaturesMatch m.signature n.signature = true → m = n) →
          (∀ text ∈ candidate.methods, WellNested text) →
          decide s.model s.facts rounds candidate = .approved fields methods issues →
          m ∈ resolve s.model methods →
          (relocationOf s methods).Qualifies m site callee →
          (relocationOf s methods).OutOfReach site callee t →
            callBack s.model m callee ∈ issues := by
  intro h
  obtain ⟨s, methods, issues, m, hm, t, site, hparse, happart, hdecide, hcall, ht, hsilent⟩ :=
    exists_lost_call
  exact hsilent (h commentedSource s callingCandidate 10 [] methods issues m t site "a" hparse
    happart (by decide +kernel) hdecide hm hcall ht)

end Verdict

end ClassSplit
