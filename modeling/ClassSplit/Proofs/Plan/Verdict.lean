import ClassSplit.Plan.Verdict
import ClassSplit.Proofs.Plan.Repair
import ClassSplit.Scope.Facts

/-!
Deciding on a candidate. A decision that completes the selection of methods rejects the candidate
exactly for what a new class could not do, and approves it otherwise; what is approved is the
candidate with the private methods and the static fields that its methods need. Main statements:
`decide_of_settled`, `approval_of_decide`, `verdict_of_settled` and `exists_match_of_decide`.
-/

namespace ClassSplit

namespace Verdict

open Selection

variable {c : ClassModel} {facts : Facts} {rounds : Nat} {candidate : Candidate}
  {fields methods : List String} {issues : List Issue} {i : Issue}

-- What keeps a new class from having some methods and fields.
def blockers (c : ClassModel) (facts : Facts) (known : SignatureSet) (methods : List Method)
    (fields : List String) : List Issue :=
  methods.flatMap (abstractIssues c facts known) ++ methods.flatMap (methodTypeIssues c facts)
    ++ fields.flatMap (fieldTypeIssues c)

-- What changes for methods and fields that move.
def remarks (c : ClassModel) (facts : Facts) (known : SignatureSet) (methods : List Method)
    (fields : List String) : List Issue :=
  methods.flatMap (accessIssues c facts known fields)
    ++ fields.flatMap (fieldIssues c facts known methods fields)

theorem kind_of_mem_blockers {known : SignatureSet} {methods : List Method}
    (h : i ∈ blockers c facts known methods fields) :
    i.kind = .abstractCall ∨ i.kind = .innerTypeReference := by
  simp only [blockers, List.mem_append, List.mem_flatMap] at h
  obtain (⟨m, -, h⟩ | ⟨m, -, h⟩) | ⟨name, -, h⟩ := h
  · simp only [abstractIssues, List.mem_append, List.mem_map] at h
    obtain h | ⟨n, -, rfl⟩ := h
    · split at h
      · rw [List.mem_singleton.mp h]
        exact .inl rfl
      · cases h
    · exact .inl rfl
  · obtain ⟨type, -, rfl⟩ := List.mem_map.mp h
    exact .inr rfl
  · rw [fieldTypeIssues] at h
    split at h
    · cases h
    · obtain ⟨type, -, rfl⟩ := List.mem_map.mp h
      exact .inr rfl

theorem kind_of_mem_remarks {known : SignatureSet} {methods : List Method}
    (h : i ∈ remarks c facts known methods fields) :
    i.kind = .remainingFieldAccess ∨ i.kind = .unqualifiableCall ∨ i.kind = .initializerMention ∨
      i.kind = .privateStaticFieldUse := by
  simp only [remarks, List.mem_append, List.mem_flatMap] at h
  obtain ⟨m, -, h⟩ | ⟨name, -, h⟩ := h
  · simp only [accessIssues, List.mem_append, List.mem_map] at h
    obtain ⟨name, -, rfl⟩ | ⟨callee, -, rfl⟩ := h
    · exact .inl rfl
    · exact .inr (.inl rfl)
  · rw [fieldIssues] at h
    split at h
    · cases h
    rw [List.mem_append, initializerIssues, privateStaticIssues] at h
    obtain h | h := h
    · split at h
      · cases h
      · obtain ⟨mention, -, rfl⟩ := List.mem_map.mp h
        exact .inr (.inr (.inl rfl))
    · split at h
      · rw [List.mem_singleton.mp h]
        exact .inr (.inr (.inr rfl))
      · cases h

theorem isBlocking_of_mem_blockers {known : SignatureSet} {methods : List Method}
    (h : i ∈ blockers c facts known methods fields) : i.isBlocking = true := by
  rw [Issue.isBlocking, Issue.severity]
  cases kind_of_mem_blockers h with
  | inl hkind => rw [hkind]; rfl
  | inr hkind => rw [hkind]; rfl

theorem isBlocking_of_mem_remarks {known : SignatureSet} {methods : List Method}
    (h : i ∈ remarks c facts known methods fields) : i.isBlocking = false := by
  rw [Issue.isBlocking, Issue.severity]
  obtain hkind | hkind | hkind | hkind := kind_of_mem_remarks h
  all_goals rw [hkind]; rfl

-- A plan on issues that block and issues that only inform.
def planWith (fields methods : List String) (blocking informing : List Issue) : Plan :=
  match blocking with
  | [] => .approved fields methods informing
  | _ => .rejected blocking

theorem isApproved_planWith {blocking informing : List Issue} :
    (planWith fields methods blocking informing).isApproved = true ↔ blocking = [] := by
  cases blocking with
  | nil => simp [planWith, Plan.isApproved]
  | cons i blocking => simp [planWith, Plan.isApproved]

theorem planWith_eq_approved {fs ms : List String} {blocking informing : List Issue}
    (h : planWith fs ms blocking informing = .approved fields methods issues) :
    blocking = [] ∧ fields = fs ∧ methods = ms ∧ issues = informing := by
  cases blocking with
  | nil =>
    cases h
    exact ⟨rfl, rfl, rfl, rfl⟩
  | cons i blocking => cases h

theorem decision_eq {informing blocking noticed : List Issue}
    (hinforming : ∀ i ∈ informing, i.isBlocking = false)
    (hblocking : ∀ i ∈ blocking, i.isBlocking = true)
    (hnoticed : ∀ i ∈ noticed, i.isBlocking = false) :
    (if (informing ++ blocking ++ noticed).any (·.isBlocking) then
        Plan.rejected ((informing ++ blocking ++ noticed).filter (·.isBlocking))
      else .approved fields methods (informing ++ blocking ++ noticed)) =
      planWith fields methods blocking (informing ++ noticed) := by
  have hfilter : (informing ++ blocking ++ noticed).filter (·.isBlocking) = blocking := by
    rw [List.filter_append, List.filter_append, List.filter_eq_self.mpr hblocking,
      List.filter_eq_nil_iff.mpr (by simpa using hinforming),
      List.filter_eq_nil_iff.mpr (by simpa using hnoticed), List.nil_append, List.append_nil]
  rw [hfilter]
  cases blocking with
  | nil =>
    have hnone : (informing ++ [] ++ noticed).any (·.isBlocking) = false :=
      List.any_eq_false.mpr (List.filter_eq_nil_iff.mp hfilter)
    rw [hnone, List.append_nil]
    rfl
  | cons i blocking =>
    have hsome : (informing ++ i :: blocking ++ noticed).any (·.isBlocking) = true :=
      List.any_eq_true.mpr ⟨i, by simp, hblocking i List.mem_cons_self⟩
    rw [if_pos hsome, planWith]
    nofun

-- What is worth knowing of what is added to a candidate and of all that moves.
def reports (c : ClassModel) (facts : Facts) (added statics : List (String × String))
    (known : SignatureSet) (methods : List Method) (fields : List String) : List Issue :=
  added.map inclusionIssue ++ (statics.map staticIssue ++ remarks c facts known methods fields)

-- The plan for a selection that is complete.
def planOf (c : ClassModel) (facts : Facts) (candidate : Candidate)
    (added : List (String × String)) (s : Selection) : Plan :=
  let methods := resolve c s.methods
  let requested := candidate.fields.eraseDups
  let statics := staticAdditions c facts methods requested
  let fields := requested ++ statics.map Prod.fst
  planWith fields s.methods (blockers c facts s.known methods requested)
    (reports c facts added statics s.known methods fields)

theorem isBlocking_of_mem_reports {added statics : List (String × String)} {known : SignatureSet}
    {methods : List Method} (h : i ∈ reports c facts added statics known methods fields) :
    i.isBlocking = false := by
  rw [reports, List.mem_append, List.mem_append] at h
  obtain h | h | h := h
  · obtain ⟨_, -, rfl⟩ := List.mem_map.mp h
    rfl
  · obtain ⟨_, -, rfl⟩ := List.mem_map.mp h
    rfl
  · exact isBlocking_of_mem_remarks h

theorem decide_eq_planOf
    (h : ((ofRequest candidate.methods).repair c facts [] rounds).settled = true) :
    ∃ added, Completion c facts candidate.methods added
        ((ofRequest candidate.methods).repair c facts [] rounds).selection ∧
      decide c facts rounds candidate = planOf c facts candidate added
        ((ofRequest candidate.methods).repair c facts [] rounds).selection := by
  obtain ⟨added, hrun, hissues, hmissing⟩ :=
    run_of_repair c facts (ofRequest candidate.methods) [] rounds
  refine ⟨added, ⟨hrun, hmissing h⟩, ?_⟩
  rw [decide, planOf]
  simp only [h, hissues, if_true, List.nil_append, List.append_nil, distinctOn_id_eq_eraseDups]
  generalize ((ofRequest candidate.methods).repair c facts [] rounds).selection = s
  set methods := resolve c s.methods
  set requested := candidate.fields.eraseDups
  set statics := staticAdditions c facts methods requested
  set fields := requested ++ statics.map Prod.fst
  have hblocking : ∀ i ∈ blockers c facts s.known methods requested, i.isBlocking = true :=
    fun _ => isBlocking_of_mem_blockers
  have hreports : ∀ i ∈ reports c facts added statics s.known methods fields,
      i.isBlocking = false := fun _ => isBlocking_of_mem_reports
  rw [reports, List.forall_mem_append] at hreports
  simpa only [blockers, reports, remarks, List.append_assoc] using
    decision_eq hreports.left hblocking hreports.right

theorem decide_of_settled
    (h : ((ofRequest candidate.methods).repair c facts [] rounds).settled = true) :
    ∃ added s, Completion c facts candidate.methods added s ∧
      decide c facts rounds candidate = planOf c facts candidate added s := by
  obtain ⟨added, hs, hplan⟩ := decide_eq_planOf h
  exact ⟨added, _, hs, hplan⟩

-- A candidate is not approved unless its selection of methods could be completed.
theorem settled_of_isApproved (h : (decide c facts rounds candidate).isApproved = true) :
    ((ofRequest candidate.methods).repair c facts [] rounds).settled = true := by
  by_contra hsettled
  rw [Bool.not_eq_true] at hsettled
  rw [decide] at h
  simp only [hsettled] at h
  rw [if_pos] at h
  · cases h
  · simp [capIssue, Issue.isBlocking, Issue.severity, IssueKind.severity]

-- The static fields that are added are those that the methods use, besides those asked for.
theorem mem_map_staticAdditions {methods : List Method} {requested : List String} {name : String} :
    name ∈ (staticAdditions c facts methods requested).map Prod.fst ↔
      name ∉ requested ∧ (∃ f, c.field? name = some f ∧ f.isStatic = true) ∧
        ∃ m ∈ methods, name ∈ facts.accessesOf m := by
  rw [staticAdditions, mem_map_distinctOn]
  simp only [List.mem_map, List.mem_flatMap, List.mem_filter, Bool.and_eq_true, Option.any_eq_true,
    Bool.not_eq_true', List.contains_eq_mem, decide_eq_false_iff_not]
  constructor
  case mp =>
    rintro ⟨_, ⟨m, hm, _, ⟨haccess, hstatic, hrequested⟩, rfl⟩, rfl⟩
    exact ⟨hrequested, hstatic, m, hm, haccess⟩
  case mpr =>
    rintro ⟨hrequested, hstatic, m, hm, haccess⟩
    exact ⟨_, ⟨m, hm, name, ⟨haccess, hstatic, hrequested⟩, rfl⟩, rfl⟩

-- What is behind an approved plan: a selection that is complete and that nothing blocks.
structure Backing (c : ClassModel) (facts : Facts) (candidate : Candidate)
    (fields methods : List String) (issues : List Issue) (added : List (String × String))
    (s : Selection) : Prop where
  completion : Completion c facts candidate.methods added s
  unblocked : blockers c facts s.known (resolve c methods) candidate.fields.eraseDups = []
  methods_eq : methods = s.methods
  fields_eq : fields = candidate.fields.eraseDups ++
    (staticAdditions c facts (resolve c methods) candidate.fields.eraseDups).map Prod.fst
  issues_eq : issues = reports c facts added
    (staticAdditions c facts (resolve c methods) candidate.fields.eraseDups) s.known
    (resolve c methods) fields

theorem backing_of_decide (h : decide c facts rounds candidate = .approved fields methods issues) :
    ∃ added s, Backing c facts candidate fields methods issues added s := by
  obtain ⟨added, s, hs, hplan⟩ := decide_of_settled (settled_of_isApproved (by rw [h]; rfl))
  rw [h, planOf] at hplan
  obtain ⟨hblockers, rfl, rfl, rfl⟩ := planWith_eq_approved hplan.symm
  exact ⟨added, s, hs, hblockers, rfl, rfl, rfl⟩

theorem Backing.fields_nodup {added : List (String × String)} {s : Selection}
    (h : Backing c facts candidate fields methods issues added s) : fields.Nodup := by
  rw [h.fields_eq, List.nodup_append]
  refine ⟨distinctOn_id_eq_eraseDups candidate.fields ▸ nodup_distinctOn_id _,
    nodup_map_distinctOn _ _, ?_⟩
  rintro name hrequested _ hadded rfl
  exact (mem_map_staticAdditions.mp hadded).left hrequested

-- What an approved plan has besides the request:
-- 1. its methods denote the least sufficient set
-- 2. they are those requested and, behind them, private methods, each reported once
-- 3. its fields are those requested and, behind them, the static fields that the methods use, each
--    reported once
structure Approval (c : ClassModel) (facts : Facts) (candidate : Candidate)
    (fields methods : List String) (issues : List Issue) (addedMethods addedFields : List String) :
    Prop where
  isLeast : IsLeast {methods | Sufficient c facts candidate.methods methods}
    {m | m ∈ resolve c methods}
  methods_eq : methods = candidate.methods.eraseDups ++ addedMethods
  methods_nodup : methods.Nodup
  isPrivate : ∀ text ∈ addedMethods, canonicalSignature text = text ∧
    ∃ n ∈ c.properMethods, n.isPrivate = true ∧ n.signature = text
  methodIssues : (issues.filter (·.kind = .privateMethodIncluded)).map Issue.member = addedMethods
  fields_eq : fields = candidate.fields.eraseDups ++ addedFields
  fields_nodup : fields.Nodup
  mem_addedFields : ∀ name, name ∈ addedFields ↔ name ∉ candidate.fields ∧
    (∃ f, c.field? name = some f ∧ f.isStatic = true) ∧
      ∃ m ∈ resolve c methods, name ∈ facts.accessesOf m
  fieldIssues : (issues.filter (·.kind = .staticFieldIncluded)).map Issue.member = addedFields

-- Of two kinds of issues each is about a member that is added, and only about one.
theorem filter_kind_reports (c : ClassModel) (facts : Facts) (added statics : List (String × String))
    (known : SignatureSet) (methods : List Method) (fields : List String) :
    ((reports c facts added statics known methods fields).filter
        (·.kind = .privateMethodIncluded)).map Issue.member = added.map Prod.fst ∧
      ((reports c facts added statics known methods fields).filter
        (·.kind = .staticFieldIncluded)).map Issue.member = statics.map Prod.fst := by
  have hremarks (kind : IssueKind) (h : kind = .privateMethodIncluded ∨
      kind = .staticFieldIncluded) :
      (remarks c facts known methods fields).filter (·.kind = kind) = [] := by
    rw [List.filter_eq_nil_iff]
    intro i hi hkind
    obtain rfl : i.kind = kind := of_decide_eq_true hkind
    have := kind_of_mem_remarks hi
    rcases h with h | h <;> simp [h] at this
  simp only [reports, List.filter_append]
  constructor
  · rw [hremarks _ (.inl rfl)]
    simp [List.filter_map, inclusionIssue, staticIssue, Function.comp_def]
  · rw [hremarks _ (.inr rfl)]
    simp [List.filter_map, inclusionIssue, staticIssue, Function.comp_def]

theorem approval_of_decide (hc : c.Unambiguous)
    (hw : ∀ text ∈ candidate.methods, Signature.WellFormed text)
    (h : decide c facts rounds candidate = .approved fields methods issues) :
    ∃ addedMethods addedFields,
      Approval c facts candidate fields methods issues addedMethods addedFields := by
  obtain ⟨added, s, hbacking⟩ := backing_of_decide h
  have hs := hbacking.completion
  have htracks := hs.tracks hc hw
  have hnodup := hbacking.fields_nodup
  obtain ⟨-, -, rfl, hfields, hissues⟩ := hbacking
  set statics := staticAdditions c facts (resolve c s.methods) candidate.fields.eraseDups
  have hmem (name : String) : name ∈ statics.map Prod.fst ↔ _ := mem_map_staticAdditions
  obtain ⟨hmethodIssues, hfieldIssues⟩ := filter_kind_reports c facts added statics s.known
    (resolve c s.methods) fields
  rw [← hissues] at hmethodIssues hfieldIssues
  exact ⟨added.map Prod.fst, statics.map Prod.fst, {
    isLeast := hs.isLeast_resolve hc hw
    methods_eq := hs.methods_eq
    methods_nodup := htracks.nodup
    isPrivate := by
      intro text htext
      obtain ⟨addition, haddition, rfl⟩ := List.mem_map.mp htext
      obtain ⟨n, hn, hprivate, heq⟩ := hs.run.exists_private addition haddition
      rw [heq]
      exact ⟨hc.canonical n hn, n, hn, hprivate, rfl⟩
    methodIssues := hmethodIssues
    fields_eq := hfields
    fields_nodup := hnodup
    mem_addedFields := by
      intro name
      simpa only [List.mem_eraseDups] using hmem name
    fieldIssues := hfieldIssues }⟩

-- Two private methods that call each other, and a static field that one of them uses.
def mutualSource : String :=
  "class A\x7bstatic int n;int k;void m()\x7ba(1);\x7dprivate void a(int x)\x7bb();n=x;\x7d"
    ++ "private void b()\x7ba(k);\x7d\x7d"

def mutualCandidate : Candidate := ⟨"B", ["k"], ["m()", "m()"]⟩

theorem exists_mutual : ∃ s, JavaSource.parse mutualSource none = .ok s ∧ s.model.Unambiguous ∧
    (decide s.model s.facts 3 mutualCandidate).isApproved = true := by
  obtain ⟨s, hparse, hcheck⟩ := JavaSource.exists_parse_of_check mutualSource
    (fun s => s.model.tellsApart && (decide s.model s.facts 3 mutualCandidate).isApproved)
    (by decide +kernel)
  obtain ⟨happart, happroved⟩ := Bool.and_eq_true_iff.mp hcheck
  exact ⟨s, hparse, ClassModel.unambiguous_of_parse hparse happart, happroved⟩

theorem approval_of_decide_mutual : ∃ s fields methods issues,
    JavaSource.parse mutualSource none = .ok s ∧ s.model.Unambiguous ∧
      decide s.model s.facts 3 mutualCandidate = .approved fields methods issues ∧
        ∃ addedMethods addedFields,
          Approval s.model s.facts mutualCandidate fields methods issues addedMethods addedFields := by
  obtain ⟨s, hparse, hc, happroved⟩ := exists_mutual
  cases h : decide s.model s.facts 3 mutualCandidate with
  | rejected issues =>
    rw [h] at happroved
    cases happroved
  | approved fields methods issues =>
    exact ⟨s, fields, methods, issues, hparse, hc, h, approval_of_decide hc (by decide +kernel) h⟩

-- The issues of methods and fields that would move and that a new class could not have:
-- 1. an abstract method has nothing to move
-- 2. a call of an abstract method that stays has no target
-- 3. a type that is private to the class is unknown outside, in a method or as the type of a field
inductive Obstacle (c : ClassModel) (facts : Facts) (moves : Set Method) (fields : List String) :
    Issue → Prop
  | isAbstract {m : Method} (mem : m ∈ moves) (isAbstract : m.isAbstract = true) :
      Obstacle c facts moves fields
        { kind := .abstractCall, member := m.signature
          description := "abstract method has no implementation to move" }
  | callsAbstract {m n : Method} (mem : m ∈ moves) (callee : n ∈ c.properMethods)
      (call : n.name ∈ facts.callsOf m) (isAbstract : n.isAbstract = true) (stays : n ∉ moves) :
      Obstacle c facts moves fields
        { kind := .abstractCall, member := m.signature
          description :=
            "calls abstract method " ++ n.signature ++ " which the new class cannot implement" }
  | methodType {m : Method} {type : String} (mem : m ∈ moves) (mention : type ∈ facts.typesOf m)
      (isPrivate : c.isPrivateNestedType type = true) :
      Obstacle c facts moves fields
        { kind := .innerTypeReference, member := m.signature
          description := "references private nested type " ++ type }
  | fieldType {name type : String} {f : Field} (mem : name ∈ fields) (found : c.field? name = some f)
      (mention : type ∈ words f.type) (isPrivate : c.isPrivateNestedType type = true) :
      Obstacle c facts moves fields
        { kind := .innerTypeReference, member := name
          description := "declared type mentions private nested type " ++ type }

-- Methods and fields that a new class can have.
structure Movable (c : ClassModel) (facts : Facts) (moves : Set Method) (fields : List String) :
    Prop where
  concrete : ∀ m ∈ moves, m.isAbstract = false
  callsConcrete : ∀ m ∈ moves, ∀ n ∈ c.properMethods, n.isAbstract = true →
    n.name ∉ facts.callsOf m
  methodTypes : ∀ m ∈ moves, ∀ type ∈ facts.typesOf m, c.isPrivateNestedType type = false
  fieldTypes : ∀ name ∈ fields, ∀ f, c.field? name = some f →
    ∀ type ∈ words f.type, c.isPrivateNestedType type = false

-- A call of an abstract method is in the way whether or not that method is to move as well.
theorem movable_iff {moves : Set Method} :
    Movable c facts moves fields ↔ ∀ i, ¬Obstacle c facts moves fields i := by
  constructor
  case mp =>
    intro h i hi
    cases hi with
    | isAbstract mem isAbstract => simp [h.concrete _ mem] at isAbstract
    | callsAbstract mem callee call isAbstract =>
      exact h.callsConcrete _ mem _ callee isAbstract call
    | methodType mem mention isPrivate => simp [h.methodTypes _ mem _ mention] at isPrivate
    | fieldType mem found mention isPrivate =>
      simp [h.fieldTypes _ mem _ found _ mention] at isPrivate
  case mpr =>
    intro h
    have hconcrete : ∀ m ∈ moves, m.isAbstract = false := by
      intro m hm
      by_contra habstract
      exact h _ (.isAbstract hm (by simpa using habstract))
    refine ⟨hconcrete, ?_, ?_, ?_⟩
    · intro m hm n hn habstract hcall
      have hstays : n ∉ moves := fun hmoves => by simp [hconcrete n hmoves] at habstract
      exact h _ (.callsAbstract hm hn hcall habstract hstays)
    · intro m hm type hmention
      by_contra hprivate
      exact h _ (.methodType hm hmention (by simpa using hprivate))
    · intro name hname f hf type hmention
      by_contra hprivate
      exact h _ (.fieldType hname hf hmention (by simpa using hprivate))

section

variable {added : List (String × String)} {s : Selection}
  (hs : Completion c facts candidate.methods added s) (hc : c.Unambiguous)
  (hw : ∀ text ∈ candidate.methods, Signature.WellFormed text)

include hs hc hw

theorem obstacle_of_mem_blockers
    (h : i ∈ blockers c facts s.known (resolve c s.methods) candidate.fields.eraseDups) :
    Obstacle c facts {m | Moves c facts candidate.methods m} candidate.fields i := by
  simp only [blockers, List.mem_append, List.mem_flatMap] at h
  obtain (⟨m, hm, h⟩ | ⟨m, hm, h⟩) | ⟨name, hname, h⟩ := h
  · have hmoves := (hs.mem_resolve_iff hc hw).mp hm
    simp only [abstractIssues, List.mem_append, List.mem_map, List.mem_flatMap] at h
    obtain h | ⟨n, ⟨callee, hcall, hn⟩, rfl⟩ := h
    · split at h
      case isTrue habstract =>
        rw [List.mem_singleton.mp h]
        exact .isAbstract hmoves habstract
      case isFalse => cases h
    · obtain ⟨hnamed, hstays⟩ := List.mem_filter.mp hn
      obtain ⟨hproper, rfl⟩ := ClassModel.mem_methodsNamed.mp hnamed
      rw [Bool.and_eq_true, Bool.not_eq_true'] at hstays
      refine .callsAbstract hmoves hproper hcall hstays.left fun hn => ?_
      rw [(hs.contains_iff hc hw hproper).mpr hn] at hstays
      cases hstays.right
  · obtain ⟨type, htype, rfl⟩ := List.mem_map.mp h
    obtain ⟨hmention, hprivate⟩ := List.mem_filter.mp htype
    exact .methodType ((hs.mem_resolve_iff hc hw).mp hm) hmention hprivate
  · rw [fieldTypeIssues] at h
    split at h
    case h_1 => cases h
    case h_2 f hf =>
      obtain ⟨type, htype, rfl⟩ := List.mem_map.mp h
      obtain ⟨hmention, hprivate⟩ := List.mem_filter.mp htype
      exact .fieldType (List.mem_eraseDups.mp hname) hf hmention hprivate

theorem mem_blockers_of_obstacle
    (h : Obstacle c facts {m | Moves c facts candidate.methods m} candidate.fields i) :
    i ∈ blockers c facts s.known (resolve c s.methods) candidate.fields.eraseDups := by
  simp only [blockers, List.mem_append, List.mem_flatMap]
  cases h with
  | isAbstract mem isAbstract =>
    refine .inl (.inl ⟨_, (hs.mem_resolve_iff hc hw).mpr mem, ?_⟩)
    simp [abstractIssues, isAbstract]
  | callsAbstract mem callee call isAbstract stays =>
    refine .inl (.inl ⟨_, (hs.mem_resolve_iff hc hw).mpr mem, ?_⟩)
    refine List.mem_append_right _ (List.mem_map_of_mem (List.mem_flatMap.mpr ⟨_, call, ?_⟩))
    refine List.mem_filter.mpr ⟨ClassModel.mem_methodsNamed.mpr ⟨callee, rfl⟩, ?_⟩
    have hunknown := mt (hs.contains_iff hc hw callee).mp stays
    simp [isAbstract, hunknown]
  | methodType mem mention isPrivate =>
    refine .inl (.inr ⟨_, (hs.mem_resolve_iff hc hw).mpr mem, ?_⟩)
    exact List.mem_map_of_mem (List.mem_filter.mpr ⟨mention, isPrivate⟩)
  | fieldType mem found mention isPrivate =>
    refine .inr ⟨_, List.mem_eraseDups.mpr mem, ?_⟩
    rw [fieldTypeIssues, found]
    exact List.mem_map_of_mem (List.mem_filter.mpr ⟨mention, isPrivate⟩)

end

theorem verdict_of_settled (hc : c.Unambiguous)
    (hw : ∀ text ∈ candidate.methods, Signature.WellFormed text)
    (hsettled : ((ofRequest candidate.methods).repair c facts [] rounds).settled = true) :
    ((decide c facts rounds candidate).isApproved = true ↔
        Movable c facts {m | Moves c facts candidate.methods m} candidate.fields) ∧
      match decide c facts rounds candidate with
      | .rejected issues => issues ≠ [] ∧ (∀ i ∈ issues, i.isBlocking = true) ∧
        ∀ i, i ∈ issues ↔
          Obstacle c facts {m | Moves c facts candidate.methods m} candidate.fields i
      | .approved _ _ issues => ∀ i ∈ issues, i.isBlocking = false := by
  obtain ⟨added, s, hs, hplan⟩ := decide_of_settled hsettled
  have hiff (i : Issue) :
      i ∈ blockers c facts s.known (resolve c s.methods) candidate.fields.eraseDups ↔
        Obstacle c facts {m | Moves c facts candidate.methods m} candidate.fields i :=
    ⟨obstacle_of_mem_blockers hs hc hw, mem_blockers_of_obstacle hs hc hw⟩
  rw [hplan, planOf, isApproved_planWith, List.eq_nil_iff_forall_not_mem, movable_iff]
  simp only [hiff, true_and]
  cases hblockers : blockers c facts s.known (resolve c s.methods) candidate.fields.eraseDups with
  | nil => exact fun _ => isBlocking_of_mem_reports
  | cons j blocking =>
    rw [hblockers] at hiff
    refine ⟨List.cons_ne_nil j blocking, ?_, hiff⟩
    rw [← hblockers]
    exact fun _ => isBlocking_of_mem_blockers

theorem verdict_of_settled_mutual : ∃ s,
    JavaSource.parse mutualSource none = .ok s ∧ s.model.Unambiguous ∧
      (decide s.model s.facts 3 mutualCandidate).isApproved = true ∧
        Movable s.model s.facts {m | Moves s.model s.facts mutualCandidate.methods m}
          mutualCandidate.fields := by
  obtain ⟨s, hparse, hc, happroved⟩ := exists_mutual
  have hverdict := verdict_of_settled hc (by decide +kernel) (settled_of_isApproved happroved)
  exact ⟨s, hparse, hc, happroved, hverdict.left.mp happroved⟩

def qualifiedSource : String := "class A\x7bprivate static class T\x7b\x7dprivate A.T f;\x7d"

-- A type is mentioned by its simple name only: the type of a field may name the class in front of
-- it, and is then not noticed to be private.
theorem isApproved_qualified : ∃ s, JavaSource.parse qualifiedSource none = .ok s ∧
    (s.model.field? "f").map Field.type = some "A.T" ∧ s.model.isPrivateNestedType "T" = true ∧
      decide s.model s.facts 10 ⟨"B", ["f"], []⟩ = .approved ["f"] [] [] := by
  obtain ⟨s, hparse, hcheck⟩ := JavaSource.exists_parse_of_check qualifiedSource
    (fun s => Decidable.decide ((s.model.field? "f").map Field.type = some "A.T" ∧
      s.model.isPrivateNestedType "T" = true ∧
        decide s.model s.facts 10 ⟨"B", ["f"], []⟩ = .approved ["f"] [] []))
    (by decide +kernel)
  exact ⟨s, hparse, of_decide_eq_true hcheck⟩

-- A private method that an approved method calls is matched by a method that is approved. Overloads
-- that differ only in brackets match each other, so that one of them may stay behind.
theorem exists_match_of_decide {m n : Method}
    (h : decide c facts rounds candidate = .approved fields methods issues)
    (hm : m ∈ resolve c methods) (hneeds : Needs c facts m n) :
    ∃ text ∈ methods, signaturesMatch text n.signature = true := by
  obtain ⟨added, s, hbacking⟩ := backing_of_decide h
  exact hbacking.methods_eq ▸ hbacking.completion.exists_match (hbacking.methods_eq ▸ hm) hneeds

-- Two private methods whose signatures differ only in brackets.
def overloadedSource : String :=
  "class A\x7bvoid m()\x7ba(1);\x7dprivate void a(int x)\x7b\x7dprivate void a(int[] x)\x7b\x7d\x7d"

def overloadedCandidate : Candidate := ⟨"B", [], ["m()", "a(int)"]⟩

theorem exists_leftBehind : ∃ s methods,
    JavaSource.parse overloadedSource none = .ok s ∧
      (s.model.properMethods.map (canonicalSignature ·.signature)).Nodup ∧
        decide s.model s.facts 10 overloadedCandidate = .approved [] methods [] ∧
          ∃ m ∈ resolve s.model methods, ∃ n, Needs s.model s.facts m n ∧
            n ∉ resolve s.model methods := by
  obtain ⟨s, hparse, hcheck⟩ := JavaSource.exists_parse_of_check overloadedSource
    (fun s => Decidable.decide
      ((s.model.properMethods.map (canonicalSignature ·.signature)).Nodup ∧
        decide s.model s.facts 10 overloadedCandidate = .approved [] ["m()", "a(int)"] [] ∧
          ∃ m ∈ resolve s.model ["m()", "a(int)"], ∃ n ∈ s.model.properMethods,
            (n.isPrivate = true ∧ n.name ∈ s.facts.callsOf m) ∧
              n ∉ resolve s.model ["m()", "a(int)"]))
    (by decide +kernel)
  obtain ⟨hdistinct, hdecide, m, hm, n, hn, hneeds, hstays⟩ := of_decide_eq_true hcheck
  exact ⟨s, _, hparse, hdistinct, hdecide, m, hm, n, ⟨hn, hneeds⟩, hstays⟩

theorem exists_match_of_decide_overloaded : ∃ s methods m n,
    JavaSource.parse overloadedSource none = .ok s ∧
      decide s.model s.facts 10 overloadedCandidate = .approved [] methods [] ∧
        Needs s.model s.facts m n ∧ n ∉ resolve s.model methods ∧
          ∃ text ∈ methods, signaturesMatch text n.signature = true := by
  obtain ⟨s, methods, hparse, -, hdecide, m, hm, n, hneeds, hstays⟩ := exists_leftBehind
  exact ⟨s, methods, m, n, hparse, hdecide, hneeds, hstays,
    exists_match_of_decide hdecide hm hneeds⟩

theorem not_forall_needs_mem_resolve :
    ¬∀ (c : ClassModel) (facts : Facts) (rounds : Nat) (candidate : Candidate)
      (fields methods : List String) (issues : List Issue),
        (c.properMethods.map (canonicalSignature ·.signature)).Nodup →
          decide c facts rounds candidate = .approved fields methods issues →
            ∀ m ∈ resolve c methods, ∀ n, Needs c facts m n → n ∈ resolve c methods := by
  intro h
  obtain ⟨s, methods, -, hdistinct, hdecide, m, hm, n, hneeds, hstays⟩ := exists_leftBehind
  exact hstays (h s.model s.facts 10 overloadedCandidate [] methods [] hdistinct hdecide m hm n
    hneeds)

end Verdict

end ClassSplit
