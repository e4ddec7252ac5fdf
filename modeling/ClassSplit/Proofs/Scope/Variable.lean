import ClassSplit.Proofs.Delegation.NestedType

/-!
Where variables are in scope. A construct declares variables, each for a part of it. The search for
the declaration closest to a name takes the name for the variable in that part and in some places
beside it, and for the field everywhere else. Main statements: `isSome_localBinding?_iff`,
`refers_iff`; for the places beside, see `loses_beside_scope`.
-/

namespace ClassSplit

open Java

-- A variable that a construct declares, the places in the construct where it is in scope, and those
-- where a name is taken for it although it is not.
structure Variable where
  name : Option Node
  inScope : Span → Bool
  isMistaken : Span → Bool

-- Whether a span lies behind a place, up to an end.
def isBehind (start stop : Nat) (span : Span) : Bool := start < span.start && span.stop ≤ stop

-- Whether a span begins behind a place and not behind another.
def beginsBetween (start stop : Nat) (span : Span) : Bool :=
  start < span.start && span.start ≤ stop

namespace Java.Node

-- The declarations of local variables among some nodes, each with the declarators in it.
def declarators (ns : List Node) : List (Node × Node) :=
  (ns.filter (·.kind = .localVariableDeclaration)).flatMap fun d =>
    (d.namedChildren.filter (·.kind = .variableDeclarator)).map (d, ·)

def parameterName? (parameter : Node) : Option Node :=
  match parameter.kind with
  | .formalParameter => parameter.child? .name
  | .spreadParameter =>
    (parameter.namedChildren.find? (·.kind = .variableDeclarator)).bind (·.child? .name)
  | _ => none

def lambdaNames (parameters : Node) : List (Option Node) :=
  match parameters.kind with
  | .identifier => [some parameters]
  | .inferredParameters => parameters.namedChildren.map some
  | _ => parameters.namedChildren.map parameterName?

def isInBody (n : Node) (span : Span) : Bool := (n.child? .body).any (·.span.covers span)

-- A variable of a block, in scope from its declarator to the end of the block.
def localIn (block : Node) : Node × Node → Variable
  | (d, v) => ⟨v.child? .name, isBehind v.span.start block.span.stop,
    beginsBetween d.span.start v.span.start⟩

-- A variable that is in scope in the body of a construct alone.
def ofBody (n : Node) (name : Option Node) : Variable :=
  ⟨name, n.isInBody, fun span => !n.isInBody span⟩

-- A variable of a loop, in scope from its declarator to the end of the loop.
def forHeader (n : Node) : Node × Node → Variable
  | (_, v) => ⟨v.child? .name, isBehind v.span.start n.span.stop, (·.start ≤ v.span.start)⟩

-- A resource is in scope up to the end of the body, and not in what is done afterwards.
def ofResource (n resource : Node) : Variable :=
  ⟨resource.child? .name,
    fun span => (n.child? .body).any fun body => isBehind resource.span.start body.span.stop span,
    fun span => resource.span.start < span.start &&
      (n.child? .body).all fun body => body.span.stop < span.stop⟩

-- The variables that a construct declares. Those of a group of statements in a switch are in scope
-- in the groups behind it as well.
def declared (n : Node) : List Variable :=
  match n.kind with
  | .block | .constructorBody | .switchBlockStatementGroup =>
    (declarators n.namedChildren).map n.localIn
  | .switchBlock =>
    n.namedChildren.flatMap fun group => (declarators group.namedChildren).map n.localIn
  | .forStatement => (declarators n.namedChildren).map n.forHeader
  | .enhancedForStatement => [n.ofBody (n.child? .name)]
  | .catchClause =>
    (n.namedChildren.find? (·.kind = .catchFormalParameter)).toList.map fun parameter =>
      n.ofBody (parameter.child? .name)
  | .tryWithResourcesStatement =>
    ((n.child? .resources).toList.flatMap namedChildren).map n.ofResource
  | .methodDeclaration | .constructorDeclaration =>
    ((n.child? .parameters).toList.flatMap namedChildren).map fun parameter =>
      n.ofBody parameter.parameterName?
  | .lambdaExpression => ((n.child? .parameters).toList.flatMap lambdaNames).map n.ofBody
  | _ => []

end Java.Node

namespace JavaSource

variable {s : JavaSource} {n : Node} {name : String} {offset : Nat} {span : Span}
  {site body : Site}

def hasName (s : JavaSource) (v : Variable) (name : String) : Bool :=
  v.name.any (s.spelling · == name)

-- A variable of a construct around the site has the name and is in scope there.
def InScope (s : JavaSource) (name : String) (site : Site) : Prop :=
  ∃ around ∈ site.ancestors, ∃ v ∈ around.node.declared,
    s.hasName v name = true ∧ v.inScope site.span = true

-- The name is taken for a variable of a construct around the site that is not in scope there.
def Mistaken (s : JavaSource) (name : String) (site : Site) : Prop :=
  ∃ around ∈ site.ancestors, ∃ v ∈ around.node.declared,
    s.hasName v name = true ∧ v.isMistaken site.span = true

-- The name is taken for a variable of a pattern.
def PatternBound (s : JavaSource) (name : String) (site : Site) : Prop :=
  ∃ around ∈ site.ancestors, (s.caseBinding? around.node name).isSome = true ∨
    isPatternScope around = true ∧ (s.patternBinding? around site name).isSome = true

instance (site : Site) : Decidable (s.InScope name site) :=
  inferInstanceAs (Decidable (∃ around ∈ site.ancestors, ∃ v ∈ around.node.declared,
    s.hasName v name = true ∧ v.inScope site.span = true))

instance (site : Site) : Decidable (s.Mistaken name site) :=
  inferInstanceAs (Decidable (∃ around ∈ site.ancestors, ∃ v ∈ around.node.declared,
    s.hasName v name = true ∧ v.isMistaken site.span = true))

instance (site : Site) : Decidable (s.PatternBound name site) :=
  inferInstanceAs (Decidable (∃ around ∈ site.ancestors,
    (s.caseBinding? around.node name).isSome = true ∨
      isPatternScope around = true ∧ (s.patternBinding? around site name).isSome = true))

section Binding

variable {ns : List Node} {d v : Node}

theorem mem_declarators : (d, v) ∈ Node.declarators ns ↔
    d ∈ ns ∧ d.kind = .localVariableDeclaration ∧
      v ∈ d.namedChildren ∧ v.kind = .variableDeclarator := by
  simp only [Node.declarators, List.mem_flatMap, List.mem_filter, List.mem_map, Prod.mk.injEq,
    decide_eq_true_eq]
  constructor
  case mp =>
    rintro ⟨d', ⟨hd, hkind⟩, v', ⟨hv, hvkind⟩, rfl, rfl⟩
    exact ⟨hd, hkind, hv, hvkind⟩
  case mpr => exact fun ⟨hd, hkind, hv, hvkind⟩ => ⟨d, ⟨hd, hkind⟩, v, ⟨hv, hvkind⟩, rfl, rfl⟩

theorem exists_mem_map_declarators {f : Node × Node → Variable} {p : Variable → Prop} :
    (∃ v ∈ (Node.declarators ns).map f, p v) ↔
      ∃ d v, (d, v) ∈ Node.declarators ns ∧ p (f (d, v)) := by
  simp only [List.mem_map, Prod.exists]
  constructor
  case mp =>
    rintro ⟨_, ⟨d, v, hmem, rfl⟩, hp⟩
    exact ⟨d, v, hmem, hp⟩
  case mpr => exact fun ⟨d, v, hmem, hp⟩ => ⟨_, ⟨d, v, hmem, rfl⟩, hp⟩

theorem isSome_blockBinding?_iff : (s.blockBinding? n name offset).isSome = true ↔
    ∃ d v, (d, v) ∈ Node.declarators n.namedChildren ∧ s.declares v name = true ∧
      d.span.start < offset := by
  simp only [blockBinding?, List.findSome?_isSome_iff, isSome_declarationBinding?_iff,
    mem_declarators, List.mem_filter, Bool.and_eq_true, decide_eq_true_eq]
  constructor
  case mp =>
    rintro ⟨d, ⟨hd, hlt, hkind⟩, v, hv, hvkind, hdeclares⟩
    exact ⟨d, v, ⟨hd, hkind, hv, hvkind⟩, hdeclares, hlt⟩
  case mpr =>
    rintro ⟨d, v, ⟨hd, hkind, hv, hvkind⟩, hdeclares, hlt⟩
    exact ⟨d, ⟨hd, hlt, hkind⟩, v, hv, hvkind, hdeclares⟩

theorem isSome_parameterBinding?_iff : (s.parameterBinding? n name).isSome = true ↔
    n.parameterName?.any (s.spelling · == name) = true := by
  rw [parameterBinding?]
  split
  case h_1 hkind =>
    rw [Node.parameterName?, hkind, declares]
    split
    case isTrue h => simp [h]
    case isFalse h => simp [h]
  case h_2 hkind =>
    rw [Node.parameterName?, hkind]
    cases n.namedChildren.find? (·.kind = .variableDeclarator) with
    | none => simp
    | some v =>
      rw [Option.any_some, declares]
      split
      case isTrue h => simpa using h
      case isFalse h => simpa using h
  case h_3 hformal hspread =>
    rw [Node.parameterName?]
    split
    case h_1 hkind => exact absurd hkind hformal
    case h_2 hkind => exact absurd hkind hspread
    case h_3 => simp

theorem isSome_parametersBinding?_iff : (s.parametersBinding? n name).isSome = true ↔
    ∃ c ∈ n.namedChildren, c.parameterName?.any (s.spelling · == name) = true := by
  simp only [parametersBinding?, List.findSome?_isSome_iff, isSome_parameterBinding?_iff]

theorem isSome_lambdaBinding?_iff : (s.lambdaBinding? n name).isSome = true ↔
    ∃ c ∈ n.lambdaNames, c.any (s.spelling · == name) = true := by
  rw [lambdaBinding?, Node.lambdaNames]
  split
  case h_1 => split <;> simp_all
  case h_2 => split <;> simp_all
  case h_3 => simp [isSome_parametersBinding?_iff]

end Binding

section Construct

variable {text : List Char}

-- The places where a name is taken for a variable.
def IsTaken (v : Variable) (span : Span) : Prop := v.inScope span = true ∨ v.isMistaken span = true

theorem isTaken_ofBody (n : Node) (name : Option Node) (span : Span) :
    IsTaken (n.ofBody name) span := by
  rw [IsTaken, Node.ofBody]
  cases hbody : n.isInBody span with
  | true => exact .inl hbody
  | false => exact .inr (by simp [hbody])

theorem isTaken_ofResource {resource : Node} :
    IsTaken (n.ofResource resource) span ↔ resource.span.start < span.start := by
  rw [IsTaken, Node.ofResource]
  cases n.child? .body with
  | none => simp
  | some body =>
    simp only [Option.any_some, Option.all_some, isBehind, Bool.and_eq_true, decide_eq_true_eq]
    omega

theorem start_le_of_mem_namedChildren {c : Node} (h : n.Sound text) (hc : c ∈ n.namedChildren) :
    n.span.start ≤ c.span.start := by
  have hcovers := h.covers_child (List.mem_filter.mp hc).left
  simp only [Span.covers, Bool.and_eq_true, decide_eq_true_eq] at hcovers
  exact hcovers.left

theorem isTaken_localIn {block d v : Node} (h : n.Sound text)
    (hmem : (d, v) ∈ Node.declarators n.namedChildren) (hstop : span.stop ≤ block.span.stop) :
    IsTaken (block.localIn (d, v)) span ↔ d.span.start < span.start := by
  obtain ⟨hd, -, hv, -⟩ := mem_declarators.mp hmem
  have hsound := h.of_mem_children (List.mem_filter.mp hd).left
  have hstart := start_le_of_mem_namedChildren hsound hv
  simp only [IsTaken, Node.localIn, isBehind, beginsBetween, Bool.and_eq_true, decide_eq_true_eq]
  omega

theorem isSome_blockBinding?_iff_isTaken {block : Node} (h : n.Sound text)
    (hstop : span.stop ≤ block.span.stop) :
    (s.blockBinding? n name span.start).isSome = true ↔
      ∃ v ∈ (Node.declarators n.namedChildren).map block.localIn,
        s.hasName v name = true ∧ IsTaken v span := by
  rw [isSome_blockBinding?_iff, exists_mem_map_declarators]
  constructor
  case mp =>
    rintro ⟨d, v, hmem, hdeclares, hlt⟩
    exact ⟨d, v, hmem, hdeclares, (isTaken_localIn h hmem hstop).mpr hlt⟩
  case mpr =>
    rintro ⟨d, v, hmem, hdeclares, htaken⟩
    exact ⟨d, v, hmem, hdeclares, (isTaken_localIn h hmem hstop).mp htaken⟩

-- Every name in a construct is taken for a variable that it declares in its header.
theorem exists_mem_map_ofBody {α : Type} {xs : List α} {f : α → Option Node} :
    (∃ v ∈ xs.map fun x => n.ofBody (f x), s.hasName v name = true ∧ IsTaken v span) ↔
      ∃ x ∈ xs, (f x).any (s.spelling · == name) = true := by
  simp only [List.mem_map, exists_exists_and_eq_and, isTaken_ofBody, and_true]
  rfl

theorem isSome_switchBinding?_iff (h : n.Sound text) (hstop : span.stop ≤ n.span.stop) :
    ((n.namedChildren.filter (·.span.start < span.start)).findSome?
        (s.blockBinding? · name span.start)).isSome = true ↔
      ∃ v ∈ n.namedChildren.flatMap fun group =>
          (Node.declarators group.namedChildren).map n.localIn,
        s.hasName v name = true ∧ IsTaken v span := by
  have hgroup (group : Node) (hgroup : group ∈ n.namedChildren) :
      (s.blockBinding? group name span.start).isSome = true ↔
        ∃ v ∈ (Node.declarators group.namedChildren).map n.localIn,
          s.hasName v name = true ∧ IsTaken v span :=
    isSome_blockBinding?_iff_isTaken (h.of_mem_children (List.mem_filter.mp hgroup).left) hstop
  simp only [List.findSome?_isSome_iff, List.mem_flatMap]
  constructor
  case mp =>
    rintro ⟨group, hmem, hbound⟩
    have hmem := (List.mem_filter.mp hmem).left
    obtain ⟨v, hv, hname⟩ := (hgroup group hmem).mp hbound
    exact ⟨v, ⟨group, hmem, hv⟩, hname⟩
  case mpr =>
    rintro ⟨v, ⟨group, hmem, hv⟩, hname⟩
    have hbound := (hgroup group hmem).mpr ⟨v, hv, hname⟩
    refine ⟨group, List.mem_filter.mpr ⟨hmem, decide_eq_true ?_⟩, hbound⟩
    obtain ⟨d, v, hdeclared, -, hlt⟩ := isSome_blockBinding?_iff.mp hbound
    have hsound := h.of_mem_children (List.mem_filter.mp hmem).left
    exact Nat.lt_of_le_of_lt
      (start_le_of_mem_namedChildren hsound (mem_declarators.mp hdeclared).left) hlt

-- In a loop every name is taken for a variable of its header.
theorem isSome_forBinding?_iff (hstop : span.stop ≤ n.span.stop) :
    ((n.namedChildren.filter (·.kind = .localVariableDeclaration)).findSome?
        (s.declarationBinding? · name)).isSome = true ↔
      ∃ v ∈ (Node.declarators n.namedChildren).map n.forHeader,
        s.hasName v name = true ∧ IsTaken v span := by
  have htaken (v : Node × Node) : IsTaken (n.forHeader v) span := by
    simp only [IsTaken, Node.forHeader, isBehind, Bool.and_eq_true, decide_eq_true_eq]
    omega
  simp only [exists_mem_map_declarators, htaken, List.findSome?_isSome_iff, mem_declarators,
    isSome_declarationBinding?_iff, List.mem_filter, decide_eq_true_eq]
  constructor
  case mp =>
    rintro ⟨d, ⟨hd, hkind⟩, v, hv, hvkind, hdeclares⟩
    exact ⟨d, v, ⟨hd, hkind, hv, hvkind⟩, hdeclares, trivial⟩
  case mpr =>
    rintro ⟨d, v, ⟨hd, hkind, hv, hvkind⟩, hdeclares, -⟩
    exact ⟨d, ⟨hd, hkind⟩, v, hv, hvkind, hdeclares⟩

theorem isSome_resourceBinding?_iff {resources : List Node} :
    ((resources.filter (·.span.start < span.start)).find? (s.declares · name)).isSome = true ↔
      ∃ v ∈ resources.map n.ofResource, s.hasName v name = true ∧ IsTaken v span := by
  simp only [List.find?_isSome, List.mem_filter, decide_eq_true_eq, List.mem_map,
    exists_exists_and_eq_and, isTaken_ofResource, and_assoc]
  exact exists_congr fun resource => and_congr_right fun _ => and_comm

-- What a construct binds a name to, fields and patterns aside, is a variable that it declares.
theorem isSome_constructBinding?_iff (h : n.Sound text) (hcovers : n.span.covers span = true)
    (hfield : ¬s.HasField n name) (hcase : s.caseBinding? n name = none) :
    (s.constructBinding? n name span.start).isSome = true ↔
      ∃ v ∈ n.declared, s.hasName v name = true ∧ IsTaken v span := by
  have hstop : span.stop ≤ n.span.stop := by
    simp only [Span.covers, Bool.and_eq_true, decide_eq_true_eq] at hcovers
    exact hcovers.right
  rw [constructBinding?]
  split
  case h_1 hkind | h_2 hkind =>
    rw [Node.declared, hkind]
    exact isSome_blockBinding?_iff_isTaken h hstop
  case h_3 hkind =>
    rw [Node.declared, hkind, hcase, Option.or_none]
    exact isSome_blockBinding?_iff_isTaken h hstop
  case h_4 hkind =>
    rw [Node.declared, hkind, hcase]
    simp
  case h_5 hkind =>
    rw [Node.declared, hkind]
    exact isSome_switchBinding?_iff h hstop
  case h_6 hkind | h_7 hkind =>
    rw [Node.declared, hkind]
    dsimp only
    rw [exists_mem_map_ofBody]
    cases n.child? .parameters with
    | none => simp
    | some parameters => simp [isSome_parametersBinding?_iff]
  case h_8 hkind =>
    rw [Node.declared, hkind]
    dsimp only
    rw [exists_mem_map_ofBody]
    cases n.child? .parameters with
    | none => simp
    | some parameters => simp [isSome_lambdaBinding?_iff]
  case h_9 hkind =>
    rw [Node.declared, hkind]
    dsimp only
    exact isSome_forBinding?_iff hstop
  case h_10 hkind =>
    rw [Node.declared, hkind, Option.isSome_ite]
    simp only [List.mem_singleton, exists_eq_left, isTaken_ofBody, and_true]
    rfl
  case h_11 hkind =>
    rw [Node.declared, hkind, catchBinding?]
    dsimp only
    rw [exists_mem_map_ofBody]
    cases n.namedChildren.find? (·.kind = .catchFormalParameter) with
    | none => simp
    | some parameter =>
      simp only [Option.toList_some, List.mem_singleton, exists_eq_left, Option.isSome_ite]
      rfl
  case h_12 hkind =>
    rw [Node.declared, hkind]
    dsimp only
    cases n.child? .resources with
    | none => simp
    | some resources =>
      rw [Option.bind_some, Option.isSome_map, Option.toList_some, List.flatMap_singleton]
      exact isSome_resourceBinding?_iff
  case h_13 hkind | h_14 hkind | h_15 hkind =>
    rw [isSome_fieldBinding?_iff, Node.declared, hkind]
    simp [hfield]
  case h_16 hblock hbody hgroup hrule hswitch hmethod hctor hlambda hfor heach hcatch htry _ _ _ =>
    rw [Node.declared]
    split
    case h_1 hkind => exact (hblock hkind).elim
    case h_2 hkind => exact (hbody hkind).elim
    case h_3 hkind => exact (hgroup hkind).elim
    case h_4 hkind => exact (hswitch hkind).elim
    case h_5 hkind => exact (hfor hkind).elim
    case h_6 hkind => exact (heach hkind).elim
    case h_7 hkind => exact (hcatch hkind).elim
    case h_8 hkind => exact (htry hkind).elim
    case h_9 hkind => exact (hmethod hkind).elim
    case h_10 hkind => exact (hctor hkind).elim
    case h_11 hkind => exact (hlambda hkind).elim
    case h_12 => simp

end Construct

section Search

-- The search looks at the constructs inside the primary class alone.
theorem isSome_bindingWithin?_iff {inner outer : List Site}
    (hprimary : s.isPrimaryBody body.node = true)
    (hinner : ∀ around ∈ inner, s.isPrimaryBody around.node = false)
    (hpattern : ∀ around ∈ inner, isPatternScope around = true →
      s.patternBinding? around site name = none) :
    (s.bindingWithin? site name (inner ++ body :: outer)).isSome = true ↔
      ∃ around ∈ inner, (s.constructBinding? around.node name site.span.start).isSome = true := by
  induction inner with
  | nil => simp [bindingWithin?, hprimary]
  | cons around inner ih =>
    have hrest := ih (fun t ht => hinner t (List.mem_cons_of_mem around ht))
      fun t ht => hpattern t (List.mem_cons_of_mem around ht)
    have hnone : (if isPatternScope around then s.patternBinding? around site name else none) =
        none := by
      split
      case isTrue hscope => exact hpattern around List.mem_cons_self hscope
      case isFalse => rfl
    rw [List.cons_append, bindingWithin?, hinner around List.mem_cons_self, if_neg (by decide),
      hnone, Option.or_none]
    simp only [List.mem_cons, exists_eq_or_imp, ← hrest]
    cases s.constructBinding? around.node name site.span.start with
    | none => simp
    | some b => simp

theorem kind_of_tree? {text : List Char} {root : Node} (h : tree? text = some root) :
    root.kind = .program := by
  simp only [tree?, Option.bind_eq_bind, Option.bind_eq_some_iff] at h
  obtain ⟨_, -, _, -, hroot⟩ := h
  cases hroot
  rfl

theorem kind_tree_of_parse {source : String} {wanted : Option String}
    (h : parse source wanted = .ok s) : s.tree.kind = .program := by
  simp only [parse] at h
  split at h
  case h_1 => cases h
  case h_2 root hroot =>
    split at h
    case h_1 => cases h
    case h_2 =>
      cases h
      exact kind_of_tree? hroot

-- Neither the primary class nor what stands around it declares a variable.
theorem declared_of_around {source : String} {wanted : Option String} {around : Site}
    (hparse : parse source wanted = .ok s) (hbody : s.classBody? = some body)
    (h : around ∈ body :: body.ancestors) : around.node.declared = [] := by
  obtain ⟨-, declaration, -, hsite, hkind, hsound, -⟩ := exists_classSite_of_parse hparse
  obtain ⟨primary, hprimary, -⟩ := exists_primaryBody_of_parse hparse
  obtain rfl : primary = body := Option.some.inj (hprimary.found.symm.trans hbody)
  rw [classBody?, hsite, Option.bind_some] at hbody
  obtain ⟨n, -, rfl⟩ := Option.map_eq_some_iff.mp hbody
  change around ∈ [((Site.root s.tree).below declaration).below n,
    (Site.root s.tree).below declaration, Site.root s.tree] at h
  simp only [List.mem_cons, List.not_mem_nil, or_false] at h
  obtain rfl | rfl | rfl := h
  · rw [Node.declared, hprimary.isClassBody.kind]
  · rw [Site.below, Node.declared, hkind]
  · rw [Site.root, Node.declared, kind_tree_of_parse hparse]

end Search

section Reference

-- A site in the primary class that may mean a field, if no variable has the name: an identifier
-- where an expression can stand, not in a type that declares the name, and not bound by a pattern.
structure MayMean (s : JavaSource) (body site : Site) (field : Field) : Prop where
  inside : site ∈ body.preorder
  kind : site.kind = .identifier
  found : s.model.field? (s.textAt site) = some field
  position : isExpressionName site = true
  nested : ∀ t ∈ site.ancestors, s.HasField t.node (s.textAt site) →
    s.isPrimaryBody t.node = true
  pattern : ¬s.PatternBound (s.textAt site) site

-- The label of a case with the name of a field that is not static is read as a constant of an enum.
def IsEnumLabel (field : Field) (site : Site) : Prop :=
  site.parent?.any (·.kind = .switchLabel) = true ∧ field.isStatic = false

instance (field : Field) (site : Site) : Decidable (IsEnumLabel field site) :=
  inferInstanceAs (Decidable (_ ∧ _))

section MayMean

variable {field : Field} {around : Site}

-- A construct around such a site binds the name if it declares a variable that it is taken for.
theorem MayMean.isSome_constructBinding?_iff (h : s.MayMean body site field)
    (hbody : s.PrimaryBody body) (haround : around ∈ site.ancestors)
    (hbetween : Between body site around) :
    (s.constructBinding? around.node (s.textAt site) site.span.start).isSome = true ↔
      ∃ v ∈ around.node.declared, s.hasName v (s.textAt site) = true ∧ IsTaken v site.span := by
  have hsound := Site.sound_of_mem_preorder hbody.sound hbetween.inside
  have hcovers := Site.covers_of_mem_preorder hsound hbetween.mem
  refine JavaSource.isSome_constructBinding?_iff hsound hcovers (fun hfield => ?_) ?_
  · have hprimary := h.nested around haround hfield
    rw [hbody.isPrimaryBody_eq_false hbetween.inside hbetween.ne (Site.self_mem_preorder around)]
      at hprimary
    cases hprimary
  · rw [← Option.not_isSome_iff_eq_none]
    exact fun hcase => h.pattern ⟨around, haround, .inl hcase⟩

theorem MayMean.patternBinding?_eq_none (h : s.MayMean body site field)
    (haround : around ∈ site.ancestors) (hscope : isPatternScope around = true) :
    s.patternBinding? around site (s.textAt site) = none := by
  rw [← Option.not_isSome_iff_eq_none]
  exact fun hpattern => h.pattern ⟨around, haround, .inr ⟨hscope, hpattern⟩⟩

theorem MayMean.ne_body (h : s.MayMean body site field) (hbody : s.PrimaryBody body) :
    site ≠ body := by
  rintro rfl
  have hkind := h.kind
  rw [Site.kind, hbody.isClassBody.kind] at hkind
  cases hkind

-- The search binds the name to a variable in its scope, or beside it where it is mistaken.
theorem isSome_localBinding?_iff {source : String} {wanted : Option String}
    (hparse : parse source wanted = .ok s) (hbody : s.classBody? = some body)
    (h : s.MayMean body site field) : (s.localBinding? site (s.textAt site)).isSome = true ↔
      s.InScope (s.textAt site) site ∨ s.Mistaken (s.textAt site) site := by
  obtain ⟨primary, hprimary, -⟩ := exists_primaryBody_of_parse hparse
  obtain rfl : primary = body := Option.some.inj (hprimary.found.symm.trans hbody)
  obtain ⟨inner, hancestors, hbetween⟩ := exists_ancestors_eq h.inside (h.ne_body hprimary)
  have haround (t : Site) (ht : t ∈ inner) : t ∈ site.ancestors :=
    hancestors ▸ List.mem_append_left _ ht
  have hbound (t : Site) (ht : t ∈ inner) :=
    h.isSome_constructBinding?_iff hprimary (haround t ht) (hbetween t ht)
  have hinner {t : Site} {v : Variable} (ht : t ∈ site.ancestors) (hv : v ∈ t.node.declared) :
      t ∈ inner := by
    refine (List.mem_append.mp (hancestors ▸ ht)).resolve_right fun houter => ?_
    rw [declared_of_around hparse hbody houter] at hv
    cases hv
  rw [localBinding?, hancestors, isSome_bindingWithin?_iff hprimary.isPrimaryBody_self]
  constructor
  case mp =>
    rintro ⟨t, ht, hconstruct⟩
    obtain ⟨v, hv, hname, hscope | hmistaken⟩ := (hbound t ht).mp hconstruct
    · exact .inl ⟨t, haround t ht, v, hv, hname, hscope⟩
    · exact .inr ⟨t, haround t ht, v, hv, hname, hmistaken⟩
  case mpr =>
    rintro (⟨t, ht, v, hv, hname, hscope⟩ | ⟨t, ht, v, hv, hname, hmistaken⟩)
    · have ht := hinner ht hv
      exact ⟨t, ht, (hbound t ht).mpr ⟨v, hv, hname, .inl hscope⟩⟩
    · have ht := hinner ht hv
      exact ⟨t, ht, (hbound t ht).mpr ⟨v, hv, hname, .inr hmistaken⟩⟩
  case hinner =>
    intro t ht
    have hsite := hbetween t ht
    exact hprimary.isPrimaryBody_eq_false hsite.inside hsite.ne (Site.self_mem_preorder t)
  case hpattern => exact fun t ht => h.patternBinding?_eq_none (haround t ht)

end MayMean

-- An identifier is taken for a field unless a variable of its name is in scope, or it stands beside
-- the scope of one, where it is taken for the variable.
theorem refers_iff {source : String} {wanted : Option String} {field : Field}
    (hparse : parse source wanted = .ok s) (hbody : s.classBody? = some body)
    (h : s.MayMean body site field) : s.fieldReference? site = some ⟨field, site, .bare⟩ ↔
      ¬s.InScope (s.textAt site) site ∧ ¬s.Mistaken (s.textAt site) site ∧
        ¬IsEnumLabel field site := by
  have hfound : s.model.field? (s.spelling site.node) = some field := h.found
  have hname : s.textAt site = field.name := by
    have htest := List.find?_some hfound
    exact (of_decide_eq_true htest).symm
  rw [← and_assoc, ← not_or, ← isSome_localBinding?_iff hparse hbody h, hname, fieldReference?,
    h.kind]
  cases hbound : s.localBinding? site field.name with
  | none => simp [hfound, h.position, hbound, IsEnumLabel]
  | some b => simp [hfound, h.position, hbound]

def isCandidate (s : JavaSource) (field : Field) (site : Site) : Bool :=
  site.kind = .identifier && s.model.field? (s.textAt site) = some field &&
    isExpressionName site && !decide (s.PatternBound (s.textAt site) site) &&
      decide (∀ t ∈ site.ancestors, s.HasField t.node (s.textAt site) →
        s.isPrimaryBody t.node = true)

theorem mayMean_of_isCandidate {field : Field} (hinside : site ∈ body.preorder)
    (h : s.isCandidate field site = true) : s.MayMean body site field := by
  simp only [isCandidate, Bool.and_eq_true, decide_eq_true_eq, Bool.not_eq_true',
    decide_eq_false_iff_not] at h
  obtain ⟨⟨⟨⟨hkind, hfound⟩, hposition⟩, hpattern⟩, hnested⟩ := h
  exact ⟨hinside, hkind, hfound, hposition, hnested, hpattern⟩

def shadowedSource : String :=
  "class A\x7bint x;int m()\x7bint y=x;int x=2;return x;\x7d\x7d"

theorem refers_iff_shadowed : ∃ s body field before behind,
    parse shadowedSource none = .ok s ∧ s.classBody? = some body ∧
      s.MayMean body before field ∧ s.fieldReference? before = some ⟨field, before, .bare⟩ ∧
        s.MayMean body behind field ∧ s.fieldReference? behind ≠ some ⟨field, behind, .bare⟩ := by
  obtain ⟨s, hparse, hcheck⟩ := exists_parse_of_check shadowedSource
    (fun s => s.classBody?.any fun body => (s.model.field? "x").any fun field =>
      (body.preorder.any fun site => s.isCandidate field site &&
        decide (¬s.InScope (s.textAt site) site ∧ ¬s.Mistaken (s.textAt site) site ∧
          ¬IsEnumLabel field site)) &&
      body.preorder.any fun site => s.isCandidate field site &&
        decide (s.InScope (s.textAt site) site))
    (by decide +kernel)
  simp only [Bool.and_eq_true, Option.any_eq_true, List.any_eq_true, decide_eq_true_eq] at hcheck
  obtain ⟨body, hbody, field, -, ⟨before, hbefore, hfirst, hplace⟩, behind, hbehind, hlast,
    hscope⟩ := hcheck
  have hfirst := mayMean_of_isCandidate hbefore hfirst
  have hlast := mayMean_of_isCandidate hbehind hlast
  exact ⟨s, body, field, before, behind, hparse, hbody, hfirst,
    (refers_iff hparse hbody hfirst).mpr hplace, hlast,
    fun h => ((refers_iff hparse hbody hlast).mp h).left hscope⟩

-- In the class that a source declares, an identifier is not taken for the field that it means.
def Loses (source : String) : Prop := ∃ s body field site,
  parse source none = .ok s ∧ s.classBody? = some body ∧ s.MayMean body site field ∧
    ¬s.InScope (s.textAt site) site ∧ ¬IsEnumLabel field site ∧ s.fieldReference? site = none

def isLoss (s : JavaSource) : Bool :=
  s.classBody?.any fun body => (s.model.field? "x").any fun field =>
    body.preorder.any fun site => s.isCandidate field site &&
      decide (¬s.InScope (s.textAt site) site ∧ ¬IsEnumLabel field site) &&
        (s.fieldReference? site).isNone

theorem loses_of_isLoss (source : String)
    (h : (parse source none).toOption.any isLoss = true) : Loses source := by
  obtain ⟨s, hparse, hcheck⟩ := exists_parse_of_check source isLoss h
  simp only [isLoss, Bool.and_eq_true, Option.any_eq_true, List.any_eq_true, decide_eq_true_eq,
    Option.isNone_iff_eq_none] at hcheck
  obtain ⟨body, hbody, field, -, site, hsite, ⟨hcandidate, hscope, hlabel⟩, hnone⟩ := hcheck
  exact ⟨s, body, field, site, hparse, hbody, mayMean_of_isCandidate hsite hcandidate, hscope,
    hlabel, hnone⟩

-- A loop goes through the field, the field is used behind the body of a `try`, and it stands in a
-- declaration in front of the declarator of the variable.
theorem loses_beside_scope :
    Loses "class A\x7bint[]x;void m()\x7bfor(int x:x)\x7b\x7d\x7d\x7d" ∧
      Loses "class A\x7bR x;void m()\x7btry(R x=f())\x7b\x7dfinally\x7bx=f();\x7d\x7d\x7d" ∧
        Loses "class A\x7bint x;void m()\x7bint y=x,x=3;\x7d\x7d" :=
  ⟨loses_of_isLoss _ (by decide +kernel), loses_of_isLoss _ (by decide +kernel),
    loses_of_isLoss _ (by decide +kernel)⟩

end Reference

end JavaSource

end ClassSplit
