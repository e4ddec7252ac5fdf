import ClassSplit.Proofs.Model.Parameters
import ClassSplit.Proofs.Scope.Variable

/-!
Names in the body of a method that declares nothing. Between such a name and the body stand only
expressions and the statements that they are, so that the name means a parameter of the method if
there is one with it, and else a field of the class. Main statements: `QuietBody.fieldReference?_name`
and `QuietBody.fieldReference?_own`.
-/

namespace ClassSplit

open Java

-- The constructs in which nothing is declared.
@[reducible] def Java.Kind.isQuiet : Kind → Bool
  | .expressionStatement | .assignmentExpression | .updateExpression | .parenthesizedExpression
  | .binaryExpression | .fieldAccess => true
  | _ => false

-- The places that are reached from a block through such constructs.
inductive Java.Site.Reaches (block : Site) : Site → Prop
  | line {n : Node} (hn : n ∈ block.node.children) : Reaches block (block.below n)
  | part {t : Site} {n : Node} (h : Reaches block t) (hkind : t.kind.isQuiet = true)
    (hn : n ∈ t.node.children) : Reaches block (t.below n)

theorem Java.Site.Reaches.mem_preorder {block site : Site} (h : block.Reaches site) :
    site ∈ block.preorder := by
  induction h with
  | line hn => exact mem_preorder_of_mem_children (mem_children.mpr ⟨_, hn, rfl⟩)
  | part _ _ hn ih =>
    exact mem_preorder_trans ih (mem_preorder_of_mem_children (mem_children.mpr ⟨_, hn, rfl⟩))

namespace JavaSource

variable {s : JavaSource} {body block site t : Site} {declaration n : Node} {name : String}
  {above : List Site}

section Parameters

variable {text : List Char} {list : Node}

theorem parameterName?_of_namesParameter (h : n.Sound s.text)
    (hkind : n.kind.isParameter = true) :
    ∃ p, readParameter? s.text n = some p ∧ n.parameterName?.map s.spelling = some p.name := by
  obtain ⟨p, hp, -⟩ := exists_readParameter? h hkind
  refine ⟨p, hp, ?_⟩
  obtain hkind | hkind := of_decide_eq_true hkind
  · rw [readParameter?, hkind] at hp
    obtain ⟨type, -, hp⟩ := Option.bind_eq_some_iff.mp hp
    obtain ⟨name, hname, hp⟩ := Option.bind_eq_some_iff.mp hp
    cases hp
    rw [Node.parameterName?, hkind, hname]
    rfl
  · rw [readParameter?, hkind] at hp
    obtain ⟨type, -, hp⟩ := Option.bind_eq_some_iff.mp hp
    obtain ⟨declarator, hdeclarator, hp⟩ := Option.bind_eq_some_iff.mp hp
    obtain ⟨name, hname, hp⟩ := Option.bind_eq_some_iff.mp hp
    cases hp
    have hfind : n.namedChildren.find? (·.kind = .variableDeclarator) = some declarator := by
      rw [Node.childOfKind?, ← List.head?_filter] at hdeclarator
      rw [Node.namedChildren, ← List.head?_filter, List.filter_filter, ← hdeclarator]
      refine congrArg List.head? (List.filter_congr fun m _ => ?_)
      cases hm : decide (m.kind = .variableDeclarator) with
      | false => rfl
      | true => simp [Node.isNamed, of_decide_eq_true hm, Kind.isNamed]
    rw [Node.parameterName?, hkind, hfind, Option.bind_some, hname]
    rfl

-- The names that a method binds are those of its parameters.
theorem isSome_parametersBinding?_iff_mem (h : declaration.Sound s.text)
    (hkind : declaration.kind = .methodDeclaration ∨
      declaration.kind = .constructorDeclaration) :
    ((declaration.child? .parameters).bind (s.parametersBinding? · name)).isSome = true ↔
      name ∈ (readParameters s.text declaration).map (·.name) := by
  obtain ⟨list, hlist, hparameters⟩ := exists_parameters h hkind
  have hsound : ∀ n ∈ list.namedChildren, n.Sound s.text := fun n hn =>
    (h.of_mem_children (List.mem_of_find?_eq_some hlist)).of_mem_children (List.mem_filter.mp hn).left
  rw [hlist, Option.bind_some, isSome_parametersBinding?_iff, readParameters, hlist]
  simp only [List.mem_map, List.mem_filterMap]
  constructor
  case mp =>
    rintro ⟨n, hn, hname⟩
    have hparameter : n.kind.isParameter = true := by
      cases hkind : n.kind
      case formalParameter | spreadParameter => rfl
      all_goals
        rw [Node.parameterName?, hkind] at hname
        cases hname
    obtain ⟨p, hp, hpname⟩ := parameterName?_of_namesParameter (hsound n hn) hparameter
    obtain ⟨m, hm, heq⟩ := Option.map_eq_some_iff.mp hpname
    rw [hm, Option.any_some, beq_iff_eq, heq] at hname
    exact ⟨p, ⟨n, hn, hp⟩, hname⟩
  case mpr =>
    rintro ⟨p, ⟨n, hn, hp⟩, rfl⟩
    have hparameter : n.kind.isParameter = true := by
      by_contra hno
      rw [readParameter?_eq_none (by simpa using hno)] at hp
      cases hp
    obtain ⟨q, hq, hqname⟩ := parameterName?_of_namesParameter (hsound n hn) hparameter
    rw [hp] at hq
    cases hq
    obtain ⟨m, hm, heq⟩ := Option.map_eq_some_iff.mp hqname
    exact ⟨n, hn, by rw [hm, Option.any_some, beq_iff_eq, heq]⟩

end Parameters

-- Such constructs bind no name.
theorem bindingWithin?_cons_of_isQuiet (h : t.kind.isQuiet = true) :
    s.bindingWithin? site name (t :: above) = s.bindingWithin? site name above := by
  rw [bindingWithin?]
  unfold Site.kind at h
  cases hkind : t.node.kind
  case expressionStatement | assignmentExpression | updateExpression | parenthesizedExpression
    | binaryExpression | fieldAccess =>
    simp [isPrimaryBody, constructBinding?, isPatternScope, Site.kind, hkind]
  all_goals
    rw [hkind] at h
    cases h

theorem bindingWithin?_of_reaches (h : block.Reaches t) :
    s.bindingWithin? site name t.ancestors =
      s.bindingWithin? site name (block :: block.ancestors) := by
  induction h with
  | line => rfl
  | part _ hkind _ ih => exact (bindingWithin?_cons_of_isQuiet hkind).trans ih

theorem inPrimaryInstance_go_of_reaches (h : block.Reaches t) :
    inPrimaryInstance.go s t.ancestors = inPrimaryInstance.go s (block :: block.ancestors) := by
  induction h with
  | line => rfl
  | @part t n _ hkind _ ih =>
    rw [show (t.below n).ancestors = t :: t.ancestors from rfl, inPrimaryInstance.go]
    unfold Site.kind at hkind
    cases hquiet : t.node.kind
    case expressionStatement | assignmentExpression | updateExpression | parenthesizedExpression
      | binaryExpression | fieldAccess =>
      simpa [isPrimaryBody, Site.kind, hquiet] using ih
    all_goals
      rw [hquiet] at hkind
      cases hkind

-- A method with a block in which no variable is declared, and without a test whether something has a
-- type, which could declare one.
structure QuietBody (s : JavaSource) (body : Site) (declaration n : Node) : Prop where
  primary : s.PrimaryBody body
  member : declaration ∈ body.node.namedChildren
  kind : declaration.kind = .methodDeclaration ∨ declaration.kind = .constructorDeclaration
  isBody : declaration.child? .body = some n
  isBlock : n.kind = .block
  quiet : ∀ c ∈ n.children, c.kind ≠ .localVariableDeclaration
  untested : ∀ t ∈ (body.below declaration).preorder, t.kind ≠ .instanceofExpression

namespace QuietBody

variable (h : s.QuietBody body declaration n)

include h

-- The place of the block.
theorem mem_preorder : (body.below declaration).below n ∈ body.preorder :=
  Site.mem_preorder_trans
    (Site.mem_preorder_of_mem_children
      (Site.mem_children.mpr ⟨_, (List.mem_filter.mp h.member).left, rfl⟩))
    (Site.mem_preorder_of_mem_children
      (Site.mem_children.mpr ⟨_, List.mem_of_find?_eq_some h.isBody, rfl⟩))

theorem mem_preorder_of_reaches (ht : ((body.below declaration).below n).Reaches t) :
    t ∈ body.preorder :=
  Site.mem_preorder_trans h.mem_preorder ht.mem_preorder

theorem localBinding?_eq (ht : ((body.below declaration).below n).Reaches t) :
    s.localBinding? t name =
      (declaration.child? .parameters).bind (s.parametersBinding? · name) := by
  have hmember : ∀ m : Node, m.kind ≠ .classBody → s.isPrimaryBody m = false := by
    intro m hm
    simp [isPrimaryBody, hm]
  have hblock : s.constructBinding? n name t.span.start = none := by
    rw [constructBinding?, h.isBlock]
    change List.findSome? _ _ = none
    rw [show (n.namedChildren.filter fun c =>
        c.span.start < t.span.start && c.kind = .localVariableDeclaration) = [] from ?_]
    · rfl
    · refine List.filter_eq_nil_iff.mpr fun c hc => ?_
      simp [h.quiet c (List.mem_filter.mp hc).left]
  have hscope : isPatternScope ((body.below declaration).below n) = false := by
    have hne : declaration.kind ≠ .classBody := by
      obtain hkind | hkind := h.kind <;> simp [hkind]
    simp [isPatternScope, Site.kind, Site.parent?, Site.below, h.isBlock, hne]
  have hpattern : s.patternBinding? (body.below declaration) t name = none := by
    rw [patternBinding?, Option.map_eq_none_iff, List.find?_eq_none]
    intro test htest
    simp [h.untested test htest]
  have hparameters : s.constructBinding? declaration name t.span.start =
      (declaration.child? .parameters).bind (s.parametersBinding? · name) := by
    obtain hkind | hkind := h.kind <;> rw [constructBinding?, hkind]
  have hend : s.bindingWithin? t name (body :: body.ancestors) = none := by
    rw [bindingWithin?, if_pos h.primary.isPrimaryBody_self]
  have hne : declaration.kind ≠ .classBody := by
    obtain hkind | hkind := h.kind <;> simp [hkind]
  have hnode : s.isPrimaryBody n = false := hmember n (by simp [h.isBlock])
  rw [localBinding?, bindingWithin?_of_reaches ht, bindingWithin?,
    show ((body.below declaration).below n).node = n from rfl, if_neg (by simp [hnode]), hblock,
    hscope, Option.none_or, if_neg (by decide)]
  change s.bindingWithin? t name (body.below declaration :: body :: body.ancestors) = _
  rw [bindingWithin?, show (body.below declaration).node = declaration from rfl,
    if_neg (by simp [hmember _ hne]), hpattern, ite_self, Option.or_none, hparameters, hend]
  cases (declaration.child? .parameters).bind (s.parametersBinding? · name) <;> rfl

theorem inPrimaryInstance_eq (ht : ((body.below declaration).below n).Reaches t) :
    s.inPrimaryInstance t = true := by
  have hend : inPrimaryInstance.go s (body :: body.ancestors) = true := by
    rw [inPrimaryInstance.go, if_pos h.primary.isPrimaryBody_self]
  have hmember : inPrimaryInstance.go s (body.below declaration :: body :: body.ancestors) = true := by
    obtain hkind | hkind := h.kind
    all_goals simpa [inPrimaryInstance.go, isPrimaryBody, Site.kind, Site.below, hkind] using hend
  have hblock : ((body.below declaration).below n).node.kind = .block := h.isBlock
  have hancestors : ((body.below declaration).below n).ancestors =
      body.below declaration :: body :: body.ancestors := rfl
  rw [inPrimaryInstance, inPrimaryInstance_go_of_reaches ht, inPrimaryInstance.go, hancestors]
  simpa [isPrimaryBody, Site.kind, hblock] using hmember

-- A name alone that no parameter has means the field of that name.
theorem fieldReference?_name {k : Node} (ht : ((body.below declaration).below n).Reaches (t.below k))
    (hparent : t.kind.isQuiet = true) (hne : t.kind ≠ .fieldAccess)
    (hk : k.kind = .identifier) : s.fieldReference? (t.below k) =
      if s.spelling k ∈ (readParameters s.text declaration).map (·.name) then none
      else (s.model.field? (s.spelling k)).map fun field => ⟨field, t.below k, .bare⟩ := by
  have hexpression : isExpressionName (t.below k) = true ∧
      (t.below k).parent?.any (·.kind = .switchLabel) = false := by
    have hparent? : (t.below k).parent? = some t := rfl
    rw [isExpressionName, hparent?]
    cases hkind : t.kind
    case expressionStatement | assignmentExpression | updateExpression | parenthesizedExpression
      | binaryExpression => simp [hkind]
    case fieldAccess => exact absurd hkind hne
    all_goals
      rw [hkind] at hparent
      cases hparent
  have hsound := (h.primary.of_mem_children (List.mem_filter.mp h.member).left).left
  rw [fieldReference?, show (t.below k).kind = .identifier from hk,
    show (t.below k).node = k from rfl]
  cases hfield : s.model.field? (s.spelling k) with
  | none => simp
  | some field =>
    have hname : field.name = s.spelling k := by simpa using List.find?_some hfield
    simp only [Option.bind_eq_bind, Option.bind_some, hexpression.left, hexpression.right,
      Bool.not_true, Bool.false_and, if_neg Bool.false_ne_true, h.localBinding?_eq ht,
      isSome_parametersBinding?_iff_mem hsound h.kind, hname, Option.map_some]

-- A field of the object that runs, whatever the names of the parameters are.
theorem fieldReference?_own {object k : Node}
    (ht : ((body.below declaration).below n).Reaches t) (hkind : t.kind = .fieldAccess)
    (hobject : t.node.child? .object = some object) (hthis : object.kind = .thisWord)
    (hname : t.node.child? .field = some k) (hk : k.kind = .identifier) :
    s.fieldReference? t = (s.model.field? (s.spelling k)).map fun field => ⟨field, t, .this⟩ := by
  rw [fieldReference?, hkind]
  dsimp only
  rw [hobject, hname, Option.bind_eq_bind, Option.bind_some, Option.bind_some,
    if_neg (by simp [hk])]
  cases s.model.field? (s.spelling k) with
  | none => rfl
  | some field => simp [accessForm?, hthis, h.inPrimaryInstance_eq ht]

end QuietBody

end JavaSource

end ClassSplit
