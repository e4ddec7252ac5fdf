import ClassSplit.Java.Tree
import ClassSplit.Proofs.Java.Lexer

/-!
Sound trees. Every token of the tree stands in the text where its span says; a construct spans its
children, which follow each other; and the constructs that changes of the source are made to have
the children that the grammar promises.
-/

namespace ClassSplit.Java

open Text

-- The kinds of constructs of which more is known than the order of their children.
@[reducible] def Kind.isConstruct : Kind → Bool
  | .assignmentExpression | .updateExpression | .fieldAccess | .methodInvocation
  | .methodDeclaration | .constructorDeclaration | .fieldDeclaration | .classBody
  | .classDeclaration | .formalParameters | .formalParameter | .spreadParameter
  | .variableDeclarator => true
  | _ => false

-- What may stand between the parentheses of a list of parameters, these included.
@[reducible] def Kind.isListed : Kind → Bool
  | .token _ | .lineComment | .blockComment | .receiverParameter | .formalParameter
  | .spreadParameter => true
  | _ => false

-- The kinds of types without annotations in front.
@[reducible] def Kind.isType : Kind → Bool
  | .voidType | .integralType | .floatingPointType | .booleanType | .typeIdentifier
  | .genericType | .scopedTypeIdentifier | .arrayType => true
  | _ => false

-- What a declaration with parameters ends with.
@[reducible] def Kind.isBody : Kind → Bool
  | .token _ | .block | .constructorBody => true
  | _ => false

-- The kinds that only tokens have, and whose names are words of the source.
@[reducible] def Kind.isWord : Kind → Bool
  | .identifier | .thisWord | .token _ => true
  | _ => false

-- The kinds of expressions: neither marks nor comments.
@[reducible] def Kind.isOperand : Kind → Bool
  | .token _ | .lineComment | .blockComment => false
  | _ => true

theorem Kind.isNamed_of_isOperand {kind : Kind} (h : kind.isOperand = true) :
    kind.isNamed = true := by
  cases kind
  all_goals first | rfl | cases h

@[reducible] def Kind.isShaped (kind : Kind) : Bool :=
  match kind.isWord with
  | true => true
  | false => kind.isConstruct

namespace Node

-- A token that is known by its text.
def isMark : Node → Bool
  | leaf (.token _) _ _ _ => true
  | _ => false

-- A token that is a mark or a comment.
def isSeparator : Node → Bool
  | leaf kind _ _ _ => !kind.isOperand
  | branch .. => false

theorem isSeparator_of_isMark {n : Node} (h : n.isMark = true) : n.isSeparator = true := by
  unfold isMark at h
  split at h
  case h_1 => rfl
  case h_2 => cases h

theorem of_isSeparator {n : Node} (h : n.isSeparator = true) :
    n.kind.isOperand = false ∧ n.children = [] := by
  unfold isSeparator at h
  split at h
  case h_1 => exact ⟨by simpa [kind] using h, rfl⟩
  case h_2 => cases h

structure IsClassBody (n : Node) : Prop where
  kind : n.kind = .classBody
  children : n.children ≠ []

-- A variable without a name is written as `_`.
def IsVariableName (n : Node) : Prop := n.kind = .identifier ∨ n.word = "_"

-- The children of a declaration that has a list of parameters.
structure Parameterized (ns : List Node) : Prop where
  exists_list : ∃ n ∈ ns, n.role = some .parameters
  kind : ∀ n ∈ ns, n.role = some .parameters → n.kind = .formalParameters
  last : ∀ n, ns.getLast? = some n → n.kind.isBody = true

-- The children of an increment or a decrement: the sign stands in front of the operand or behind it.
structure Signed (ns : List Node) (isIncrement isFront : Bool) : Prop where
  exists_sign : ∃ n, (if isFront then ns.head? else ns.getLast?) = some n ∧ n.isMark = true ∧
    n.kind = .token (if isIncrement then "++" else "--")
  exists_operand : ∃ n, (if isFront then ns.getLast? else ns.head?) = some n ∧
    n.kind.isOperand = true

theorem Signed.exists_mem {ns : List Node} {isIncrement isFront : Bool}
    (h : Signed ns isIncrement isFront) :
    ∃ n ∈ ns, n.isMark = true ∧ n.kind = .token (if isIncrement then "++" else "--") := by
  obtain ⟨n, hn, hsign⟩ := h.exists_sign
  refine ⟨n, ?_, hsign⟩
  cases isFront with
  | true => exact List.mem_of_head? hn
  | false => exact List.mem_of_getLast? hn

-- The children of a declaration of variables: behind the last variable nothing is declared.
structure Declares (ns : List Node) : Prop where
  exists_last : ∃ front last back, ns = front ++ last :: back ∧ last.kind = .variableDeclarator ∧
    ∀ n ∈ back, n.isSeparator = true
  mark : ∃ n, ns.getLast? = some n ∧ n.isMark = true

-- What the grammar promises of the children of a construct.
def Shape (kind : Kind) (ns : List Node) : Prop :=
  match kind with
  | .assignmentExpression =>
    (∃ n ∈ ns, n.isMark = true) ∧ (∃ n ∈ ns, n.role = some .operator) ∧
      ∃ n ∈ ns, n.role = some .right
  | .updateExpression => ∃ isIncrement isFront, Signed ns isIncrement isFront
  | .fieldAccess => ∃ n ∈ ns, n.isMark = true
  | .methodInvocation => ∀ n ∈ ns, n.role = some .name → n.kind = .identifier
  | .methodDeclaration =>
    (∃ n ∈ ns, n.role = some .name) ∧ (∀ n ∈ ns, n.role = some .name → n.kind = .identifier) ∧
      Parameterized ns
  | .constructorDeclaration => (∃ n ∈ ns, n.role = some .name) ∧ Parameterized ns
  | .fieldDeclaration => Declares ns
  | .classBody => ∃ n, ns.head? = some n ∧ n.isMark = true ∧ n.kind = .token "\x7b"
  | .classDeclaration =>
    (∃ n ∈ ns, n.role = some .body) ∧ ∀ n ∈ ns, n.role = some .body → n.IsClassBody
  | .formalParameters => ∀ n ∈ ns, n.kind.isListed = true
  | .formalParameter => (∃ n ∈ ns, n.role = some .type) ∧ ∃ n ∈ ns, n.role = some .name
  | .spreadParameter =>
    (∃ n ∈ ns, n.kind.isType = true) ∧ ∃ n ∈ ns, n.kind = .variableDeclarator
  | .variableDeclarator =>
    (∃ n ∈ ns, n.role = some .name) ∧ ∀ n ∈ ns, n.role = some .name → n.IsVariableName
  | .identifier | .thisWord | .token _ => False
  | _ => True

theorem shape_of_not_isShaped {kind : Kind} (h : kind.isShaped = false) (ns : List Node) :
    Shape kind ns := by
  unfold Shape
  split
  case h_17 => trivial
  all_goals cases h

theorem not_shape_of_isWord {kind : Kind} (h : kind.isWord = true) (ns : List Node) :
    ¬Shape kind ns := by
  unfold Kind.isWord at h
  split at h
  case h_4 => cases h
  all_goals exact id

inductive Sound (text : List Char) : Node → Prop where
  | leaf {kind : Kind} {role : Option Role} {span : Span} {word : String}
      (spelled : Spelled text span word)
      (solid : kind.isStringPart = false → Solid word.toList)
      (mark : ∀ mark, kind = .token mark → word = mark)
      (atomic : kind.isConstruct = false)
      (identifier : kind = .identifier → ∀ c ∈ word.toList, isIdentifierPart c = true) :
      Sound text (.leaf kind role span word)
  | branch {kind : Kind} {role : Option Role} {span : Span} {children : List Node}
      (fits : span.FitsIn text)
      (solid : Solid (slice text span))
      (first : children.head?.map (·.span.start) = some span.start)
      (last : children.getLast?.map (·.span.stop) = some span.stop)
      (inOrder : Span.InOrder span.start span.stop (children.map (·.span)))
      (shape : Shape kind children)
      (whole : kind.isShaped = true → ∀ n ∈ children, n.kind.isStringPart = false)
      (sound : ∀ n ∈ children, Sound text n) :
      Sound text (.branch kind role span children)

@[simp] theorem span_withRole (role : Role) (n : Node) : (n.withRole role).span = n.span := by
  cases n <;> rfl

@[simp] theorem kind_withRole (role : Role) (n : Node) : (n.withRole role).kind = n.kind := by
  cases n <;> rfl

@[simp] theorem children_withRole (role : Role) (n : Node) :
    (n.withRole role).children = n.children := by
  cases n <;> rfl

@[simp] theorem role_withRole (role : Role) (n : Node) : (n.withRole role).role = some role := by
  cases n <;> rfl

@[simp] theorem isMark_withRole (role : Role) (n : Node) :
    (n.withRole role).isMark = n.isMark := by
  cases n with
  | leaf kind => cases kind <;> rfl
  | branch => rfl

theorem exists_child? {role : Role} {n : Node}
    (h : ∃ c ∈ n.children, c.role = some role) :
    ∃ c, n.child? role = some c := by
  obtain ⟨c, hc, hrole⟩ := h
  cases hfind : n.child? role with
  | some c' => exact ⟨c', rfl⟩
  | none => exact absurd (decide_eq_true hrole) (List.find?_eq_none.mp hfind c hc)

namespace Sound

variable {text : List Char} {n : Node}

theorem fits (h : n.Sound text) : n.span.FitsIn text := by
  cases h with
  | leaf spelled => exact spelled.fits
  | branch fits => exact fits

theorem nonempty (h : n.Sound text) : n.span.start < n.span.stop := by
  cases h with
  | leaf spelled => exact spelled.nonempty
  | @branch kind role span children fits solid =>
    cases Nat.lt_or_eq_of_le fits.ordered with
    | inl hlt => exact hlt
    | inr heq =>
      obtain ⟨start, stop⟩ := span
      simp only at heq
      subst heq
      exact absurd (slice_point text start) solid.ne_nil

theorem solid (h : n.Sound text) (hkind : n.kind.isStringPart = false ∨ n.children ≠ []) :
    Solid (slice text n.span) := by
  cases h with
  | leaf spelled solid =>
    have hslice := spelled.slice
    cases hkind with
    | inl hkind => exact hslice ▸ solid hkind
    | inr hne => exact absurd rfl hne
  | branch fits solid => exact solid

theorem withRole (h : n.Sound text) (role : Role) : (n.withRole role).Sound text := by
  cases h with
  | leaf spelled solid mark atomic identifier =>
    exact .leaf spelled solid mark atomic identifier
  | branch fits solid first last inOrder shape whole sound =>
    exact .branch fits solid first last inOrder shape whole sound

theorem children_ne_nil (h : n.Sound text) (hkind : n.kind.isConstruct = true) :
    n.children ≠ [] := by
  cases h with
  | leaf _ _ _ atomic _ =>
    rw [kind, atomic] at hkind
    cases hkind
  | branch _ _ first =>
    rintro hnil
    rw [children] at hnil
    rw [hnil] at first
    cases first

theorem of_mem_children {c : Node} (h : n.Sound text) (hc : c ∈ n.children) : c.Sound text := by
  cases h with
  | leaf => cases hc
  | branch _ _ _ _ _ _ _ sound => exact sound c hc

theorem inOrder (h : n.Sound text) (hne : n.children ≠ []) :
    Span.InOrder n.span.start n.span.stop (n.children.map (·.span)) := by
  cases h with
  | leaf => exact absurd rfl hne
  | branch _ _ _ _ inOrder => exact inOrder

theorem shape (h : n.Sound text) (hne : n.children ≠ []) : Shape n.kind n.children := by
  cases h with
  | leaf => exact absurd rfl hne
  | branch _ _ _ _ _ shape => exact shape

theorem slice_of_isMark {word : String} (h : n.Sound text) (hmark : n.isMark = true)
    (hkind : n.kind = .token word) : slice text n.span = word.toList := by
  cases h with
  | leaf spelled _ mark =>
    rw [← mark word hkind]
    exact spelled.slice
  | branch => cases hmark

theorem start_of_head? {c : Node} (h : n.Sound text) (hc : n.children.head? = some c) :
    c.span.start = n.span.start := by
  cases h with
  | leaf => cases hc
  | branch _ _ first =>
    rw [children] at hc
    rw [hc, Option.map_some, Option.some.injEq] at first
    exact first

theorem stop_of_getLast? {c : Node} (h : n.Sound text) (hc : n.children.getLast? = some c) :
    c.span.stop = n.span.stop := by
  cases h with
  | leaf => cases hc
  | branch _ _ _ last =>
    rw [children] at hc
    rw [hc, Option.map_some, Option.some.injEq] at last
    exact last

theorem whole (h : n.Sound text) (hkind : n.kind.isShaped = true) :
    ∀ c ∈ n.children, c.kind.isStringPart = false := by
  cases h with
  | leaf => simp [children]
  | branch _ _ _ _ _ _ whole => exact whole hkind

end Sound

end Node

end ClassSplit.Java
