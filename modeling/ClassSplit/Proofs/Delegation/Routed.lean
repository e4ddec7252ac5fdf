import ClassSplit.Proofs.Delegation.Body
import ClassSplit.Proofs.Delegation.ReroutedBlock
import ClassSplit.Proofs.Delegation.Setter
import ClassSplit.Proofs.Delegation.Update

/-!
Which replacements stand in the body of a method that stays, where it consists of statements over
integral fields that have moved: a read is a call of the getter, a step the call of the method that
does the same, and an assignment a call of the setter. Main statements: `Stays.getter_mem`,
`Stays.change_mem`.
-/

namespace ClassSplit

open Java Replacement

theorem NameMap.mem_of_get? {α : Type} {m : NameMap α} {name : String} {value : α}
    (h : m.get? name = some value) : (name, value) ∈ m.entries := by
  obtain ⟨before, after, hentries, -⟩ := List.lookup_eq_some_iff.mp h
  rw [hentries]
  simp

theorem JavaSource.spelling_of_name {s : JavaSource} {n : Node} {word : String}
    (h : n.phrase? = some (.expression (.read (.name word)))) : s.spelling n = word := by
  cases Node.isRead_of_phrase? h with
  | leaf h =>
    cases h
    rfl
  | branch h => cases h

/-- The names by which a field is reached. -/
def Route.accessors (r : Route) : Accessors where
  getter := r.nameOf .getter
  setter := some (r.nameOf .setter)
  increments := some
    { increment := r.nameOf .increment
      postIncrement := r.nameOf .postIncrement
      decrement := r.nameOf .decrement
      postDecrement := r.nameOf .postDecrement }

namespace Routing

variable (R : Routing)

/-- Whether a variable is a parameter or a field that is reached through the helper. -/
def knows (x : Holder) : Bool :=
  (R.route? x).isSome ||
    match x with
    | .name word => R.isParameter word
    | .own _ => false

/-- An expression over parameters, literals and fields that are reached through the helper. -/
def admits : Expression → Bool
  | .literal _ => true
  | .read x => R.knows x
  | .grouped e => admits e
  | .binary _ left right => admits left && admits right
  | .step _ _ x => (R.route? x).isSome
  | .cast .. | .call .. => false

/-- A statement that changes such fields. No constant is assigned to a field of a small type, which
would be narrowed by the assignment alone. -/
def admitsStatement : Statement → Bool
  | .assign x e =>
    (R.route? x).any (fun r => !(e.isConstant && r.type.isSmall)) && R.admits e
  | .combine x _ e => (R.route? x).isSome && R.admits e
  | .evaluate e => R.admits e
  | .send .. => false

variable {R}

theorem isLocal_of_admits {e : Expression} (h : R.admits e = true) : e.IsLocal := by
  induction e with
  | literal | read | step => trivial
  | grouped e ih => exact ih h
  | binary o left right ihl ihr =>
    obtain ⟨hl, hr⟩ := Bool.and_eq_true_iff.mp h
    exact ⟨ihl hl, ihr hr⟩
  | cast | call => cases h

theorem accepts_of_admitsStatement {t : Statement} (h : R.admitsStatement t = true) :
    R.Accepts t := by
  cases t with
  | assign x e =>
    obtain ⟨hroute, he⟩ := Bool.and_eq_true_iff.mp h
    refine ⟨isLocal_of_admits he, fun r hr hconstant => ?_⟩
    rw [hr, Option.any_some, hconstant, Bool.true_and, Bool.not_eq_true'] at hroute
    exact hroute
  | combine x o e => exact isLocal_of_admits (Bool.and_eq_true_iff.mp h).right
  | evaluate e => exact isLocal_of_admits h
  | send => cases h

end Routing

namespace Java

variable {text : List Char} {n m : Node} {e : Expression} {x : Holder}

theorem Kind.of_literal {kind : Kind} (h : isIntegerLiteralKind kind = true) :
    kind.isOperand = true ∧ kind ≠ .superWord := by
  cases kind
  all_goals first | exact ⟨rfl, by decide⟩ | cases h

theorem Node.kind_of_expression (h : n.phrase? = some (.expression e)) :
    n.kind.isOperand = true ∧ n.kind ≠ .superWord := by
  cases isRead_of_phrase? h with
  | leaf h =>
    cases h with
    | name => exact ⟨rfl, nofun⟩
    | literal hv => exact Kind.of_literal (isIntegerLiteralKind_of_literal? hv)
  | branch h =>
    cases h
    all_goals exact ⟨rfl, nofun⟩

theorem Node.isMark_of_expression (h : n.phrase? = some (.expression e)) : n.isMark = false :=
  isMark_of_kind_ne fun word hkind => by
    have hoperand := (kind_of_expression h).left
    rw [hkind] at hoperand
    cases hoperand

theorem Node.isNamed_of_expression (h : n.phrase? = some (.expression e)) : n.isNamed = true :=
  Kind.isNamed_of_isOperand (kind_of_expression h).left

theorem Node.isNamed_of_mark {word : String} (h : n.phrase? = some (.mark word)) :
    n.isNamed = false := by
  obtain ⟨-, hkind⟩ := of_phrase?_mark h
  rw [isNamed, hkind]
  rfl

-- The first named child that is no comment.
theorem Node.find?_namedChildren (n : Node) :
    n.namedChildren.find? (!·.isComment) = n.parts.find? (·.isNamed) := by
  rw [namedChildren, parts, ← List.head?_filter, ← List.head?_filter, List.filter_filter,
    List.filter_filter]
  refine congrArg List.head? (List.filter_congr fun m _ => Bool.and_comm _ _)

-- The parts that a field of the object that runs is written with.
theorem Node.Composed.children_of_own {field : String} (h : n.Composed text)
    (hp : n.phrase? = some (.expression (.read (.own field)))) :
    ∃ object name, n.child? .object = some object ∧ object.kind = .thisWord ∧
      n.child? .field = some name ∧
        name.phrase? = some (.expression (.read (.name field))) := by
  obtain ⟨hkind, object, dot, name, hparts, hobject, -, hname⟩ := parts_of_own hp
  have harranged := h.arranged (children_ne_nil_of_mem_parts (hparts ▸ List.mem_cons_self))
  rw [hkind, hparts] at harranged
  obtain ⟨hfirst, hdot, hsecond⟩ := Divided.roles harranged
    (isMark_of_kind_ne (by simp [hobject])) (by simp [hobject]) (isMark_of_expression hname)
  refine ⟨object, name, ?_, hobject, ?_, hname⟩
  all_goals
    rw [h.child?_eq, hparts]
    simp [hfirst, hdot, hsecond]

-- The parts of an assignment.
theorem Node.Composed.children_of_assignment {first sign second : Node} {target : Expression}
    (h : n.Composed text) (hkind : n.kind = .assignmentExpression)
    (hparts : n.parts = [first, sign, second])
    (hfirst : first.phrase? = some (.expression target))
    (hsecond : second.phrase? = some (.expression e)) :
    n.child? .left = some first ∧ n.child? .operator = some sign ∧
      n.child? .right = some second := by
  have harranged := h.arranged (children_ne_nil_of_mem_parts (hparts ▸ List.mem_cons_self))
  rw [hkind, hparts] at harranged
  obtain ⟨hleft, hsign, hright⟩ := Divided.roles harranged (isMark_of_expression hfirst)
    (kind_of_expression hfirst).right (isMark_of_expression hsecond)
  refine ⟨?_, ?_, ?_⟩
  all_goals
    rw [h.child?_eq, hparts]
    simp [hleft, hsign, hright]

namespace Site

variable {block t : Site}

-- A place for an expression: a part of a statement in a block or of another expression there.
structure IsInner (block t : Site) : Prop where
  exists_around : ∃ u n, block.Reaches u ∧ u.kind.isQuiet = true ∧ u.kind ≠ .fieldAccess ∧
    n ∈ u.node.children ∧ t = u.below n

namespace IsInner

variable (h : block.IsInner t)

include h

theorem reaches : block.Reaches t := by
  obtain ⟨u, n, hu, hkind, -, hn, rfl⟩ := h.exists_around
  exact .part hu hkind hn

theorem below (hkind : t.kind.isQuiet = true) (hne : t.kind ≠ .fieldAccess)
    (hn : n ∈ t.node.children) : block.IsInner (t.below n) :=
  ⟨t, n, h.reaches, hkind, hne, hn, rfl⟩

end IsInner

end Site

end Java

-- The expression in a pair of parentheses.
theorem insideParentheses_of_parts {t : Site} {opening inner closing : Node} {e : Expression}
    (hkind : t.kind = .parenthesizedExpression) (hparts : t.node.parts = [opening, inner, closing])
    (hopening : opening.phrase? = some (.mark "("))
    (hinner : inner.phrase? = some (.expression e)) :
    insideParentheses t = insideParentheses (t.below inner) := by
  have hfind : t.node.namedChildren.find? (!·.isComment) = some inner := by
    rw [Node.find?_namedChildren, hparts]
    simp [Node.isNamed_of_mark hopening, Node.isNamed_of_expression hinner]
  rw [insideParentheses, if_pos hkind]
  split
  case h_1 k hk =>
    rw [hfind] at hk
    cases hk
    rfl
  case h_2 hnone =>
    rw [hfind] at hnone
    cases hnone

-- What is inside the parentheses of a variable in parentheses is the variable.
theorem insideParentheses_of_variable? {block t : Site} {e : Expression} {x : Holder}
    (h : block.IsInner t) (hp : t.node.phrase? = some (.expression e)) (hx : e.variable? = some x) :
    (insideParentheses t).node.phrase? = some (.expression (.read x)) ∧
      block.IsInner (insideParentheses t) ∧
        (insideParentheses t).kind ≠ .parenthesizedExpression := by
  induction e generalizing t with
  | read y =>
    cases hx
    have hne : t.kind ≠ .parenthesizedExpression := by
      cases x with
      | name word => simp [Site.kind, (Node.kind_of_name hp).left]
      | own field => simp [Site.kind, (Node.parts_of_own hp).left]
    rw [insideParentheses, if_neg hne]
    exact ⟨hp, h, hne⟩
  | grouped e ih =>
    obtain ⟨hkind, opening, inner, closing, hparts, hopening, hinner, -⟩ := Node.parts_of_grouped hp
    have hmem : inner ∈ t.node.children := (Node.mem_parts.mp (hparts ▸ by simp)).left
    rw [insideParentheses_of_parts hkind hparts hopening hinner]
    exact ih (h.below (by simp [Site.kind, hkind]) (by simp [Site.kind, hkind]) hmem) hinner hx
  | literal | binary | step | cast | call => cases hx

namespace Delegation

variable {d : Delegation} {source : String} {body t : Site} {declaration n : Node} {p : Patch}
  {stubs references : List Replacement} {removals : FieldRemovals} {shared : List Nat}
  {deleted : List Span} {R : Routing} {x : Holder} {r : Route} {e : Expression}

-- How the fields that move are reached. Of those in the routing none has an accessor that it shares
-- with a moved method, and none is final.
structure Routes (d : Delegation) (declaration : Node) (R : Routing) : Prop where
  helper : d.helper = some R.helper
  isParameter : ∀ word, R.isParameter word = true ↔
    word ∈ (JavaSource.readParameters d.source.text declaration).map (·.name)
  route : ∀ word r, R.route word = some r → ∃ f, d.fields.get? word = some f ∧
    f.accessors = some r.accessors ∧ f.field.type = r.type.word

theorem Routes.exists_field (h : d.Routes declaration R) (hd : d.OfSource source) {word : String}
    (hr : R.route word = some r) : ∃ f field, d.source.model.field? word = some field ∧
      field.name = word ∧ d.fields.get? word = some f ∧ f.accessors = some r.accessors ∧
        f.field.type = r.type.word := by
  obtain ⟨f, hf, haccessors, htype⟩ := h.route word r hr
  obtain ⟨fields, hfields, hmap⟩ := hd.fields
  have hentry := NameMap.mem_of_get? hf
  obtain ⟨g, hg, heq⟩ := List.mem_map.mp (NameMap.mem_entries_ofList (hmap ▸ hentry))
  obtain ⟨hname, rfl⟩ := Prod.mk.inj heq
  cases hfield : d.source.model.field? word with
  | none =>
    have hno := List.find?_eq_none.mp hfield _ (hfields g hg)
    exact absurd hname (by simpa using hno)
  | some field => exact ⟨g, field, rfl, by simpa using List.find?_some hfield, hf, haccessors, htype⟩

namespace Stays

section Body

variable (hstays : d.Stays body declaration n) (hd : d.OfSource source)
  (h : d.Assembled body p stubs removals shared deleted references)
  (hroutes : d.Routes declaration R)

include hstays

-- A replacement of an expression of the body.
theorem mem_filter (ht : ((body.below declaration).below n).IsInner t) {r : Replacement}
    (hr : r ∈ p.replacements) (hspan : r.span = t.span) :
    r ∈ p.replacements.filter (n.span.covers ·.span) := by
  refine List.mem_filter.mpr ⟨hr, ?_⟩
  rw [hspan]
  exact Site.covers_of_mem_preorder (hstays.sound.of_mem_children hstays.mem_block)
    ht.reaches.mem_preorder

include hd hroutes

-- The field that a variable of the routing is, is the one that moves.
theorem exists_movedField? (ht : ((body.below declaration).below n).IsInner t)
    (hp : t.node.phrase? = some (.expression (.read x))) (hr : R.route? x = some r) :
    ∃ f, d.movedField? t = some f ∧ f.accessors = some r.accessors ∧
      f.field.type = r.type.word := by
  obtain ⟨word, hword, hr⟩ := Routing.exists_of_route?_eq_some hr
  obtain ⟨f, field, hfield, hname, hget, hf⟩ := hroutes.exists_field hd hr
  refine ⟨f, ?_, hf⟩
  cases x with
  | name x =>
    simp only [Routing.field?, Option.ite_none_left_eq_some, Bool.or_eq_true, not_or,
      Option.some.injEq] at hword
    obtain ⟨⟨hparameter, -⟩, rfl⟩ := hword
    obtain ⟨hkind, -⟩ := Node.kind_of_name hp
    obtain ⟨u, k, hu, hquiet, hne, hk, rfl⟩ := ht.exists_around
    have hnot : x ∉ (JavaSource.readParameters d.source.text declaration).map (·.name) :=
      fun hmem => hparameter ((hroutes.isParameter x).mpr hmem)
    rw [movedField?, hstays.quiet.fieldReference?_name ht.reaches hquiet hne hkind,
      JavaSource.spelling_of_name (n := k) hp, if_neg hnot, hfield, Option.map_some, Option.bind_some, hname,
      hget]
  | own x =>
    simp only [Routing.field?, Option.ite_none_left_eq_some, Option.some.injEq] at hword
    obtain ⟨-, rfl⟩ := hword
    obtain ⟨wanted, hparsed⟩ := hd.parsed
    have hcomposed := Site.composed_of_mem_preorder (hstays.quiet.primary.composed hparsed)
      (hstays.quiet.mem_preorder_of_reaches ht.reaches)
    obtain ⟨object, k, hobject, hthis, hk, hkname⟩ := hcomposed.children_of_own hp
    rw [movedField?, hstays.quiet.fieldReference?_own ht.reaches (Node.parts_of_own hp).left hobject
      hthis hk (Node.kind_of_name hkname).left, JavaSource.spelling_of_name hkname, hfield,
      Option.map_some, Option.bind_some, hname, hget]

omit hd in
-- Every other variable that is known is a parameter.
theorem movedField?_eq_none (ht : ((body.below declaration).below n).IsInner t)
    (hp : t.node.phrase? = some (.expression (.read x))) (hr : R.route? x = none)
    (hx : R.knows x = true) : d.movedField? t = none := by
  cases x with
  | name word =>
    simp only [Routing.knows, hr, Option.isSome_none, Bool.false_or] at hx
    obtain ⟨hkind, -⟩ := Node.kind_of_name hp
    obtain ⟨u, k, hu, hquiet, hne, hk, rfl⟩ := ht.exists_around
    rw [movedField?, hstays.quiet.fieldReference?_name ht.reaches hquiet hne hkind,
      JavaSource.spelling_of_name (n := k) hp, if_pos ((hroutes.isParameter word).mp hx), Option.bind_none]
  | own field => simp [Routing.knows, hr] at hx

include h

-- A read that no change has as its target becomes a call of the getter.
theorem getter_mem (ht : ((body.below declaration).below n).IsInner t)
    (hp : t.node.phrase? = some (.expression (.read x))) (hr : R.route? x = some r)
    (hun : ∀ c, operand? c ≠ some t) :
    .ofText t.span (R.helper ++ "." ++ r.nameOf .getter ++ "()") ∈
      p.replacements.filter (n.span.covers ·.span) := by
  obtain ⟨f, hmoved, haccessors, -⟩ := hstays.exists_movedField? hd hroutes ht hp hr
  obtain ⟨before, s, after, hsplit, haccounts, -⟩ := h.exists_unique_accounts hd
    (hstays.mem_remaining hd h ht.reaches.mem_preorder) (by simp [hmoved])
  have hmem : s ∈ p.replacements := by simp [hsplit]
  cases haccounts with
  | change _ target => exact absurd (operand?_of_changedReference? target) (hun _)
  | read reference _ read span =>
    rw [hmoved] at reference
    cases reference
    have hneed : d.needHelper = .ok R.helper := by rw [needHelper, hroutes.helper]
    rw [readReplacement, haccessors] at read
    simp only [hneed] at read
    cases read
    exact hstays.mem_filter ht hmem span

omit hroutes in
-- A change is replaced as a whole.
theorem change_mem {c : Site} {r : Replacement}
    (hc : ((body.below declaration).below n).IsInner c)
    (ht : d.changedReference? c = some t) (hr : d.changeReplacements c = .ok [r]) :
    r ∈ p.replacements.filter (n.span.covers ·.span) := by
  have hremains := hstays.mem_remaining hd h hc.reaches.mem_preorder
  have hoperand := operand?_of_changedReference? ht
  obtain ⟨before, s, after, hsplit, haccounts, -⟩ := h.exists_unique_accounts hd
    (h.operand_mem_remaining hd hremains hoperand) (isSome_movedField?_of_changedReference? ht)
  have hmem : s ∈ p.replacements := by simp [hsplit]
  cases haccounts with
  | read _ unchanged => exact absurd ht (unchanged c (Delegation.mem_remaining.mp hremains).left)
  | change mem target change span =>
    obtain rfl := operand?_unique hoperand (operand?_of_changedReference? target)
    rw [hr] at change
    cases change
    exact hstays.mem_filter hc hmem span

end Body

end Stays

end Delegation

end ClassSplit
