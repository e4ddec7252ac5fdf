import ClassSplit.Proofs.Delegation.Routed

/-!
The body of a method that stays and consists of statements over integral fields that have moved.
Its reads, steps and assignments have become calls of the accessors, one for each, and all else is
left as it is. Main statement: `Stays.reroutedBlock`.
-/

namespace ClassSplit

open Java Replacement

namespace Java

variable {text : List Char} {n : Node} {e : Expression} {x : Holder}

-- The type of a literal is told by its last letter.
theorem type_of_literal? {kind : Kind} {word : String} {v : Value}
    (h : literal? kind word = some v) :
    v.type = if isLongLiteral word then .long else .int := by
  have hkind := isIntegerLiteralKind_of_literal? h
  cases kind
  case decimalIntegerLiteral | hexIntegerLiteral | binaryIntegerLiteral =>
    obtain ⟨-, heq⟩ := Option.ite_none_right_eq_some.mp h
    cases heq
    rfl
  case octalIntegerLiteral =>
    obtain ⟨-, h⟩ := Option.ite_none_right_eq_some.mp h
    obtain ⟨-, heq⟩ := Option.ite_none_right_eq_some.mp h
    cases heq
    rfl
  all_goals cases hkind

theorem isOperandKind_of_literal {kind : Kind} (h : isIntegerLiteralKind kind = true) :
    isOperandKind kind = true := by
  cases kind
  all_goals first | rfl | cases h

namespace Node

theorem isOperandKind_of_expression (h : n.phrase? = some (.expression e)) :
    isOperandKind n.kind = e.isOperand := by
  cases isRead_of_phrase? h with
  | leaf h =>
    cases h with
    | name => rfl
    | literal hv => exact isOperandKind_of_literal (isIntegerLiteralKind_of_literal? hv)
  | branch h =>
    cases h
    all_goals rfl

theorem isIntegerLiteralKind_of_expression (h : n.phrase? = some (.expression e))
    (hne : ∀ v, e ≠ .literal v) : isIntegerLiteralKind n.kind = false := by
  cases isRead_of_phrase? h with
  | leaf h =>
    cases h with
    | name => rfl
    | literal => exact absurd rfl (hne _)
  | branch h =>
    cases h
    all_goals rfl

-- The sign of a step, and its side.
theorem Signed.eq_of_step {isIncrement isFront isIncrement' isFront' : Bool}
    (h : Signed n.children isIncrement' isFront')
    (hp : n.phrase? = some (.expression (.step isIncrement isFront x))) :
    isIncrement' = isIncrement ∧ isFront' = isFront := by
  obtain ⟨-, sign, operand, e, hparts, hsign, he, -⟩ := parts_of_step hp
  obtain ⟨-, hsign⟩ := of_phrase?_mark hsign
  have hoperand := (kind_of_expression he).left
  obtain ⟨⟨sign', hfound, hmark, hkind⟩, operand', hfound', hoperand'⟩ := h
  have hhead : ∀ {m : Node}, n.children.head? = some m → m.isComment = false →
      n.parts.head? = some m := by
    intro m hm hcomment
    obtain ⟨ms, hms⟩ := List.head?_eq_some_iff.mp hm
    rw [parts, hms, List.filter_cons_of_pos (by simp [hcomment]), List.head?_cons]
  have hside : isFront' = isFront := by
    cases isFront' with
    | true =>
      have hfirst := hhead hfound (by rw [isComment, hkind]; rfl)
      cases isFront with
      | true => rfl
      | false =>
        rw [hparts] at hfirst
        obtain rfl := Option.some.inj hfirst
        rw [hkind] at hoperand
        cases hoperand
    | false =>
      have hcomment : operand'.isComment = false := by
        rw [isComment]
        cases hk : operand'.kind
        case lineComment | blockComment =>
          rw [hk] at hoperand'
          cases hoperand'
        all_goals rfl
      have hfirst := hhead hfound' hcomment
      cases isFront with
      | true =>
        rw [hparts] at hfirst
        obtain rfl := Option.some.inj hfirst
        rw [hsign] at hoperand'
        cases hoperand'
      | false => rfl
  refine ⟨?_, hside⟩
  have hmem : sign' ∈ n.parts := by
    refine mem_parts.mpr ⟨?_, by rw [isComment, hkind]; rfl⟩
    cases isFront' with
    | true => exact List.mem_of_head? hfound
    | false => exact List.mem_of_getLast? hfound
  obtain rfl : sign' = sign := by
    have heither : sign' = sign ∨ sign' = operand := by
      rw [hparts] at hmem
      cases isFront with
      | true => simpa using hmem
      | false => simpa [or_comm] using hmem
    refine heither.resolve_right fun heq => ?_
    rw [← heq, hkind] at hoperand
    cases hoperand
  rw [hsign] at hkind
  cases isIncrement
  all_goals
    cases isIncrement'
    all_goals first | rfl | exact absurd (Kind.token.inj hkind) (by decide)

end Node

end Java

-- Where the value of an operation is cast is told by the expression on its right.
theorem JavaSource.needsCast_eq {s : JavaSource} {right : Node} {e : Expression} {t : Integral}
    {o : Operator} (h : right.phrase? = some (.expression e)) :
    s.needsCast t.word o.sign right = Routing.needsCast t o e := by
  have hshift : ["<<", ">>", ">>>"].contains o.sign = o.isShift := by
    cases o
    all_goals decide
  have hlarge : ["int", "long"].contains t.word = (t == .int || t == .long) := by
    cases t
    all_goals decide
  have hknown : ["byte", "short", "char", "int", "long", "float"].all (· != t.word) = false := by
    cases t
    all_goals decide
  unfold JavaSource.needsCast Routing.needsCast
  rw [hshift, hlarge, hknown, if_neg (by decide)]
  cases o.isShift && (t == .int || t == .long) with
  | true => rfl
  | false =>
    rw [if_neg (by decide), Bool.not_false, Bool.true_and]
    by_cases hliteral : ∃ v, e = .literal v
    case pos =>
      obtain ⟨v, rfl⟩ := hliteral
      obtain ⟨hkind, hv⟩ := Node.kind_of_literal h
      have hspelling : s.spelling right = right.word := by
        cases Node.isRead_of_phrase? h with
        | leaf => rfl
        | branch h => cases h
      have htype := type_of_literal? hv
      rw [if_pos hkind, hspelling]
      cases t
      case int =>
        simp only [Integral.word, Integral.primitive, Primitive.word, htype]
        cases isLongLiteral right.word
        all_goals rfl
      all_goals rfl
    case neg =>
      have hkind := Node.isIntegerLiteralKind_of_expression h fun v hv => hliteral ⟨v, hv⟩
      rw [if_neg (by simp [hkind])]
      cases e with
      | literal v => exact absurd ⟨v, rfl⟩ hliteral
      | read | grouped | binary | step | cast | call => rfl

theorem JavaSource.spelling_of_mark {s : JavaSource} {n : Node} {word : String}
    (hn : n.Sound s.text) (h : n.phrase? = some (.mark word)) : s.spelling n = word := by
  obtain ⟨hmark, hkind⟩ := Node.of_phrase?_mark h
  cases Node.isRead_of_phrase? h with
  | leaf => exact hn.word_of_isMark hmark hkind
  | branch h => cases h

/-- The replacement of an expression around a field by a call without arguments. -/
def Routing.calling (R : Routing) (r : Route) (form : AccessorForm) (span : Span) : Replacement :=
  .ofText span (R.helper ++ "." ++ r.nameOf form ++ "()")

namespace Delegation

variable {d : Delegation} {source : String} {body t : Site} {declaration n : Node} {p : Patch}
  {stubs references : List Replacement} {removals : FieldRemovals} {shared : List Nat}
  {deleted : List Span} {R : Routing} {x : Holder} {r : Route} {e : Expression} {k : Node}

-- The operand of a change is not in a part of another construct.
theorem operand?_ne_of_around (hparentheses : t.kind ≠ .parenthesizedExpression)
    (hchange : operand? t ≠ some (insideParentheses (t.below k))) (c : Site) :
    operand? c ≠ some (insideParentheses (t.below k)) := by
  intro h
  have hfind := find?_ancestors_of_operand? h
  rw [find?_ancestors_insideParentheses, Site.ancestors_below,
    List.find?_cons_of_pos (by simp [hparentheses])] at hfind
  obtain rfl := Option.some.inj hfind
  exact hchange h

-- The right side of an assignment is not its operand.
theorem operand?_ne_of_right {text : List Char} {left right : Node} (ht : t.node.Sound text)
    (hkind : t.kind = .assignmentExpression) (hleft : t.node.child? .left = some left)
    (hright : right ∈ t.node.children) (hne : left ≠ right) (c : Site) :
    operand? c ≠ some (insideParentheses (t.below right)) := by
  refine operand?_ne_of_around (by simp [hkind]) ?_ c
  rw [operand?, hkind]
  simp only [Site.child?, hleft, Option.map_some, ne_eq, Option.some.injEq]
  intro heq
  have hmem := List.mem_of_find?_eq_some hleft
  have hcovers : ∀ k ∈ t.node.children,
      k.span.covers (insideParentheses (t.below k)).span = true := fun k hk =>
    Site.covers_of_mem_preorder (s := t.below k) (ht.of_mem_children hk)
      (insideParentheses_mem_preorder _)
  have hsound := Site.sound_of_mem_preorder (s := t.below right) (ht.of_mem_children hright)
    (insideParentheses_mem_preorder _)
  have hbeside := (ht.eq_or_beside hmem hright).resolve_left hne
  have hapart := hbeside.mono (heq ▸ hcovers left hmem) (Span.covers_refl _)
  exact hapart.symm.not_covers hsound.nonempty (hcovers right hright)

-- A compound assignment stores the value that is computed for it.
theorem combined_eq {f : Field} {o : Operator} {second : Node}
    (hf : f.type = r.type.word) (hsecond : second.phrase? = some (.expression e)) :
    d.combined f (R.helper ++ "." ++ r.nameOf .getter ++ "()") o.sign second =
      R.combinationPieces r o e second := by
  simp only [combined, Routing.combinationPieces, hf, JavaSource.needsCast_eq hsecond,
    Node.isOperandKind_of_expression hsecond]

-- Every step begins with its sign or its operand, and no decrement shows the sign of an increment.
def ClearlySigned (s : JavaSource) (block : Site) : Prop :=
  ∀ t ∈ block.preorder, t.kind = .updateExpression → BeginsWithOperand t ∧ Legible s t

namespace Stays

section Body

variable (hstays : d.Stays body declaration n) (hd : d.OfSource source)
  (h : d.Assembled body p stubs removals shared deleted references)
  (hroutes : d.Routes declaration R) (hsay : R.Sayable)
  (hclear : ClearlySigned d.source ((body.below declaration).below n))

include hstays hd h

theorem kept_of_isSubject (ht : t ∈ ((body.below declaration).below n).preorder)
    (hmark : t.node.isMark = false) (hkind : t.kind.isSubject = false) :
    Kept (p.replacements.filter (n.span.covers ·.span)) t.node := by
  refine hstays.kept hd h ht hmark ?_ ?_
  · cases hmoved : d.movedField? t with
    | none => rfl
    | some moved =>
      have hsubject : t.kind.isSubject = true :=
        isSubject_of_movedField? (by rw [hmoved]; rfl : (d.movedField? t).isSome = true)
      rw [hkind] at hsubject
      cases hsubject
  · cases hchanged : d.changedReference? t with
    | none => rfl
    | some u =>
      have hsubject := isSubject_of_operand? (operand?_of_changedReference? hchanged)
      rw [hkind] at hsubject
      cases hsubject

include hroutes hclear

-- A step becomes a call of the method that does the same.
theorem step_mem {isIncrement isFront : Bool} (ht : ((body.below declaration).below n).IsInner t)
    (hp : t.node.phrase? = some (.expression (.step isIncrement isFront x)))
    (hr : R.route? x = some r) :
    R.calling r (.ofStep isIncrement isFront) t.span ∈
      p.replacements.filter (n.span.covers ·.span) := by
  obtain ⟨hkind, sign, operand, e, hparts, hsign, he, hx⟩ := Node.parts_of_step hp
  have hmem : operand ∈ t.node.children := by
    refine (Node.mem_parts.mp ?_).left
    rw [hparts]
    cases isFront
    all_goals simp
  obtain ⟨hvariable, hinner, -⟩ := insideParentheses_of_variable?
    (ht.below (by simp [Site.kind, hkind]) (by simp [Site.kind, hkind]) hmem) he hx
  obtain ⟨f, hmoved, haccessors, -⟩ := hstays.exists_movedField? hd hroutes hinner hvariable hr
  have hoperand : operand? t = some (insideParentheses (t.below operand)) := by
    have hfind : t.namedChildren.find? (!·.node.isComment) = some (t.below operand) := by
      rw [Site.namedChildren, List.find?_map]
      change (t.node.namedChildren.find? (!·.isComment)).map t.below = _
      rw [Node.find?_namedChildren, hparts]
      cases isFront
      all_goals simp [Node.isNamed_of_mark hsign, Node.isNamed_of_expression he]
    rw [operand?, show t.kind = .updateExpression from hkind]
    exact congrArg (Option.map insideParentheses) hfind
  have hsteps : d.Steps t (insideParentheses (t.below operand)) f.field
      ⟨r.nameOf .increment, r.nameOf .postIncrement, r.nameOf .decrement,
        r.nameOf .postDecrement⟩ :=
    ⟨hkind, hoperand, r.accessors, by simp [movedInstance?, hmoved, haccessors], rfl⟩
  have hmemt := ht.reaches.mem_preorder
  obtain ⟨hfirst, hlegible⟩ := hclear t hmemt hkind
  have hsound : t.node.Sound d.source.text :=
    Site.sound_of_mem_preorder (hstays.sound.of_mem_children hstays.mem_block) hmemt
  obtain ⟨isIncrement', isFront', hsigned⟩ := hsteps.exists_signed hsound
  obtain ⟨rfl, rfl⟩ := hsigned.eq_of_step hp
  have hchange := changeReplacements_of_steps hsteps hsigned hfirst hroutes.helper
  rw [occursIn_textAt hsound hsigned hlegible] at hchange
  have htarget : d.changedReference? t = some (insideParentheses (t.below operand)) :=
    changedReference?_eq_some.mpr ⟨by rw [target?_eq_operand? hfirst, hoperand],
      by simp [movedInstance?, hmoved, haccessors]⟩
  have hcall := hstays.change_mem hd h ht htarget hchange
  cases isIncrement'
  all_goals
    cases isFront'
    all_goals exact hcall

include hsay

-- The replacements in an expression that is no operand of a change.
theorem rerouted (ht : ((body.below declaration).below n).IsInner t)
    (hp : t.node.phrase? = some (.expression e)) (he : R.admits e = true)
    (hun : ∀ c, operand? c ≠ some (insideParentheses t)) :
    R.Rerouted (p.replacements.filter (n.span.covers ·.span)) t.node e := by
  have hmem := fun {t : Site} (ht : ((body.below declaration).below n).IsInner t) =>
    ht.reaches.mem_preorder
  induction e generalizing t with
  | literal v =>
    refine .literal hp (hstays.kept_of_isSubject hd h (hmem ht) (Node.isMark_of_expression hp) ?_)
    have hkind := (Node.kind_of_literal hp).left
    rw [Site.kind]
    cases hk : t.node.kind
    case identifier | fieldAccess | assignmentExpression | updateExpression =>
      rw [hk] at hkind
      cases hkind
    all_goals rfl
  | read x =>
    cases hr : R.route? x with
    | some r =>
      have hne : t.kind ≠ .parenthesizedExpression := by
        cases x with
        | name word => simp [Site.kind, (Node.kind_of_name hp).left]
        | own field => simp [Site.kind, (Node.parts_of_own hp).left]
      rw [insideParentheses_of_kind_ne hne] at hun
      exact .call (hsay.nameOf_of_route? hr _) (by rw [Routing.delegated, hr])
        (hstays.getter_mem hd h hroutes ht hp hr hun)
    | none =>
      cases x with
      | own field => simp [Routing.admits, Routing.knows, hr] at he
      | name word =>
        refine .name hp hr (hstays.kept hd h (hmem ht) (Node.isMark_of_expression hp)
          (hstays.movedField?_eq_none hroutes ht hp hr he) ?_)
        cases hchanged : d.changedReference? t with
        | none => rfl
        | some u =>
          have hkind := (exists_child_of_operand? (operand?_of_changedReference? hchanged)).left
          simp [Site.kind, (Node.kind_of_name hp).left] at hkind
  | grouped e ih =>
    obtain ⟨hkind, opening, inner, closing, hparts, hopening, hinner, hclosing⟩ :=
      Node.parts_of_grouped hp
    have hchild : inner ∈ t.node.children := (Node.mem_parts.mp (hparts ▸ by simp)).left
    rw [insideParentheses_of_parts hkind hparts hopening hinner] at hun
    refine .grouped hkind hparts hopening hclosing
      (hstays.kept_of_isSubject hd h (hmem ht) (Node.isMark_of_expression hp)
        (by simp [Site.kind, hkind])) ?_
    exact ih (ht.below (by simp [Site.kind, hkind]) (by simp [Site.kind, hkind]) hchild) hinner he
      hun
  | binary o left right ihl ihr =>
    obtain ⟨hkind, first, sign, second, hparts, hfirst, hsign, hsecond⟩ := Node.parts_of_binary hp
    obtain ⟨hl, hr⟩ := Bool.and_eq_true_iff.mp he
    have hchild : first ∈ t.node.children ∧ second ∈ t.node.children :=
      ⟨(Node.mem_parts.mp (hparts ▸ by simp)).left, (Node.mem_parts.mp (hparts ▸ by simp)).left⟩
    have hnone : operand? t = none := by
      rw [operand?, show t.kind = .binaryExpression from hkind]
    have hpart : ∀ {k : Node}, k ∈ t.node.children →
        ((body.below declaration).below n).IsInner (t.below k) ∧
          ∀ c, operand? c ≠ some (insideParentheses (t.below k)) := fun hk =>
      ⟨ht.below (by simp [Site.kind, hkind]) (by simp [Site.kind, hkind]) hk,
        operand?_ne_of_around (by simp [Site.kind, hkind]) (by simp [hnone])⟩
    refine .binary hkind hparts hsign
      (hstays.kept_of_isSubject hd h (hmem ht) (Node.isMark_of_expression hp)
        (by simp [Site.kind, hkind])) ?_ ?_
    · obtain ⟨hinner, hapart⟩ := hpart hchild.left
      exact ihl hinner hfirst hl hapart
    · obtain ⟨hinner, hapart⟩ := hpart hchild.right
      exact ihr hinner hsecond hr hapart
  | step isIncrement isFront x =>
    obtain ⟨r, hr⟩ := Option.isSome_iff_exists.mp he
    exact .call (hsay.nameOf_of_route? hr _) (by rw [Routing.delegated, hr])
      (hstays.step_mem hd h hroutes hclear ht hp hr)
  | cast | call => cases he

omit hsay hclear in
-- An assignment whose value is not used becomes a call of the setter.
theorem setting_mem {first sign second : Node} {target : Expression} {word : String}
    (ht : ((body.below declaration).below n).IsInner t)
    (hdiscards : d.source.discardsValue t = true) (hkind : t.kind = .assignmentExpression)
    (hparts : t.node.parts = [first, sign, second])
    (hfirst : first.phrase? = some (.expression target)) (hx : target.variable? = some x)
    (hsign : sign.phrase? = some (.mark word)) (hsecond : second.phrase? = some (.expression e))
    (hr : R.route? x = some r) :
    ∃ f : Field, f.type = r.type.word ∧
      R.setting r t.span (if word == "=" then [.source second.span] else
        d.combined f (R.helper ++ "." ++ r.nameOf .getter ++ "()")
          (String.ofList (word.toList.reverse.dropWhile (· == '=')).reverse) second) ∈
        p.replacements.filter (n.span.covers ·.span) := by
  have hchild : ∀ k ∈ t.node.parts, k ∈ t.node.children := fun k hk => (Node.mem_parts.mp hk).left
  rw [hparts] at hchild
  obtain ⟨wanted, hparsed⟩ := hd.parsed
  have hmem := ht.reaches.mem_preorder
  have hsound : t.node.Sound d.source.text :=
    Site.sound_of_mem_preorder (hstays.sound.of_mem_children hstays.mem_block) hmem
  have hcomposed := Site.composed_of_mem_preorder (hstays.quiet.primary.composed hparsed)
    (hstays.quiet.mem_preorder_of_reaches ht.reaches)
  obtain ⟨hleft, hoperator, hright⟩ :=
    hcomposed.children_of_assignment hkind hparts hfirst hsecond
  obtain ⟨hvariable, hinner, -⟩ := insideParentheses_of_variable?
    (ht.below (by simp [hkind]) (by simp [hkind]) (hchild first (by simp))) hfirst hx
  obtain ⟨f, hmoved, haccessors, htype⟩ :=
    hstays.exists_movedField? hd hroutes hinner hvariable hr
  have hinstance : d.movedInstance? (insideParentheses (t.below first)) =
      some (f.field, r.accessors) := by
    simp [movedInstance?, hmoved, haccessors]
  have htarget : target? t = some (insideParentheses (t.below first)) := by
    rw [target?, hkind]
    simp [Site.child?, hleft]
  have hneed : d.needHelper = .ok R.helper := by rw [needHelper, hroutes.helper]
  have hspelling := d.source.spelling_of_mark (hsound.of_mem_children (hchild sign (by simp))) hsign
  refine ⟨f.field, htype, hstays.change_mem hd h ht
    (changedReference?_eq_some.mpr ⟨htarget, by simp [hinstance]⟩) ?_⟩
  rw [changeReplacements, htarget, Option.bind_some, hinstance]
  dsimp only
  rw [if_pos hkind, assignmentReplacements, if_neg (by simp [hdiscards]), hoperator, hright, hneed]
  subst hspelling
  rfl

-- The replacements in a statement that is an expression.
theorem reroutedChange {u : Site} {c : Node} {q : Phrase} {s : Statement}
    (hu : ((body.below declaration).below n).Reaches u) (hline : u.kind = .expressionStatement)
    (hc : c ∈ u.node.children) (hp : c.phrase? = some q) (hq : Phrase.statement? q = some s)
    (hs : R.admitsStatement s = true) :
    c.kind ≠ .binaryExpression ∧
      R.ReroutedChange (p.replacements.filter (n.span.covers ·.span)) c s := by
  have ht : ((body.below declaration).below n).IsInner (u.below c) :=
    ⟨u, c, hu, by simp [hline], by simp [hline], hc, rfl⟩
  have hdiscards : d.source.discardsValue (u.below c) = true := by
    rw [JavaSource.discardsValue, show (u.below c).parent? = some u from rfl]
    simp [hline]
  have hsound : c.Sound d.source.text :=
    Site.sound_of_mem_preorder (hstays.sound.of_mem_children hstays.mem_block)
      ht.reaches.mem_preorder
  -- The right side of an assignment is apart from its left side, and smaller than the whole.
  have hright : ∀ {first sign second : Node} {target e : Expression},
      c.kind = .assignmentExpression → c.parts = [first, sign, second] →
        first.phrase? = some (.expression target) → second.phrase? = some (.expression e) →
          R.admits e = true → second ∈ c.parts ∧ c.span ≠ second.span ∧
            R.Rerouted (p.replacements.filter (n.span.covers ·.span)) second e := by
    intro first sign second target e hkind hparts hfirst hsecond he
    have hchild : ∀ k ∈ c.parts, k ∈ c.children := fun k hk => (Node.mem_parts.mp hk).left
    have hmem : second ∈ c.parts := by simp [hparts]
    have hfirstMem := hchild first (by simp [hparts])
    obtain ⟨wanted, hparsed⟩ := hd.parsed
    have hcomposed : c.Composed d.source.text :=
      Site.composed_of_mem_preorder (hstays.quiet.primary.composed hparsed)
        (hstays.quiet.mem_preorder_of_reaches ht.reaches)
    obtain ⟨hleft, -, hrole⟩ := hcomposed.children_of_assignment hkind hparts hfirst hsecond
    have hne : first ≠ second := by
      rintro rfl
      have hl := List.find?_some hleft
      have hr := List.find?_some hrole
      simp only [decide_eq_true_eq] at hl hr
      rw [hl] at hr
      cases hr
    have hbeside := (hsound.eq_or_beside hfirstMem (hchild second hmem)).resolve_left hne
    refine ⟨hmem, fun heq => ?_, ?_⟩
    · exact hbeside.symm.not_covers (hsound.of_mem_children hfirstMem).nonempty
        (heq ▸ hsound.covers_child hfirstMem)
    · exact hstays.rerouted hd h hroutes hsay hclear (t := (u.below c).below second)
        (ht.below (by simp [Site.kind, Site.below, hkind]) (by simp [Site.kind, Site.below, hkind])
          (hchild second hmem)) hsecond he
        (operand?_ne_of_right (t := u.below c) hsound hkind hleft (hchild second hmem) hne)
  rw [Phrase.statement?.eq_def] at hq
  split at hq
  case h_1 isIncrement isFront x =>
    cases hq
    obtain ⟨r, hr⟩ := Option.isSome_iff_exists.mp hs
    refine ⟨by simp [(Node.parts_of_step hp).left], ?_⟩
    exact .step (hsay.nameOf_of_route? hr _) (by rw [Routing.delegated, hr])
      (hstays.step_mem hd h hroutes hclear ht hp hr)
  case h_2 => cases hq; cases hs
  case h_3 => cases hq; cases hs
  case h_4 x e =>
    cases hq
    obtain ⟨hroute, he⟩ := Bool.and_eq_true_iff.mp hs
    obtain ⟨r, hr⟩ := Option.isSome_iff_exists.mp (Option.isSome_of_any hroute)
    obtain ⟨hkind, first, sign, second, target, hparts, hfirst, hx, hsign, hsecond⟩ :=
      Node.parts_of_assign hp
    obtain ⟨hmem, hne, hrerouted⟩ := hright hkind hparts hfirst hsecond he
    obtain ⟨f, -, hset⟩ := hstays.setting_mem hd h hroutes ht hdiscards hkind hparts hfirst hx hsign
      hsecond hr
    exact ⟨by simp [hkind], .assign hr hmem hne hset hrerouted⟩
  case h_5 x o e =>
    cases hq
    obtain ⟨hroute, he⟩ := Bool.and_eq_true_iff.mp hs
    obtain ⟨r, hr⟩ := Option.isSome_iff_exists.mp hroute
    obtain ⟨hkind, first, sign, second, target, hparts, hfirst, hx, hsign, hsecond⟩ :=
      Node.parts_of_combine hp
    obtain ⟨hmem, hne, hrerouted⟩ := hright hkind hparts hfirst hsecond he
    obtain ⟨f, htype, hset⟩ := hstays.setting_mem hd h hroutes ht hdiscards hkind hparts hfirst hx
      hsign hsecond hr
    have hequals : (o.sign ++ "=" == "=") = false := by
      cases o
      all_goals decide
    rw [hequals, if_neg (by decide), dropWhile_sign, combined_eq htype hsecond] at hset
    refine ⟨by simp [hkind], .combine hr hmem hne (fun hoperand hbinary => ?_) hset hrerouted⟩
    rw [← Node.isOperandKind_of_expression hsecond, hbinary] at hoperand
    cases hoperand
  case h_6 => cases hq

theorem reroutedLine {line : Node} {s : Statement} (hmem : line ∈ n.children)
    (hp : line.phrase? = some (.line (.run s))) (hs : R.admitsStatement s = true) :
    R.ReroutedLine (p.replacements.filter (n.span.covers ·.span)) line s := by
  obtain ⟨hkind, c, semicolon, q, hparts, hc, hq, hsemicolon⟩ := Node.parts_of_line hp
  have hreaches : ((body.below declaration).below n).Reaches
      (((body.below declaration).below n).below line) := .line hmem
  have hchild : c ∈ line.children := (Node.mem_parts.mp (hparts ▸ by simp)).left
  obtain ⟨hne, hchange⟩ :=
    hstays.reroutedChange hd h hroutes hsay hclear hreaches hkind hchild hc hq hs
  refine ⟨hkind, ?_, c, semicolon, hparts, hsemicolon, hne, hchange⟩
  exact hstays.kept_of_isSubject hd h hreaches.mem_preorder
    (Node.isMark_of_kind_ne fun word => by simp [Site.below, hkind])
    (by simp [Site.kind, Site.below, hkind])

-- The replacements in the body of a method that stays.
theorem reroutedBlock {ts : List Statement} (hp : n.phrase? = some (.block (ts.map .run)))
    (hts : ∀ t ∈ ts, R.admitsStatement t = true) :
    R.ReroutedBlock (p.replacements.filter (n.span.covers ·.span)) n ts := by
  obtain ⟨hkind, opening, lines, closing, hparts, hopening, hclosing, hlines⟩ :=
    Node.parts_of_block hp
  refine ⟨?_, opening, lines, closing, hparts, hopening, hclosing, by simp [hkind], ?_⟩
  · exact hstays.kept_of_isSubject hd h (Site.self_mem_preorder _)
      (Node.isMark_of_kind_ne fun word => by simp [Site.below, hkind])
      (by simp [Site.kind, Site.below, hkind])
  have hmem : ∀ line ∈ lines, line ∈ n.children := by
    intro line hline
    refine (Node.mem_parts.mp ?_).left
    rw [hparts]
    simp [hline]
  rw [List.forall₂_map_right_iff] at hlines
  refine List.forall₂_iff_zip.mpr ⟨hlines.length_eq, fun hzip => ?_⟩
  obtain ⟨hline, ht⟩ := List.of_mem_zip hzip
  exact hstays.reroutedLine hd h hroutes hsay hclear (hmem _ hline)
    (List.forall₂_zip hlines hzip) (hts _ ht)

end Body

end Stays

end Delegation

end ClassSplit
