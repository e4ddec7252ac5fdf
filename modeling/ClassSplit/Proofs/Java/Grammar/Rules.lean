import ClassSplit.Java.Source
import ClassSplit.Proofs.Java.Grammar.Combinator

/-!
The rules of the grammar are sound, rule by rule, if its goals are.
-/

namespace ClassSplit.Java.Grammar

open Recognizer hiding optional

-- The kinds and roles of the rules are told apart by computation.
instance fact_true : Fact (true = true) := ⟨rfl⟩
instance fact_false : Fact (false = false) := ⟨rfl⟩

-- Nodes that play no part yet, such as the modifiers in front of a declaration.
abbrev Unassigned : Recognizer → Prop := Gives fun n => n.role = none

section Unassigned

variable {p : Recognizer} {kind : Kind} {word : String}

instance {test : Token → Bool} {kind : Token → Kind} : Unassigned (leaf test kind) where
  gives h n hn := by
    obtain ⟨t, -, -, rfl⟩ := leaf_run h
    rw [List.mem_singleton.mp hn]
    rfl

instance : Unassigned (mark word) := by unfold mark; infer_instance
instance : Unassigned (keyword word) := by unfold keyword; infer_instance
instance : Unassigned (keywordAs kind word) := by unfold keywordAs; infer_instance

instance : Unassigned (node kind p) where
  gives h n hn := by
    obtain ⟨xs, first, last, -, -, -, rfl⟩ := node_run h
    rw [List.mem_singleton.mp hn]
    rfl

end Unassigned

-- What plays a part has a property.
class Assigns (r : Role) (P : Node → Prop) (p : Recognizer) : Prop where
  assigns : ∀ {ts ns rest}, p.run ts = some (ns, rest) → ∀ n ∈ ns, n.role = some r → P n

section Assigns

variable {r s : Role} {P : Node → Prop} {p q : Recognizer} {kind : Kind} {words : List String}

instance [hp : Unassigned p] : Assigns r P p where
  assigns h n hn hrole := by
    rw [hp.gives h n hn] at hrole
    cases hrole

@[reducible] def isBodyRole : Role → Bool
  | .body => true
  | _ => false

@[reducible] def isNameRole : Role → Bool
  | .name => true
  | _ => false

@[reducible] def isParametersRole : Role → Bool
  | .parameters => true
  | _ => false

theorem assigns_of_ne (h : s ≠ r) : Assigns r P (role s p) where
  assigns hrun n hn hrole := by
    obtain ⟨xs, -, rfl⟩ := role_run hrun
    obtain ⟨m, -, rfl⟩ := List.mem_map.mp hn
    rw [Node.role_withRole, Option.some.injEq] at hrole
    exact absurd hrole h

instance [h : Fact (isBodyRole s = false)] : Assigns .body P (role s p) := by
  refine assigns_of_ne ?_
  rintro rfl
  cases h.out

instance [h : Fact (isNameRole s = false)] : Assigns .name P (role s p) := by
  refine assigns_of_ne ?_
  rintro rfl
  cases h.out

instance [h : Fact (isParametersRole s = false)] : Assigns .parameters P (role s p) := by
  refine assigns_of_ne ?_
  rintro rfl
  cases h.out

instance [hp : Assigns r P p] [hq : Assigns r P q] : Assigns r P (p ++ q) where
  assigns h n hn := by
    obtain ⟨xs, mid, ys, hxs, hys, rfl⟩ := andThen_run h
    cases List.mem_append.mp hn with
    | inl hmem => exact hp.assigns hxs n hmem
    | inr hmem => exact hq.assigns hys n hmem

instance [hp : Assigns r P p] [hq : Assigns r P q] : Assigns r P (p <|> q) where
  assigns h := by
    cases either_run h with
    | inl h => exact hp.assigns h
    | inr h => exact hq.assigns h

instance [Assigns r P p] : Assigns r P (Recognizer.optional p) := by
  unfold Recognizer.optional; infer_instance

instance : Assigns .name (·.kind = .identifier) (role .name (identifier words)) where
  assigns h n hn _ := by
    obtain ⟨xs, hxs, rfl⟩ := role_run h
    obtain ⟨t, -, -, rfl⟩ := leaf_run hxs
    obtain ⟨m, hm, rfl⟩ := List.mem_map.mp hn
    rw [List.mem_singleton.mp hm]
    rfl

instance : Assigns .name Node.IsVariableName
    (role .name (keywordAs .underscorePattern "_" <|> identifier words)) where
  assigns h n hn _ := by
    obtain ⟨xs, hxs, rfl⟩ := role_run h
    obtain ⟨m, hm, rfl⟩ := List.mem_map.mp hn
    obtain hxs | hxs := either_run hxs
    · obtain ⟨t, -, htest, rfl⟩ := leaf_run hxs
      rw [List.mem_singleton.mp hm]
      simp only [Bool.and_eq_true, beq_iff_eq] at htest
      exact .inr htest.right
    · obtain ⟨t, -, -, rfl⟩ := leaf_run hxs
      rw [List.mem_singleton.mp hm]
      exact .inl rfl

instance [hname : HasRole .name p] [hp : Assigns .name Node.IsVariableName p] :
    Shapes .variableDeclarator p where
  shape h := ⟨hname.exists_node h, hp.assigns h⟩

instance [hbody : HasRole .body p] [hp : Assigns .body Node.IsClassBody p] :
    Shapes .classDeclaration p where
  shape h := ⟨hbody.exists_node h, hp.assigns h⟩

instance : Assigns .parameters (·.kind = kind) (role .parameters (node kind p)) where
  assigns h n hn _ := by
    obtain ⟨xs, hxs, rfl⟩ := role_run h
    obtain ⟨ys, first, last, -, -, -, rfl⟩ := node_run hxs
    obtain ⟨m, hm, rfl⟩ := List.mem_map.mp hn
    rw [List.mem_singleton.mp hm]
    rfl

instance [hname : HasRole .name p] [hp : Assigns .name (·.kind = .identifier) p]
    [hlist : HasRole .parameters p] [hq : Assigns .parameters (·.kind = .formalParameters) p]
    [hends : Ends Kind.isBody p] : Shapes .methodDeclaration p where
  shape h :=
    ⟨hname.exists_node h, hp.assigns h, hlist.exists_node h, hq.assigns h, hends.ends h⟩

instance [hp : Assigns .name (·.kind = .identifier) p] : Shapes .methodInvocation p where
  shape h := hp.assigns h

instance [hname : HasRole .name p] [hlist : HasRole .parameters p]
    [hq : Assigns .parameters (·.kind = .formalParameters) p] [hends : Ends Kind.isBody p] :
    Shapes .constructorDeclaration p where
  shape h := ⟨hname.exists_node h, hlist.exists_node h, hq.assigns h, hends.ends h⟩

end Assigns

-- What holds of the goals in every text.
class Goals.Regular (g : Goals) : Prop where
  type : Productive (g .type)
  typeKinds : OfKinds Kind.isType (g .type)
  annotation : Unassigned (g .annotationForm)
  productiveBody : Productive (g .classBody)
  expression : ∀ lambdas, Productive (g (.expression lambdas))
  operand : ∀ lambdas, Productive (g (.operand lambdas))
  signed : ∀ lambdas, Productive (g (.signed lambdas))
  operandKinds : ∀ lambdas, OfKinds Kind.isTight (g (.operand lambdas))
  signedKinds : ∀ lambdas, OfKinds Kind.isTight (g (.signed lambdas))
  block : Productive (g .block)
  blockKinds : OfKinds Kind.isBody (g .block)
  classBody : ∀ {ts ns rest}, (g .classBody).run ts = some (ns, rest) → ∀ n ∈ ns, n.IsClassBody

class Goals.Sound (text : List Char) (g : Goals) : Prop where
  sound : ∀ goal, Recognizer.Sound text false [] (g goal)

variable {text : List Char} {pre ns : List Node} {g : Goals} [hg : Goals.Sound text g]
  [hregular : Goals.Regular g]

instance (goal : Goal) : Sound text false [] (g goal) := hg.sound goal

omit hg in
instance : Productive (g .type) := hregular.type

omit hg in
instance : OfKinds Kind.isType (g .type) := hregular.typeKinds

omit hg in
instance : Has (fun n => n.kind.isType = true) (g .type) where
  exists_node h := by
    obtain ⟨n, hn⟩ := List.exists_mem_of_ne_nil _ (hregular.type.ne_nil h)
    exact ⟨n, hn, hregular.typeKinds.gives h n hn⟩

omit hg in
instance : Unassigned (g .annotationForm) := hregular.annotation

omit hg in
instance : Productive (g .classBody) := hregular.productiveBody

omit hg in
instance {lambdas : Bool} : Productive (g (.expression lambdas)) := hregular.expression lambdas

omit hg in
instance {lambdas : Bool} : Productive (g (.operand lambdas)) := hregular.operand lambdas

omit hg in
instance {lambdas : Bool} : Productive (g (.signed lambdas)) := hregular.signed lambdas

omit hg in
instance {lambdas : Bool} : OfKinds Kind.isTight (g (.operand lambdas)) :=
  hregular.operandKinds lambdas

omit hg in
instance {lambdas : Bool} : OfKinds Kind.isTight (g (.signed lambdas)) :=
  hregular.signedKinds lambdas

omit hg in
instance : Productive (g .block) := hregular.block

omit hg in
instance : OfKinds Kind.isBody (g .block) := hregular.blockKinds

section Types

instance : Sound text false [] name := by unfold name; infer_instance
instance : Sound text false [] (annotations g) := by unfold annotations; infer_instance

omit hg in
instance : Unassigned (annotations g) := by unfold annotations; infer_instance

instance : Sound text false [] annotationSign where
  run hpre hts hrun := by
    have hmark : Sound text false [] (mark "@") := inferInstance
    unfold annotationSign at hrun
    simp only at hrun
    split at hrun
    case h_1 =>
      split at hrun
      case isTrue => cases hrun
      case isFalse => exact hmark.run hpre hts hrun
    case h_2 => cases hrun

instance : Sound text false [] annotationSignOfDeclaration where
  run hpre hts hrun := by
    unfold annotationSignOfDeclaration at hrun
    simp only at hrun
    split at hrun
    case h_1 sign next rest =>
      split at hrun
      case isTrue h =>
        obtain ⟨hsign, hnext, htouch⟩ := h
        cases hrun
        obtain ⟨hfirst, hlo, hrest⟩ := hts.of_cons
        obtain ⟨hsecond, -, hrest'⟩ := hrest.of_cons
        have hspelled := hfirst.spelled.append hsecond.spelled htouch
        rw [hfirst.mark _ hsign, hnext] at hspelled
        have hsolid : Text.Solid "@interface".toList :=
          .of_no_newline (by decide) (by decide)
        have hleaf : Node.Sound text (.leaf (.token "@interface") none
            ⟨sign.span.start, next.span.stop⟩ "@interface") :=
          .leaf hspelled (fun _ => hsolid) (fun _ => Kind.token.inj) rfl nofun
        refine ⟨next.span.stop, .singleton hleaf (Nat.le_trans hpre.inOrder hlo) (fun _ => rfl) ?_,
          hrest'⟩
        cases hpre.joins
        refine .cons (.inr (hts.adjacent.left.resolve_left ?_)) (.leaf rfl nofun) (.nil _)
        rw [hsign]
        decide
      case isFalse => cases hrun
    case h_2 => cases hrun

instance : Sound text false [] (elementPair g) := by unfold elementPair; infer_instance
instance : Sound text false [] (annotationArguments g) := by
  unfold annotationArguments; infer_instance
instance : Sound text false [] (annotationForm g) := by unfold annotationForm; infer_instance
instance : Sound text false [] (elementValue g) := by unfold elementValue; infer_instance
instance : Sound text false [] (dimensions g) := by unfold dimensions; infer_instance
instance : Sound text false [] (annotatedType g) := by unfold annotatedType; infer_instance
instance : Sound text false [] (wildcard g) := by unfold wildcard; infer_instance
instance : Sound text false [] (typeArguments g) := by unfold typeArguments; infer_instance
instance : Sound text false [] primitiveType := by unfold primitiveType; infer_instance
instance : Sound text false [] (namedType g) := by unfold namedType; infer_instance
instance : Sound text false [] (simpleType g) := by unfold simpleType; infer_instance
instance : Sound text false [] (type g) := by unfold type; infer_instance
instance : Sound text false [] (typeParameter g) := by unfold typeParameter; infer_instance
instance : Sound text false [] (typeParameters g) := by unfold typeParameters; infer_instance

instance : Sound text false [] nonSealed where
  run hpre hts hrun := by
    unfold nonSealed at hrun
    simp only at hrun
    split at hrun
    case h_1 a b c rest =>
      split at hrun
      case isTrue h =>
        obtain ⟨ha, hb, hc, hab, hbc⟩ := h
        cases hrun
        obtain ⟨hfirst, hlo, hrest⟩ := hts.of_cons
        obtain ⟨hsecond, -, hrest'⟩ := hrest.of_cons
        obtain ⟨hthird, -, hrest''⟩ := hrest'.of_cons
        obtain ⟨hseam, -, hpart, -⟩ := hts.adjacent
        have hspelled := (hfirst.spelled.append hsecond.spelled hab).append hthird.spelled hbc
        rw [ha, hsecond.mark _ hb, hc] at hspelled
        have hsolid : Text.Solid "non-sealed".toList := .of_no_newline (by decide) (by decide)
        have hleaf : Node.Sound text (.leaf (.token "non-sealed") none
            ⟨a.span.start, c.span.stop⟩ "non-sealed") :=
          .leaf hspelled (fun _ => hsolid) (fun _ => Kind.token.inj) rfl nofun
        -- A part of a string is not followed by a sign.
        have hquoted : ¬a.kind.isQuoted = true := by
          intro hquoted
          cases hkind : a.kind
          case token word =>
            rw [hkind] at hquoted
            rw [← hfirst.mark word hkind, ha] at hquoted
            cases hquoted
          case stringFragment | multilineStringFragment | escapeSequence =>
            have hnext := hpart (by rw [hkind]) b rfl
            rw [hb] at hnext
            cases hnext
          all_goals
            rw [hkind] at hquoted
            cases hquoted
        refine ⟨c.span.stop, .singleton hleaf (Nat.le_trans hpre.inOrder hlo) (fun _ => rfl) ?_,
          hrest''⟩
        cases hpre.joins
        exact .cons (.inr (hseam.resolve_left hquoted)) (.leaf rfl nofun) (.nil _)
      case isFalse => cases hrun
    case h_2 => cases hrun

instance : Sound text false [] (modifiers g) := by unfold modifiers; infer_instance

omit hg hregular in
instance : Unassigned (modifiers g) := by unfold modifiers; infer_instance

omit hregular in
theorem sound_modified {f : List Node → Recognizer}
    (hf : ∀ mods, [Fact (∀ n ∈ mods, n.role = none)] → Sound text false mods (f mods)) :
    Sound text false [] (modified g f) where
  run hpre hts hrun := by
    have hmodifiers : Sound text false [] (Recognizer.optional (modifiers g)) := inferInstance
    have hrole : Unassigned (Recognizer.optional (modifiers g)) := inferInstance
    obtain ⟨mods, mid, hmods, hns⟩ := bind_run hrun
    obtain ⟨stop, hrunM, htsM⟩ := hmodifiers.run hpre hts hmods
    have : Fact (∀ n ∈ mods, n.role = none) := ⟨hrole.gives hmods⟩
    exact (hf mods).run hrunM htsM hns

instance {f : List Node → Recognizer} [hf : ∀ mods, Sound text false mods (f mods)] :
    Sound text false [] (modified g f) :=
  sound_modified fun mods => hf mods

instance {words : List String} : Sound text false [] (declaratorName g words) := by
  unfold declaratorName; infer_instance

omit hg hregular in
instance {words : List String} : HasRole .name (declaratorName g words) := by
  unfold declaratorName; infer_instance

omit hg hregular in
instance {words : List String} : Assigns .name Node.IsVariableName (declaratorName g words) := by
  unfold declaratorName; infer_instance

omit hg hregular in
instance {words : List String} :
    Has (fun n => n.kind = .variableDeclarator) (declarator g words) := by
  unfold declarator; infer_instance

instance {words : List String} : Sound text false [] (declarator g words) := by
  unfold declarator; infer_instance
instance {words : List String} : Sound text false [] (declarators g words) := by
  unfold declarators; infer_instance

omit hg hregular in
instance {words : List String} : Trails (declarators g words) := by
  unfold declarators declarator; infer_instance

instance : Sound text false [] (formalParameter g) := by
  unfold formalParameter; infer_instance
instance : Sound text false [] (receiverParameter g) := by
  unfold receiverParameter; infer_instance

omit hg hregular in
instance : OfKinds Kind.isListed (formalParameter g) := by
  unfold formalParameter modified; infer_instance

omit hg hregular in
instance : OfKinds Kind.isListed (receiverParameter g) := by
  unfold receiverParameter; infer_instance

instance : Sound text false [] (formalParameters g) := by
  unfold formalParameters; infer_instance

omit hg hregular in
instance : Productive (formalParameters g) := by unfold formalParameters; infer_instance

omit hg hregular in
instance : Assigns .parameters (·.kind = .formalParameters)
    (role .parameters (formalParameters g)) := by
  unfold formalParameters; infer_instance

instance : Sound text false [] (throwsClause g) := by
  unfold throwsClause; infer_instance

end Types

section Expressions

instance : Sound text false [] (argumentList g) := by
  unfold argumentList; infer_instance
instance {kind : Kind} [Fact (kind.isPlain = true)] [Fact (kind.isShaped = false)] :
    Sound text false [] (parenthesized g kind) := by
  unfold parenthesized; infer_instance

instance {kind : Kind} [Fact (kind.isConstruct = false)] :
    Sound text true [] (stringParts g kind) := by
  unfold stringParts; infer_instance

-- The parts of a string need not be solid, but the quotes around them are.
instance {quote : String} {kind : Kind} [Fact (kind.isConstruct = false)] :
    Sound text false [] (node .stringLiteral (mark quote ++ stringParts g kind ++ mark quote)) where
  run hpre hts hrun := by
    obtain ⟨xs, first, last, hxs, hfirst, hlast, rfl⟩ := node_run hrun
    have hparts : Sound text true [] (mark quote ++ stringParts g kind ++ mark quote) :=
      inferInstance
    obtain ⟨stop, hrunX, htsX⟩ :=
      hparts.run ⟨hpre.sound, hpre.inOrder, nofun, hpre.joins⟩ hts hxs
    obtain ⟨front, mid, closing, hfront, hclosing, rfl⟩ := andThen_run hxs
    obtain ⟨opening, mid', inner, hopening, -, rfl⟩ := andThen_run hfront
    obtain ⟨t, -, ht, rfl⟩ := leaf_run hopening
    obtain ⟨u, -, hu, rfl⟩ := leaf_run hclosing
    have hfirstKind : first.kind.isStringPart = false := by
      rw [← Option.some.inj hfirst]
      exact congrArg Kind.isStringPart (of_decide_eq_true ht)
    have hlastKind : last.kind.isStringPart = false := by
      rw [List.getLast?_concat] at hlast
      rw [← Option.some.inj hlast]
      exact congrArg Kind.isStringPart (of_decide_eq_true hu)
    have hnode : Node.Sound text (.branch .stringLiteral none _ _) :=
      hrunX.node hfirst hlast hfirstKind hlastKind trivial fun h => absurd h (by decide)
    have hlo := hrunX.inOrder.mem (List.mem_map_of_mem (List.mem_of_head? hfirst))
    exact ⟨stop, .singleton hnode hlo.left (fun _ => rfl)
      (hrunX.joins.node hfirst hlast rfl (.operand nofun) trivial), htsX⟩

instance : Sound text false [] (stringLiteral g) := by
  unfold stringLiteral; infer_instance
instance : Sound text false [] (leaf (literalKinds.contains ·.kind) (·.kind)) := by
  refine sound_mark_of ?_
  intro t ht
  have hkinds : ∀ kind ∈ literalKinds, kind.isStringPart = false ∧ kind.isConstruct = false := by
    decide
  exact hkinds _ (by simpa using ht)

instance : Sound text false [] (literal g) := by
  unfold literal; infer_instance
instance : Sound text false [] (referencedMember g) := by
  unfold referencedMember; infer_instance
instance : Sound text false [] (typed g) := by
  unfold typed; infer_instance
instance : Sound text false [] (arrayInitializer g) := by
  unfold arrayInitializer; infer_instance
instance : Sound text false [] (initializer g) := by
  unfold initializer; infer_instance
instance : Sound text false [] (objectCreation g) := by
  unfold objectCreation; infer_instance
instance : Sound text false [] (arrayCreation g) := by
  unfold arrayCreation; infer_instance

section Arranged

variable {p object : Recognizer} {operators : List String}

theorem role_of_role_run {r : Role} {ts rest : List Token} {xs : List Node}
    (h : (role r p).run ts = some (xs, rest)) : ∀ n ∈ xs, n.role = some r := by
  obtain ⟨ys, -, rfl⟩ := role_run h
  intro n hn
  obtain ⟨m, -, rfl⟩ := List.mem_map.mp hn
  exact Node.role_withRole r m

instance [Sound text false pre (role .left object ++ role .operator (operator operators)
      ++ role .right p)]
    [Shapes .assignmentExpression (role .left object ++ role .operator (operator operators)
      ++ role .right p)] :
    Sound text false pre (node .assignmentExpression
      (role .left object ++ role .operator (operator operators) ++ role .right p)) := by
  refine sound_node rfl rfl (fun _ _ => .operand nofun) fun h => ?_
  obtain ⟨front, mid, back, hfront, hback, rfl⟩ := andThen_run h
  obtain ⟨lefts, mid', signs, hlefts, hsigns, rfl⟩ := andThen_run hfront
  obtain ⟨signs, hsigns', rfl⟩ := role_run hsigns
  obtain ⟨word, span, -, -, rfl⟩ := operator_run hsigns'
  exact ⟨lefts, _, back, List.append_assoc .., rfl, rfl,
    fun n hn => .inl (role_of_role_run hlefts n hn), role_of_role_run hback⟩

instance [Sound text false pre (role .object object
      ++ Recognizer.optional (mark "." ++ keywordAs .superWord "super") ++ mark "."
      ++ role .field p)] :
    Sound text false pre (node .fieldAccess (role .object object
      ++ Recognizer.optional (mark "." ++ keywordAs .superWord "super") ++ mark "."
      ++ role .field p)) := by
  refine sound_node rfl rfl (fun _ _ => .operand nofun) fun h => ?_
  obtain ⟨xs, mid, back, hxs, hback, rfl⟩ := andThen_run h
  obtain ⟨front, mid', dots, hfront, hdots, rfl⟩ := andThen_run hxs
  obtain ⟨objects, mid'', supers, hobjects, hsupers, rfl⟩ := andThen_run hfront
  obtain ⟨t, -, ht, rfl⟩ := leaf_run hdots
  have hkind : t.kind = .token "." := of_decide_eq_true ht
  refine ⟨objects ++ supers, _, back, List.append_assoc .., by simp [hkind, Node.isMark], rfl,
    fun n hn => ?_, role_of_role_run hback⟩
  obtain hn | hn := List.mem_append.mp hn
  · exact .inl (role_of_role_run hobjects n hn)
  obtain hsupers | hsupers := either_run hsupers
  · obtain ⟨dots, mid₃, words, hdots, hwords, rfl⟩ := andThen_run hsupers
    obtain ⟨u, -, hu, rfl⟩ := leaf_run hdots
    obtain ⟨v, -, -, rfl⟩ := leaf_run hwords
    have hkind : u.kind = .token "." := of_decide_eq_true hu
    obtain hn | hn := List.mem_append.mp hn
    · rw [List.mem_singleton.mp hn]
      exact .inr (.inl (by simp [hkind, Node.isMark]))
    · rw [List.mem_singleton.mp hn]
      exact .inr (.inr rfl)
  · cases hsupers
    cases hn

-- No instance, because the search for all that it takes would be too long.
theorem sound_method {q : Recognizer} (hsound : Sound text false pre (p ++ q))
    (hshape : Shapes .methodDeclaration (p ++ q)) (hname : HasRole .name p)
    (hbody : Assigns .body (fun _ => False) p) :
    Sound text false pre (node .methodDeclaration (p ++ q)) := by
  refine sound_node rfl rfl (fun _ _ => .operand nofun) fun h => ?_
  obtain ⟨front, mid, back, hfront, -, rfl⟩ := andThen_run h
  obtain ⟨k, hk, -⟩ := hname.exists_node hfront
  intro n hn hrole
  rw [List.head?_append_of_ne_nil _ (List.ne_nil_of_mem hk)] at hn
  exact hbody.assigns hfront n (List.mem_of_mem_head? hn) hrole

end Arranged

instance {object : Recognizer} [Sound text false pre object] :
    Sound text false pre (memberOf g object) := by
  unfold memberOf; infer_instance
instance : Sound text false ns (chainStep g ns) := by
  unfold chainStep; infer_instance
instance : Sound text false [] (chainHead g) := by
  unfold chainHead; infer_instance
instance : Sound text false [] (primary g) := by
  unfold primary; infer_instance
instance {lambdas : Bool} : Sound text false [] (assignment g lambdas) := by
  unfold assignment; infer_instance

instance : Sound text false [] arrowAhead := by
  refine sound_of_run_nil ?_
  intro ts ns rest h
  unfold arrowAhead at h
  simp only at h
  split at h
  case h_1 =>
    split at h
    case isTrue => cases h; exact ⟨rfl, rfl⟩
    case isFalse => cases h
  case h_2 => cases h

instance : Sound text false [] inferredParameters := by
  unfold inferredParameters; infer_instance
instance {lambdas : Bool} : Sound text false [] (lambdaExpression g lambdas) := by
  unfold lambdaExpression; infer_instance

instance : Sound text false [] castContinuation := by
  refine sound_of_run_nil ?_
  intro ts ns rest h
  unfold castContinuation at h
  simp only at h
  split at h
  case isTrue => cases h; exact ⟨rfl, rfl⟩
  case isFalse => cases h

instance {lambdas : Bool} : Sound text false [] (castExpression g lambdas) := by
  unfold castExpression; infer_instance
instance : Sound text false [] (switchExpression g) := by
  unfold switchExpression; infer_instance
instance {lambdas : Bool} : Sound text false [] (signed g lambdas) := by
  unfold signed; infer_instance
instance {lambdas : Bool} : Sound text false [] (operand g lambdas) := by
  unfold operand
  exact sound_extend (P := fun n => n.kind.isOperand = true) (fun _ => inferInstance)
    fun _ => inferInstance
instance : Sound text false [] (recordPattern g) := by
  unfold recordPattern; infer_instance
instance : Sound text false ns (instanceTest g ns) := by
  unfold instanceTest; infer_instance

omit hg hregular in
instance : Productive (instanceTest g ns) := by unfold instanceTest; infer_instance

omit hg in
instance {lambdas : Bool} {levels : List (List String)} :
    Productive (binary g lambdas levels) := by
  induction levels with
  | nil => unfold binary; infer_instance
  | cons operators tighter ih => unfold binary; infer_instance

section Binds

variable {operators : List String} {tighter : List (List String)} {p : Recognizer}
  [hns : Fact (ns ≠ [])] [hgiven : Fact (∀ n ∈ ns, n.Binds (operators :: tighter))]
  [hp : Productive p] [hbinds : Gives (Node.Binds tighter) p]

omit hg hregular

theorem binds_operation {ts rest : List Token} {xs : List Node}
    (h : (role .left (given ns) ++ role .operator (operator operators)
      ++ role .right p).run ts = some (xs, rest)) (span : Span) :
    (Node.branch .binaryExpression none span xs).Binds (operators :: tighter) := by
  obtain ⟨front, mid, rights, hfront, hrights, rfl⟩ := andThen_run h
  obtain ⟨lefts, mid', signs, hlefts, hsigns, rfl⟩ := andThen_run hfront
  obtain ⟨lefts, hlefts', rfl⟩ := role_run hlefts
  obtain ⟨signs, hsigns', rfl⟩ := role_run hsigns
  obtain ⟨rights, hrights', rfl⟩ := role_run hrights
  obtain ⟨word, span', hword, -, rfl⟩ := operator_run hsigns'
  cases hlefts'
  have hrole : ∀ {levels : List (List String)} {r : Role} {ms : List Node},
      (∀ m ∈ ms, m.Binds levels) → ∀ m ∈ ms.map (·.withRole r), m.Binds levels := by
    intro levels r ms hms m hm
    obtain ⟨k, hk, rfl⟩ := List.mem_map.mp hm
    exact (hms k hk).withRole r
  refine .binary (List.append_assoc ..) ?_ ?_ hword (hrole hgiven.out) (hrole (hbinds.gives hrights'))
  · simpa using hns.out
  · simpa using hp.ne_nil hrights'

instance : Gives (Node.Binds (operators :: tighter)) (node .binaryExpression
    (role .left (given ns) ++ role .operator (operator operators) ++ role .right p)) where
  gives h n hn := by
    obtain ⟨xs, first, last, hxs, -, -, rfl⟩ := node_run h
    rw [List.mem_singleton.mp hn]
    exact binds_operation hxs _

-- What is no operation binds tighter than every operator.
instance {levels : List (List String)} [hkinds : OfKinds Kind.isTight p] :
    Gives (Node.Binds levels) p where
  gives h n hn := by
    refine .operand fun heq => ?_
    have hkind := hkinds.gives h n hn
    rw [heq] at hkind
    cases hkind

end Binds

omit hg in
theorem gives_binary {lambdas : Bool} {levels : List (List String)} :
    Gives (Node.Binds levels) (binary g lambdas levels) := by
  induction levels with
  | nil => unfold binary; infer_instance
  | cons operators tighter ih =>
    have hloosened : Gives (Node.Binds (operators :: tighter)) (binary g lambdas tighter) :=
      ⟨fun h n hn => .loosen (ih.gives h n hn)⟩
    unfold binary instanceTest
    exact gives_extend fun _ => inferInstance

theorem sound_binary {lambdas : Bool} {levels : List (List String)}
    (hlevels : levels <:+ operatorLevels) : Sound text false [] (binary g lambdas levels) := by
  induction levels with
  | nil => unfold binary; infer_instance
  | cons operators tighter ih =>
    have hsound := ih ((List.suffix_cons _ _).trans hlevels)
    have htight : Gives (Node.Binds tighter) (binary g lambdas tighter) := gives_binary
    have hloosened : Gives (Node.Binds (operators :: tighter)) (binary g lambdas tighter) :=
      ⟨fun h n hn => .loosen (htight.gives h n hn)⟩
    unfold binary
    refine sound_extend (P := Node.Binds (operators :: tighter)) (fun _ => ?_) fun ns _ _ => ?_
    · unfold instanceTest; infer_instance
    · have hnode : Sound text false ns (node .binaryExpression (role .left (given ns)
          ++ role .operator (operator operators) ++ role .right (binary g lambdas tighter))) :=
        sound_node rfl rfl (fun h span => (binds_operation h span).of_suffix hlevels)
          fun _ => trivial
      infer_instance

instance {lambdas : Bool} : Sound text false [] (expression g lambdas) := by
  have hbinary : Sound text false [] (binary g lambdas operatorLevels) :=
    sound_binary (List.suffix_refl _)
  unfold expression; infer_instance

end Expressions

section Statements

instance : Sound text false [] (block g) := by
  unfold block; infer_instance
instance : Sound text false [] (throwStatement g) := by
  unfold throwStatement; infer_instance

instance : Sound text false [] yieldHead where
  run hpre hts hrun := by
    have hkeyword : Sound text false [] (keyword "yield") := inferInstance
    unfold yieldHead at hrun
    simp only at hrun
    split at hrun
    case h_1 ns rest hns =>
      split at hrun
      case isTrue =>
        cases hrun
        exact hkeyword.run hpre hts hns
      case isFalse => cases hrun
    case h_2 => cases hrun

instance : Sound text false [] (yieldStatement g) := by
  unfold yieldStatement; infer_instance
instance : Sound text false [] (expressionStatement g) := by
  unfold expressionStatement; infer_instance
instance : Sound text false [] (localVariables g) := by
  unfold localVariables; infer_instance
instance : Sound text false [] (labeledStatement g) := by
  unfold labeledStatement; infer_instance
instance : Sound text false [] (assertStatement g) := by
  unfold assertStatement; infer_instance
instance : Sound text false [] (doStatement g) := by
  unfold doStatement; infer_instance
instance {kind : Kind} {word : String} [Fact (kind.isPlain = true)] [Fact (kind.isShaped = false)] :
    Sound text false [] (jump kind word) := by
  unfold jump; infer_instance
instance : Sound text false [] (returnStatement g) := by
  unfold returnStatement; infer_instance
instance : Sound text false [] (synchronizedStatement g) := by
  unfold synchronizedStatement; infer_instance
instance : Sound text false [] (catchClause g) := by
  unfold catchClause; infer_instance
instance : Sound text false [] (finallyClause g) := by
  unfold finallyClause; infer_instance
instance : Sound text false [] (resource g) := by
  unfold resource; infer_instance
instance : Sound text false [] (resources g) := by
  unfold resources; infer_instance
instance : Sound text false [] (tryStatement g) := by
  unfold tryStatement; infer_instance
instance : Sound text false [] (ifStatement g) := by
  unfold ifStatement; infer_instance
instance : Sound text false [] (whileStatement g) := by
  unfold whileStatement; infer_instance
instance : Sound text false [] (forStatement g) := by
  unfold forStatement; infer_instance
instance : Sound text false [] labelEnds := by
  unfold labelEnds; infer_instance
instance : Sound text false [] (switchLabel g) := by
  unfold switchLabel; infer_instance
instance : Sound text false [] (switchRule g) := by
  unfold switchRule; infer_instance
instance : Sound text false [] (switchGroup g) := by
  unfold switchGroup; infer_instance
instance : Sound text false [] (switchBlock g) := by
  unfold switchBlock; infer_instance
instance {declaration : Recognizer} [Sound text false [] declaration] :
    Sound text false [] (statement g declaration) := by
  unfold statement; infer_instance

end Statements

section Declarations

instance : Sound text false [] (typeList g) := by
  unfold typeList; infer_instance
instance : Sound text false [] (superInterfaces g) := by
  unfold superInterfaces; infer_instance
instance : Sound text false [] (permitsClause g) := by
  unfold permitsClause; infer_instance

omit hg in
instance : Assigns .body Node.IsClassBody (role .body (g .classBody)) where
  assigns h n hn _ := by
    obtain ⟨xs, hxs, rfl⟩ := role_run h
    obtain ⟨m, hm, rfl⟩ := List.mem_map.mp hn
    obtain ⟨hkind, hchildren⟩ := hregular.classBody hxs m hm
    exact ⟨by simpa using hkind, by simpa using hchildren⟩

omit hg hregular in
instance : Unassigned (throwsClause g) := by unfold throwsClause; infer_instance

instance [Fact (∀ n ∈ ns, n.role = none)] : Sound text false ns (classDeclaration g ns) := by
  unfold classDeclaration; infer_instance
instance : Sound text false ns (interfaceDeclaration g ns) := by
  unfold interfaceDeclaration; infer_instance
instance : Sound text false ns (enumDeclaration g ns) := by
  unfold enumDeclaration; infer_instance
instance : Sound text false ns (recordDeclaration g ns) := by
  unfold recordDeclaration; infer_instance
instance : Sound text false ns (annotationDeclaration g ns) := by
  unfold annotationDeclaration; infer_instance
instance [Fact (∀ n ∈ ns, n.role = none)] : Sound text false ns (typeDeclaration g ns) := by
  unfold typeDeclaration; infer_instance
instance : Sound text false [] modulesList := by
  unfold modulesList; infer_instance
instance : Sound text false [] moduleDirective := by
  unfold moduleDirective; infer_instance
instance : Sound text false [] (moduleDeclaration g) := by
  unfold moduleDeclaration; infer_instance
instance : Sound text false [] (packageDeclaration g) := by
  unfold packageDeclaration; infer_instance

instance : Sound text false [] (leaf (·.kind = .token "*") fun _ => .asterisk) :=
  sound_leaf (fun _ _ _ => rfl) (fun _ _ _ _ h => by cases h) (fun _ _ => rfl)
    fun t _ ht => .inr ⟨by rw [of_decide_eq_true ht]; decide, rfl, rfl⟩

instance : Sound text false [] importDeclaration := by
  unfold importDeclaration; infer_instance
instance : Sound text false [] (modified g (typeDeclaration g)) :=
  sound_modified fun _ => inferInstance

instance : Sound text false [] (declaration g) := by
  unfold declaration; infer_instance
instance [Fact (∀ n ∈ ns, n.role = none)] : Sound text false ns (methodDeclaration g ns) := by
  unfold methodDeclaration
  exact sound_method inferInstance inferInstance inferInstance inferInstance
instance : Sound text false [] (constructorInvocation g) := by
  unfold constructorInvocation; infer_instance
instance [Fact (∀ n ∈ ns, n.role = none)] : Sound text false ns (constructorDeclaration g ns) := by
  unfold constructorDeclaration; infer_instance
instance : Sound text false ns (compactConstructor g ns) := by
  unfold compactConstructor; infer_instance

instance : Sound text false ns (variableDeclaration g .fieldDeclaration ns) := by
  unfold variableDeclaration; infer_instance

instance : Sound text false ns (variableDeclaration g .constantDeclaration ns) := by
  unfold variableDeclaration; infer_instance

instance [Fact (∀ n ∈ ns, n.role = none)] : Sound text false ns (member g ns) := by
  unfold member; infer_instance
instance : Sound text false [] (modified g (member g)) :=
  sound_modified fun _ => inferInstance

instance : Sound text false [] (classMember g) := by
  unfold classMember; infer_instance

-- The first child of a class body is the opening brace.
instance {p q : Recognizer} : Shapes .classBody (mark "\x7b" ++ p ++ q) where
  shape h := by
    obtain ⟨front, mid, ys, hfront, -, rfl⟩ := andThen_run h
    obtain ⟨opening, mid', inner, hopening, -, rfl⟩ := andThen_run hfront
    obtain ⟨t, -, ht, rfl⟩ := leaf_run hopening
    have hkind : t.kind = .token "\x7b" := of_decide_eq_true ht
    exact ⟨_, rfl, by simp [hkind, Node.isMark], hkind⟩

instance : Sound text false [] (classBody g) := by
  unfold classBody; infer_instance
instance : Sound text false [] (interfaceBody g) := by
  have hmember : Sound text false [] (modified g fun mods =>
      typeDeclaration g mods
        <|> notAhead (keyword "record")
          ++ (methodDeclaration g mods <|> variableDeclaration g .constantDeclaration mods)) :=
    sound_modified fun _ => inferInstance
  unfold interfaceBody; infer_instance

instance : Sound text false ns (annotationElement g ns) := by
  unfold annotationElement; infer_instance

instance : Sound text false [] (annotationBody g) := by
  have hmember : Sound text false [] (modified g fun mods =>
      classDeclaration g mods
        <|> interfaceDeclaration g mods
        <|> enumDeclaration g mods
        <|> annotationDeclaration g mods
        <|> annotationElement g mods
        <|> variableDeclaration g .constantDeclaration mods) :=
    sound_modified fun _ => inferInstance
  unfold annotationBody; infer_instance

instance : Sound text false [] (enumConstant g) := by
  unfold enumConstant; infer_instance
instance : Sound text false [] (enumBody g) := by
  unfold enumBody; infer_instance
instance : Sound text false [] (topLevel g) := by
  have hmethod : Sound text false [] (modified g (methodDeclaration g)) :=
    sound_modified fun _ => inferInstance
  unfold topLevel; infer_instance

end Declarations

section Goals

instance (goal : Goal) : Sound text false [] (rule g goal) := by
  cases goal
  all_goals unfold rule; infer_instance

omit hg

instance : Productive (namedType g) := by unfold namedType; infer_instance
instance : Productive (simpleType g) := by unfold simpleType primitiveType; infer_instance

instance : Productive (type g) := by
  unfold type
  exact productive_bind fun _ => inferInstance

instance : OfKinds Kind.isType (namedType g) := by unfold namedType; infer_instance

instance : OfKinds Kind.isType (simpleType g) := by
  unfold simpleType primitiveType; infer_instance

instance : OfKinds Kind.isType (type g) := by
  unfold type
  exact gives_bind fun _ => inferInstance

instance : Productive (stringLiteral g) := by unfold stringLiteral; infer_instance
instance : Productive (literal g) := by unfold literal; infer_instance
instance : Productive (typed g) := by unfold typed; infer_instance
instance {object : Recognizer} : Productive (memberOf g object) := by
  unfold memberOf; infer_instance
instance : Productive (arrayCreation g) := by unfold arrayCreation; infer_instance
instance : Productive (chainHead g) := by unfold chainHead parenthesized; infer_instance
instance : Productive (chainStep g ns) := by unfold chainStep; infer_instance
instance : Productive (primary g) := by unfold primary; infer_instance

instance {lambdas : Bool} : Productive (assignment g lambdas) := by
  unfold assignment
  exact productive_bind fun _ => inferInstance

instance {lambdas : Bool} : Productive (lambdaExpression g lambdas) := by
  unfold lambdaExpression; infer_instance
instance : Productive (switchExpression g) := by unfold switchExpression; infer_instance
instance {lambdas : Bool} : Productive (castExpression g lambdas) := by
  unfold castExpression; infer_instance
instance {lambdas : Bool} : Productive (signed g lambdas) := by unfold signed; infer_instance
instance {lambdas : Bool} : Productive (operand g lambdas) := by unfold operand; infer_instance

instance : Productive (classBody g) := by unfold classBody; infer_instance

instance : OfKinds Kind.isTight (literal g) := by
  have hliteral : OfKinds Kind.isTight (leaf (literalKinds.contains ·.kind) (·.kind)) := by
    refine ⟨?_⟩
    intro ts ns rest h n hn
    obtain ⟨t, -, ht, rfl⟩ := leaf_run h
    have hkinds : ∀ kind ∈ literalKinds, kind.isTight = true := by decide
    rw [List.mem_singleton.mp hn]
    exact hkinds t.kind (by simpa using ht)
  unfold literal stringLiteral; infer_instance

instance : OfKinds Kind.isTight (chainHead g) := by
  unfold chainHead typed parenthesized identifier memberOf arrayCreation; infer_instance

instance : OfKinds Kind.isTight (chainStep g ns) := by
  unfold chainStep memberOf; infer_instance

instance : OfKinds Kind.isTight (primary g) := by unfold primary; infer_instance

instance {lambdas : Bool} : OfKinds Kind.isTight (assignment g lambdas) := by
  unfold assignment
  exact gives_bind fun _ => inferInstance

instance {lambdas : Bool} : OfKinds Kind.isTight (signed g lambdas) := by
  unfold signed lambdaExpression switchExpression castExpression; infer_instance

instance {lambdas : Bool} : Productive (expression g lambdas) := by
  unfold expression
  exact productive_bind fun _ => inferInstance

end Goals

-- The goals of any depth, by induction on the depth: a rule only uses goals of less depth.
theorem regular_upToDepth (depth : Nat) : Goals.Regular (upToDepth depth) := by
  induction depth with
  | zero =>
    refine ⟨⟨?_⟩, ⟨?_⟩, ⟨?_⟩, ⟨?_⟩, fun _ => ⟨?_⟩, fun _ => ⟨?_⟩, fun _ => ⟨?_⟩, fun _ => ⟨?_⟩,
      fun _ => ⟨?_⟩, ⟨?_⟩, ⟨?_⟩, ?_⟩
    all_goals intro ts ns rest h; cases h
  | succ depth ih =>
    have hexpression : ∀ lambdas, Productive (expression (upToDepth depth) lambdas) :=
      fun _ => inferInstance
    have hoperand : ∀ lambdas, Productive (operand (upToDepth depth) lambdas) :=
      fun _ => inferInstance
    have hsigned : ∀ lambdas, Productive (signed (upToDepth depth) lambdas) :=
      fun _ => inferInstance
    have hoperandKinds : ∀ lambdas, OfKinds Kind.isTight (operand (upToDepth depth) lambdas) := by
      intro lambdas
      unfold operand; infer_instance
    have hsignedKinds : ∀ lambdas, OfKinds Kind.isTight (signed (upToDepth depth) lambdas) :=
      fun _ => inferInstance
    have hblock : Productive (block (upToDepth depth)) := by unfold block; infer_instance
    have hblockKinds : OfKinds Kind.isBody (block (upToDepth depth)) := by
      unfold block; infer_instance
    have hbody : Productive (classBody (upToDepth depth)) := inferInstance
    have htype : Productive (type (upToDepth depth)) := inferInstance
    have hkinds : OfKinds Kind.isType (type (upToDepth depth)) := inferInstance
    have hmarker : Unassigned (annotationForm (upToDepth depth)) := by
      unfold annotationForm; infer_instance
    refine ⟨⟨?_⟩, ⟨?_⟩, ⟨?_⟩, ⟨?_⟩, fun lambdas => ⟨?_⟩, fun lambdas => ⟨?_⟩, fun lambdas => ⟨?_⟩,
      fun lambdas => ⟨?_⟩, fun lambdas => ⟨?_⟩, ⟨?_⟩, ⟨?_⟩, ?_⟩
    · exact fun h => htype.ne_nil h
    · exact fun h => hkinds.gives h
    · exact fun h => hmarker.gives h
    · exact fun h => hbody.ne_nil h
    · exact fun h => (hexpression lambdas).ne_nil h
    · exact fun h => (hoperand lambdas).ne_nil h
    · exact fun h => (hsigned lambdas).ne_nil h
    · exact fun h => (hoperandKinds lambdas).gives h
    · exact fun h => (hsignedKinds lambdas).gives h
    · exact fun h => hblock.ne_nil h
    · exact fun h => hblockKinds.gives h
    · intro ts ns rest h n hn
      obtain ⟨xs, first, last, -, hfirst, -, rfl⟩ := node_run h
      rw [List.mem_singleton.mp hn]
      exact ⟨rfl, List.ne_nil_of_mem (List.mem_of_head? hfirst)⟩

theorem sound_upToDepth (text : List Char) (depth : Nat) : Goals.Sound text (upToDepth depth) := by
  induction depth with
  | zero => exact ⟨fun _ => ⟨fun _ _ h => by cases h⟩⟩
  | succ depth ih =>
    have := regular_upToDepth depth
    refine ⟨fun goal => ⟨?_⟩⟩
    have hrule : Sound text false [] (rule (upToDepth depth) goal) := inferInstance
    intro lo start ts ns rest hpre hts h
    exact hrule.run hpre hts h

-- The statements of a program stand in its text.
theorem run_of_program {text : List Char} {lo : Nat} {ts : List Token} {ns : List Node}
    (hts : Tokens text lo ts) (h : program ts = some ns) :
    ∃ stop, Run text false lo stop ns ∧ stop ≤ Text.byteLength text := by
  rw [program] at h
  have hsound := sound_upToDepth text (goalsPerToken * (ts.length + 2))
  have hregular := regular_upToDepth (goalsPerToken * (ts.length + 2))
  have hmany : Sound text false []
      (many (topLevel (upToDepth (goalsPerToken * (ts.length + 2))))) := inferInstance
  split at h
  case h_1 ns' hrun =>
    cases h
    obtain ⟨stop, hns, hrest⟩ := hmany.run (.nil lo) hts hrun
    exact ⟨stop, hns, hrest.inOrder⟩
  case h_2 => cases h

end ClassSplit.Java.Grammar
