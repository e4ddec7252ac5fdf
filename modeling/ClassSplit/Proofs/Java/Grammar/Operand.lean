import ClassSplit.Java.Source
import ClassSplit.Proofs.Java.Grammar.Reading
import Mathlib.Data.List.Infix

/-!
Operands and what stands around them. Behind an operand an operator or the end of the expression
shows that it goes on no further; literals, names and calls are recognized as operands and as
nothing else, whatever follows.
-/

namespace ClassSplit.Java

/-- A word that is a name. -/
structure Token.IsName (t : Token) : Prop where
  kind : t.kind = .identifier
  isName : isName t.text = true

namespace Grammar

open Recognizer hiding optional

variable {d : Nat} {l : Bool} {t u v : Token} {ts us tail rest : List Token} {ns : List Node}
  {word : String} {o : Operator} {e : Expression}

/-- The tokens of an operator. Greater-than signs stand for themselves, and must touch. -/
inductive SpellsOperator : Operator → List Token → Prop
  | mark {o : Operator} {t : Token} (ht : t.kind = .token o.sign)
    (ho : o.sign.toList.head? ≠ some '>') : SpellsOperator o [t]
  | rightShift {t u : Token} (ht : t.kind = .token ">") (hu : u.kind = .token ">")
    (htu : u.span.start = t.span.stop) : SpellsOperator .rightShift [t, u]
  | unsignedRightShift {t u v : Token} (ht : t.kind = .token ">") (hu : u.kind = .token ">")
    (hv : v.kind = .token ">") (htu : u.span.start = t.span.stop)
    (huv : v.span.start = u.span.stop) : SpellsOperator .unsignedRightShift [t, u, v]

-- The first token of an operand is a parenthesis or no mark at all.
def BeginsOperand (ts : List Token) : Prop :=
  ∃ t rest, ts = t :: rest ∧ ∀ mark, t.kind = .token mark → mark = "("

-- What may stand behind an operand: something that ends an expression, or an operator and another
-- operand.
inductive Ends : List Token → Prop
  | mark {t : Token} {ts : List Token} (h : t.kind = .token ")" ∨ t.kind = .token ";") : Ends (t :: ts)
  | operator {o : Operator} {os tail : List Token} (ho : SpellsOperator o os)
    (htail : BeginsOperand tail) : Ends (os ++ tail)

/-- The marks with which an operator or the rest of a statement begins. -/
def endings : List String := [")", ";", "+", "-", "*", "/", "%", "<<", ">", "&", "|", "^"]

theorem SpellsOperator.exists_head (h : SpellsOperator o ts) :
    ∃ t us word, ts = t :: us ∧ t.kind = .token word ∧ word ∈ endings ∧
      (word = ">" ∨ word = o.sign) := by
  cases h with
  | mark ht ho =>
    refine ⟨_, _, _, rfl, ht, ?_, .inr rfl⟩
    cases o
    all_goals first | decide | exact absurd rfl ho
  | rightShift ht => exact ⟨_, _, _, rfl, ht, by decide, .inl rfl⟩
  | unsignedRightShift ht => exact ⟨_, _, _, rfl, ht, by decide, .inl rfl⟩

theorem Ends.exists_head (h : Ends ts) :
    ∃ t us word, ts = t :: us ∧ t.kind = .token word ∧ word ∈ endings := by
  cases h with
  | mark h =>
    obtain h | h := h
    · exact ⟨_, _, _, rfl, h, by decide⟩
    · exact ⟨_, _, _, rfl, h, by decide⟩
  | operator ho =>
    obtain ⟨t, us, word, rfl, ht, hword, -⟩ := ho.exists_head
    exact ⟨t, _, word, rfl, ht, hword⟩

section Operator

theorem run_operator_of_ne {words : List String} (h : t.kind = .token word) (hword : word ≠ ">")
    (ts : List Token) : (operator words).run (t :: ts) =
      if word ∈ words then some ([.leaf (.token word) none t.span word], ts) else none := by
  simp only [operator]
  induction words with
  | nil => rfl
  | cons first words ih =>
    rw [List.findSome?_cons]
    by_cases heq : first = word
    case pos =>
      subst heq
      simp [operator.glued, h]
    case neg =>
      have hglued : operator.glued first.toList (t :: ts) = none := by
        have hne : word.toList ≠ first.toList := fun h => heq (String.toList_inj.mp h).symm
        simp [operator.glued, h, hne, hword]
      rw [hglued, Option.map_none]
      simp [ih, Ne.symm heq]

theorem run_operator_of_greater {words : List String} (h : t.kind = .token ">")
    (hwords : ∀ w ∈ words, w.toList.head? ≠ some '>') (ts : List Token) :
    (operator words).run (t :: ts) = none := by
  simp only [operator]
  refine List.findSome?_eq_none_iff.mpr fun w hw => ?_
  have hhead := hwords w hw
  have hne : ['>'] ≠ w.toList := by
    rintro heq
    rw [← heq] at hhead
    exact hhead rfl
  simp [operator.glued, h, hhead, hne]

theorem BeginsOperand.glued (h : BeginsOperand tail) (spelling : List Char)
    (hspelling : spelling.head? ≠ some '(') : operator.glued spelling tail = none := by
  obtain ⟨t, rest, rfl, ht⟩ := h
  rw [operator.glued]
  split
  case h_1 mark hmark =>
    obtain rfl := ht mark hmark
    have hne : ['('] ≠ spelling := by
      rintro rfl
      exact hspelling rfl
    simp [hne]
  case h_2 => rfl

theorem SpellsOperator.run_assignment (h : SpellsOperator o ts) (htail : BeginsOperand tail) :
    (operator assignmentOperators).run (ts ++ tail) = none := by
  have hequals := htail.glued ['='] (by decide)
  have hgreater := htail.glued ['>', '='] (by decide)
  cases h with
  | mark ht ho =>
    have hne : o.sign ≠ ">" := by
      rintro heq
      rw [heq] at ho
      exact ho rfl
    have hmem : o.sign ∉ assignmentOperators := by
      cases o
      all_goals decide
    rw [List.singleton_append, run_operator_of_ne ht hne, if_neg hmem]
  | rightShift ht hu htu =>
    simp [operator, operator.glued, ht, hu, htu, assignmentOperators, hequals, hgreater]
  | unsignedRightShift ht hu hv htu huv =>
    simp [operator, operator.glued, ht, hu, hv, htu, huv, assignmentOperators, hequals]

-- The level of an operator has it, and no tighter level has an operator that begins like it.
theorem SpellsOperator.exists_run (h : SpellsOperator o ts) (htail : BeginsOperand tail)
    {operators : List String} (hlevel : operators ∈ operatorLevels) (ho : o.sign ∈ operators) :
    ∃ span, (operator operators).run (ts ++ tail) =
      some ([.leaf (.token o.sign) none span o.sign], tail) := by
  cases h with
  | @mark o t ht hsign =>
    refine ⟨t.span, ?_⟩
    have hne : o.sign ≠ ">" := by
      rintro heq
      rw [heq] at hsign
      exact hsign rfl
    rw [List.singleton_append, run_operator_of_ne ht hne, if_pos ho]
  | @rightShift t u ht hu htu =>
    obtain rfl : operators = [">>>", ">>", "<<"] := by
      revert operators
      decide
    refine ⟨⟨t.span.start, u.span.stop⟩, ?_⟩
    have hgreater := htail.glued ['>'] (by decide)
    simp [operator, operator.glued, ht, hu, htu, hgreater, Operator.sign]
  | @unsignedRightShift t u v ht hu hv htu huv =>
    obtain rfl : operators = [">>>", ">>", "<<"] := by
      revert operators
      decide
    refine ⟨⟨t.span.start, v.span.stop⟩, ?_⟩
    simp [operator, operator.glued, ht, hu, hv, htu, huv, Operator.sign]

theorem SpellsOperator.run_of_mem (h : SpellsOperator o ts) (tail : List Token)
    {operators : List String} {tighter : List (List String)}
    (hsuffix : operators :: tighter <:+ operatorLevels) (ho : o.sign ∈ operators) :
    ∀ level ∈ tighter, (Recognizer.operator level).run (ts ++ tail) = none := by
  have hapart : ∀ levels ∈ operatorLevels.tails, ∀ operators ∈ levels.head?, ∀ o ∈ Operator.all,
      o.sign ∈ operators → ∀ level ∈ levels.tail, o.sign ∉ level ∧
        (o.sign.toList.head? = some '>' → ∀ w ∈ level, w.toList.head? ≠ some '>') := by
    decide
  intro level hlevel
  obtain ⟨hnot, hgreater⟩ := hapart _ ((List.mem_tails _ _).mpr hsuffix) operators rfl o
    (by cases o <;> decide) ho level hlevel
  cases h with
  | mark ht hsign =>
    have hne : o.sign ≠ ">" := by
      rintro heq
      rw [heq] at hsign
      exact hsign rfl
    rw [List.singleton_append, run_operator_of_ne ht hne, if_neg hnot]
  | rightShift ht => exact run_operator_of_greater ht (hgreater rfl) _
  | unsignedRightShift ht => exact run_operator_of_greater ht (hgreater rfl) _

end Operator


-- What no construct of the expression grammar begins with or goes on with.
section Failure

theorem run_annotationForm (h : t.kind ≠ .token "@") (ts : List Token) :
    (upToDepth d .annotationForm).run (t :: ts) = none := by
  have hsign : annotationSign.run (t :: ts) = none := by
    cases ts with
    | nil => rfl
    | cons next ts => simp [annotationSign, h]
  cases d with
  | zero => rfl
  | succ d =>
    change (annotationForm _).run _ = none
    simp [annotationForm, hsign]

theorem run_type_of_ne (h : t.kind ≠ .identifier) (ts : List Token) :
    (upToDepth d .type).run (t :: ts) = none := by
  cases d with
  | zero => rfl
  | succ d =>
    change (type _).run _ = none
    simp [type, simpleType, primitiveType, namedType, h]

theorem run_annotatedType (h : t.kind ≠ .token "@") (ts : List Token) :
    (annotatedType (upToDepth d)).run (t :: ts) = (upToDepth d .type).run (t :: ts) := by
  simp [annotatedType, run_annotationForm h]

theorem run_chainStep (h : t.kind = .token word) (hword : word ∉ [".", "[", "::"])
    (ts : List Token) : (chainStep (upToDepth d) ns).run (t :: ts) = none := by
  simp only [List.mem_cons, not_or, List.not_mem_nil, not_false_eq_true, and_true] at hword
  simp [chainStep, memberOf, referencedMember, h, hword]

/-- The marks with which an operand begins. -/
def openings : List String := ["(", "\"", "\"\"\""]

def signs : List String := ["+", "-", "!", "~", "++", "--"]

theorem run_primary (h : t.kind = .token word) (hword : word ∉ openings) (ts : List Token) :
    (primary (upToDepth d)).run (t :: ts) = none := by
  have htype := run_type_of_ne (d := d) (t := t) (by simp [h]) ts
  have hkinds : Kind.token word ∉ literalKinds := by simp [literalKinds]
  simp only [openings, List.mem_cons, not_or, List.not_mem_nil, not_false_eq_true, and_true]
    at hword
  refine run_extend_of_none ?_
  simp [chainHead, literal, stringLiteral, typed, memberOf, h, hkinds, htype, hword,
    parenthesized, objectCreation, arrayCreation]

theorem run_lambdaExpression (h : t.kind = .token word) (hword : word ≠ "(") (ts : List Token) :
    (lambdaExpression (upToDepth d) l).run (t :: ts) = none := by
  simp [lambdaExpression, arrowAhead, h, hword]

theorem run_signed (h : t.kind = .token word) (hword : word ∉ openings ++ signs)
    (ts : List Token) : (upToDepth d (.signed l)).run (t :: ts) = none := by
  obtain ⟨hopening, hsign⟩ := not_or.mp (List.mem_append.not.mp hword)
  cases d with
  | zero => rfl
  | succ d =>
    change (signed _ _).run _ = none
    have hprimary := run_primary (d := d) h hopening ts
    simp only [openings, signs, List.mem_cons, not_or, List.not_mem_nil, not_false_eq_true,
      and_true] at hopening hsign
    have hlambda := run_lambdaExpression (d := d) (l := l) h hopening.left ts
    simp [signed, switchExpression, castExpression, assignment, h, hopening, hsign, hprimary,
      hlambda]

theorem run_binary (h : t.kind = .token word) (hword : word ∉ openings ++ signs)
    (levels : List (List String)) (ts : List Token) :
    (binary (upToDepth d) l levels).run (t :: ts) = none := by
  induction levels with
  | nil =>
    cases d with
    | zero => rfl
    | succ d => exact run_extend_of_none (run_signed h hword ts)
  | cons operators levels ih => exact run_extend_of_none ih

theorem run_expression (h : t.kind = .token word) (hword : word ∉ openings ++ signs)
    (ts : List Token) : (upToDepth d (.expression l)).run (t :: ts) = none := by
  cases d with
  | zero => rfl
  | succ d => exact run_bind_of_none (run_binary h hword _ ts)

end Failure

section Operand

theorem run_chainStep_of_ends (h : Ends ts) : (chainStep (upToDepth d) ns).run ts = none := by
  obtain ⟨t, us, word, rfl, ht, hword⟩ := h.exists_head
  have hapart : ∀ word ∈ endings, word ∉ [".", "[", "::"] := by decide
  exact run_chainStep ht (hapart word hword) us

theorem run_assignmentOperators_of_ends (h : Ends ts) :
    (operator assignmentOperators).run ts = none := by
  cases h with
  | @mark t ts h =>
    obtain h | h := h
    · rw [run_operator_of_ne h (by decide), if_neg (by decide)]
    · rw [run_operator_of_ne h (by decide), if_neg (by decide)]
  | operator ho htail => exact ho.run_assignment htail

-- What an operand is read as, once it has been recognized as the head of a chain.
theorem run_assignment_of_ends (h : (primary (upToDepth d)).run ts = some (ns, rest))
    (hrest : Ends rest) : (assignment (upToDepth d) l).run ts = some (ns, rest) := by
  rw [assignment, run_bind_of_some h]
  simp [run_assignmentOperators_of_ends hrest]

theorem run_operand_of_ends (h : (upToDepth d (.signed l)).run ts = some (ns, rest))
    (hrest : Ends rest) :
    (upToDepth (d + 1) (.operand l)).run ts = some (ns, rest) := by
  refine run_extend_stop h ?_
  obtain ⟨t, us, word, rfl, ht, hword⟩ := hrest.exists_head
  have hapart : ∀ word ∈ endings, word ≠ "++" ∧ word ≠ "--" := by decide
  simp [ht, hapart word hword]

theorem reads_signed_literal {v : Value} (h : literal? t.kind t.text = some v) (hrest : Ends rest) :
    Reads (upToDepth (d + 1) (.signed l)) (t :: rest) [.expression (.literal v)] rest := by
  have hkind : t.kind ∈ literalKinds ∧ t.kind ≠ .identifier ∧ ∀ mark, t.kind ≠ .token mark := by
    have hkind := isIntegerLiteralKind_of_literal? h
    generalize t.kind = kind at hkind
    cases kind
    all_goals first | exact ⟨by decide, nofun, nofun⟩ | cases hkind
  obtain ⟨hliteral, hidentifier, hmark⟩ := hkind
  have hprimary : (primary (upToDepth d)).run (t :: rest) =
      some ([.leaf t.kind none t.span t.text], rest) := by
    refine run_extend_stop ?_ (run_chainStep_of_ends hrest)
    simp [chainHead, literal, hliteral]
  refine ⟨[.leaf t.kind none t.span t.text], ?_, ?_⟩
  · change (signed _ _).run _ = _
    have hlambda : (lambdaExpression (upToDepth d) l).run (t :: rest) = none := by
      simp [lambdaExpression, arrowAhead, hidentifier, hmark]
    simp [signed, switchExpression, castExpression, hidentifier, hmark, hlambda,
      run_assignment_of_ends hprimary hrest]
  · exact Node.phrases?_singleton (Phrase.ofToken?_of_literal? h)

theorem run_annotations (h : t.kind ≠ .token "@") (ts : List Token) :
    (annotations (upToDepth d)).run (t :: ts) = some ([], t :: ts) :=
  run_many_of_none (run_annotationForm h ts)

theorem run_dimensions (h : t.kind = .token word) (hword : word ∉ ["[", "@"]) :
    (dimensions (upToDepth d)).run (t :: ts) = none := by
  simp only [List.mem_cons, not_or, List.not_mem_nil, not_false_eq_true, and_true] at hword
  refine run_node_of_none (run_many1_of_none ?_)
  simp [run_annotations, h, hword]

theorem run_simpleType (h : t.IsName) (ts : List Token) :
    (simpleType (upToDepth d)).run (t :: ts) = (namedType (upToDepth d)).run (t :: ts) := by
  have hmem := h.isName
  simp [isName, typeKeywords, expressionKeywords, integralTypes, floatingPointTypes] at hmem
  simp [simpleType, primitiveType, h.kind, hmem, integralTypes, floatingPointTypes]

theorem run_wordAs_of_isName (h : t.IsName) (ts : List Token) :
    (wordAs .typeIdentifier typeKeywords).run (t :: ts) =
      some ([.leaf .typeIdentifier none t.span t.text], ts) := by
  have hmem := h.isName
  simp only [isName, List.contains_eq_mem, Bool.not_eq_true', decide_eq_false_iff_not] at hmem
  simp [h.kind, hmem]

theorem run_type_of_namedType {us : List Token} (ht : t.IsName)
    (h : (namedType (upToDepth d)).run (t :: us) = some (ns, u :: ts)) (hu : u.kind = .token word)
    (hword : word ∉ ["[", "@"]) : (upToDepth (d + 1) .type).run (t :: us) = some (ns, u :: ts) := by
  change (type _).run _ = _
  rw [type, run_bind_of_some ((run_simpleType ht _).trans h)]
  simp only [run_orElse, run_given]
  rw [run_node_of_none (by simp [run_dimensions hu hword]), Option.none_or]

-- Behind a name a type goes on with a dot or with type arguments alone.
theorem run_type_of_isName (h : t.IsName) (hu : u.kind = .token word)
    (hword : word ∉ [".", "<", "[", "@"]) (ts : List Token) :
    (upToDepth (d + 1) .type).run (t :: u :: ts) =
      some ([.leaf .typeIdentifier none t.span t.text], u :: ts) := by
  simp only [List.mem_cons, not_or, List.not_mem_nil, not_false_eq_true, and_true] at hword
  refine run_type_of_namedType h (run_extend_stop (run_wordAs_of_isName h (u :: ts)) ?_) hu (by simp [hword])
  simp [isKind, typeArguments, hu, hword, Node.kind]

-- A name in front of an opening parenthesis and behind another name and a dot.
theorem run_type_of_member (hobject : v.IsName) (hu : u.kind = .token ".") (h : t.IsName)
    {w : Token} (hw : w.kind = .token "(") (ts : List Token) :
    ∃ n, isPlainTypeName [n] = true ∧
      (upToDepth (d + 1) .type).run (v :: u :: t :: w :: ts) = some ([n], w :: ts) := by
  have hannotations := run_annotations (d := d) (t := t) (by simp [h.kind]) (w :: ts)
  have hselector : t.text ∉ selectorKeywords := by
    intro hmem
    have hkeywords : ∀ w ∈ selectorKeywords, w ∈ typeKeywords := by decide
    have hname := h.isName
    simp [isName, hkeywords _ hmem] at hname
  have hnamed : (namedType (upToDepth d)).run (v :: u :: t :: w :: ts) =
      some ([.branch .scopedTypeIdentifier none ⟨v.span.start, t.span.stop⟩
        [.leaf .typeIdentifier none v.span v.text, .leaf (.token ".") none u.span u.text,
          .leaf .typeIdentifier none t.span t.text]], w :: ts) := by
    refine run_extend_once (run_wordAs_of_isName hobject _) ?_ (by simp only [List.length_cons]; omega) ?_
    · simp [isKind, typeArguments, hu, Node.kind, hannotations, h.kind, hselector, node, Node.span]
    · simp [isKind, typeArguments, hw, Node.kind]
  have htype := run_type_of_namedType hobject hnamed hw (by decide)
  refine ⟨_, ?_, htype⟩
  simp [isPlainTypeName, isPlainTypeName.isPlain, Node.kind]

-- A plain name that is no type in front of `.class` is no expression that begins with a type.
theorem run_typed (us : List Token)
    (h : (upToDepth d .type).run ts = none ∨ ∃ n, isPlainTypeName [n] = true ∧
      (upToDepth d .type).run ts = some ([n], u :: us))
    (hu : u.kind = .token word) (hword : word ≠ ".") :
    (typed (upToDepth d)).run ts = none := by
  obtain h | ⟨n, hplain, h⟩ := h
  · simp [typed, h]
  · simp [typed, h, hu, hword, suchThat, Recognizer.bind, hplain, node]

theorem run_identifier_of_isName (h : t.IsName) (ts : List Token) :
    (Recognizer.identifier expressionKeywords).run (t :: ts) =
      some ([.leaf .identifier none t.span t.text], ts) := by
  have hmem : t.text ∉ expressionKeywords := by
    intro hmem
    have hname := h.isName
    simp [isName, typeKeywords, hmem] at hname
  simp [h.kind, hmem]

theorem run_chainHead_of_isName (h : t.IsName)
    (htyped : (typed (upToDepth d)).run (t :: u :: ts) = none) (hu : u.kind = .token word)
    (hword : word ≠ "(") :
    (chainHead (upToDepth d)).run (t :: u :: ts) =
      some ([.leaf .identifier none t.span t.text], u :: ts) := by
  have hmem := h.isName
  simp [isName, typeKeywords, expressionKeywords, integralTypes, floatingPointTypes] at hmem
  simp [chainHead, literal, stringLiteral, h.kind, literalKinds, hmem, htyped, hu, hword,
    argumentList, expressionKeywords, integralTypes, floatingPointTypes]

theorem run_signed_of_assignment (h : t.IsName) (hu : u.kind = .token word) (hword : word ≠ "->")
    (hassignment : (assignment (upToDepth d) l).run (t :: u :: ts) = some (ns, rest)) :
    (upToDepth (d + 1) (.signed l)).run (t :: u :: ts) = some (ns, rest) := by
  change (signed _ _).run _ = _
  have hswitch : t.text ≠ "switch" := by
    have hmem := h.isName
    rintro heq
    rw [heq] at hmem
    exact absurd hmem (by decide)
  have hlambda : (lambdaExpression (upToDepth d) l).run (t :: u :: ts) = none := by
    have hparameters : (Recognizer.identifier expressionKeywords ++ ahead (mark "->")).run
        (t :: u :: ts) = none := by
      rw [run_append_of_some (run_identifier_of_isName h _)]
      simp [ahead, hu, hword]
    refine run_node_of_none (run_append_of_none (run_append_of_none ?_))
    rw [run_role, run_orElse, hparameters]
    simp [arrowAhead, h.kind]
  simp [signed, switchExpression, castExpression, h.kind, hlambda, hswitch, hassignment]

theorem run_signed_of_primary (h : t.IsName) (hu : u.kind = .token word) (hword : word ≠ "->")
    (hprimary : (primary (upToDepth d)).run (t :: u :: ts) = some (ns, rest)) (hrest : Ends rest) :
    (upToDepth (d + 1) (.signed l)).run (t :: u :: ts) = some (ns, rest) :=
  run_signed_of_assignment h hu hword (run_assignment_of_ends hprimary hrest)

theorem reads_signed_name (h : t.IsName) (hrest : Ends rest) :
    Reads (upToDepth (d + 1) (.signed l)) (t :: rest) [.expression (.read (.name t.text))]
      rest := by
  obtain ⟨u, us, word, rfl, hu, hword⟩ := hrest.exists_head
  have hapart : ∀ word ∈ endings, word ∉ [".", "<", "[", "@"] ∧ word ≠ "." ∧ word ≠ "(" ∧
      word ≠ "->" := by decide
  obtain ⟨htypes, hdot, hparen, harrow⟩ := hapart word hword
  have htyped : (typed (upToDepth d)).run (t :: u :: us) = none := by
    refine run_typed us ?_ hu hdot
    cases d with
    | zero => exact .inl rfl
    | succ d => exact .inr ⟨_, rfl, run_type_of_isName h hu htypes us⟩
  have hprimary : (primary (upToDepth d)).run (t :: u :: us) = _ :=
    run_extend_stop (run_chainHead_of_isName h htyped hu hparen) (run_chainStep_of_ends hrest)
  refine ⟨_, run_signed_of_primary h hu harrow hprimary hrest, Node.phrases?_singleton ?_⟩
  rw [Node.phrase?, Phrase.ofToken?, if_pos h.isName]

-- A call of a method of an object that has a name.
theorem reads_call {object dot method opening : Token} {argument : Option Expression}
    {p : Phrase} (hobject : object.IsName) (hdot : dot.kind = .token ".") (hmethod : method.IsName)
    (hopening : opening.kind = .token "(")
    (harguments : Reads (argumentList (upToDepth d)) (opening :: ts) [.arguments argument] rest)
    (hp : Phrase.invocation? [.expression (.read (.name object.text)), .mark ".",
      .expression (.read (.name method.text)), .arguments argument] = some p)
    (hrest : Ends rest) (hlt : rest.length < ts.length) :
    Reads (upToDepth (d + 1) (.signed l)) (object :: dot :: method :: opening :: ts) [p]
      rest := by
  have hmem := hmethod.isName
  simp [isName, typeKeywords, expressionKeywords, integralTypes, floatingPointTypes] at hmem
  have htyped : (typed (upToDepth d)).run (object :: dot :: method :: opening :: ts) = none := by
    refine run_typed ts ?_ hopening (by decide)
    cases d with
    | zero => exact .inl rfl
    | succ d => exact .inr (run_type_of_member hobject hdot hmethod hopening ts)
  have hhead := run_chainHead_of_isName hobject htyped hdot (by decide)
  -- The object is no creation of another object, because the word behind the dot is a name.
  have hstep : Reads (chainStep (upToDepth d) [.leaf .identifier none object.span object.text])
      (dot :: method :: opening :: ts) [p] rest := by
    have hp' : Phrase.ofChildren? .methodInvocation [.expression (.read (.name object.text)),
      .mark ".", .expression (.read (.name method.text)), .arguments argument] = some p := hp
    refine .right ?_ (.left (.left (.node ?_ hp' (List.cons_ne_nil _ _))))
    · simp [objectCreation, hdot, hmethod.kind, hmem]
    · have hread : Node.phrases? [.leaf .identifier none object.span object.text] =
          some [.expression (.read (.name object.text))] := by
        refine Node.phrases?_singleton ?_
        rw [Node.phrase?, Phrase.ofToken?, if_pos hobject.isName]
      have hsuper : (Recognizer.optional (keywordAs .superWord "super" ++ mark ".")).run
          (method :: opening :: ts) = some ([], method :: opening :: ts) :=
        run_optional_of_none (by simp [hmem])
      have htypes : (role .typeArguments (Recognizer.optional (typeArguments (upToDepth d)))).run
          (method :: opening :: ts) = some ([], method :: opening :: ts) := by
        rw [run_role, run_optional_of_none (by simp [typeArguments, hmethod.kind])]
        rfl
      have hname := (Reads.identifier ["this", "super", "new"] hmethod.kind
        hmethod.isName (by simp [hmem]) (opening :: ts)).role .name
      have hfront := ((Reads.given hread _).role .object).append (.mark hdot (method :: opening :: ts))
      exact (((hfront.appendNothing hsuper).appendNothing htypes).append hname).append
        (harguments.role .arguments)
  obtain ⟨ns, hns, hphrases⟩ := hstep
  have hprimary : (primary (upToDepth d)).run (object :: dot :: method :: opening :: ts) =
      some (ns, rest) :=
    run_extend_once hhead hns (by simp only [List.length_cons]; omega) (run_chainStep_of_ends hrest)
  exact ⟨ns, run_signed_of_primary hobject hdot (by decide) hprimary hrest, hphrases⟩

theorem reads_argumentList_nil {opening closing : Token} (hopening : opening.kind = .token "(")
    (hclosing : closing.kind = .token ")") (ts : List Token) :
    Reads (argumentList (upToDepth d)) (opening :: closing :: ts) [.arguments none] ts := by
  have hnone : (commaSeparated (upToDepth d (.expression true))).run (closing :: ts) =
      some ([], closing :: ts) :=
    run_optional_of_none (run_append_of_none (run_expression hclosing (by decide) ts))
  exact .node (((Reads.mark hopening _).appendNothing hnone).append (.mark hclosing ts)) rfl
    (by simp)

theorem reads_argumentList {opening closing : Token} (hopening : opening.kind = .token "(")
    (hargument : Reads (upToDepth d (.expression true)) ts [.expression e] (closing :: rest))
    (hclosing : closing.kind = .token ")") :
    Reads (argumentList (upToDepth d)) (opening :: ts) [.arguments (some e)] rest := by
  have hcomma : (many (mark "," ++ upToDepth d (.expression true))).run (closing :: rest) =
      some ([], closing :: rest) := run_many_of_none (by simp [hclosing])
  have hlist : Reads (commaSeparated (upToDepth d (.expression true))) ts [.expression e]
      (closing :: rest) := .left (hargument.appendNothing hcomma)
  exact .node (((Reads.mark hopening _).append hlist).append (.mark hclosing rest)) rfl (by simp)

end Operand

end Grammar

end ClassSplit.Java
