import ClassSplit.Proofs.Java.Grammar.Statement

/-!
Blocks of one line are recognized as what they are, where the line gives back a variable or a step
of one, or assigns a variable to a field of the object. Main statement: `SpellsBody.reads_block`.
-/

namespace ClassSplit.Java

namespace Grammar

open Recognizer hiding optional

variable {d : Nat} {l : Bool} {t u v : Token} {ts us rest : List Token} {ns : List Node}
  {word : String} {e : Expression} {x : Holder} {p : Phrase} {body : Procedure.Body}

/-- The sign of a step. -/
def stepSign (isIncrement : Bool) : String := if isIncrement then "++" else "--"

/-- The tokens of a line that gives back a variable or a step of one, or stores a variable. -/
inductive SpellsBody : List Token → Procedure.Body → Prop
  | name {giving x semicolon : Token} (hgiving : giving.kind = .identifier)
    (hword : giving.text = "return") (hx : x.IsName) (hsemicolon : semicolon.kind = .token ";") :
    SpellsBody [giving, x, semicolon] (.giveBack (.read (.name x.text)))
  | front {giving sign x semicolon : Token} {isIncrement : Bool}
    (hgiving : giving.kind = .identifier) (hword : giving.text = "return")
    (hsign : sign.kind = .token (stepSign isIncrement)) (hx : x.IsName)
    (hsemicolon : semicolon.kind = .token ";") :
    SpellsBody [giving, sign, x, semicolon] (.giveBack (.step isIncrement true (.name x.text)))
  | back {giving sign x semicolon : Token} {isIncrement : Bool}
    (hgiving : giving.kind = .identifier) (hword : giving.text = "return") (hx : x.IsName)
    (hsign : sign.kind = .token (stepSign isIncrement)) (hsemicolon : semicolon.kind = .token ";") :
    SpellsBody [giving, x, sign, semicolon] (.giveBack (.step isIncrement false (.name x.text)))
  | assign {self dot field equals x semicolon : Token} (hself : self.kind = .identifier)
    (hword : self.text = "this") (hdot : dot.kind = .token ".") (hfield : field.IsName)
    (hequals : equals.kind = .token "=") (hx : x.IsName)
    (hsemicolon : semicolon.kind = .token ";") :
    SpellsBody [self, dot, field, equals, x, semicolon]
      (.run (.assign (.own field.text) (.read (.name x.text))))

section Step

theorem reads_stepSign {isIncrement : Bool} (ht : t.kind = .token (stepSign isIncrement))
    (ts : List Token) :
    Reads (mark "++" <|> mark "--") (t :: ts) [.mark (stepSign isIncrement)] ts := by
  cases isIncrement with
  | true => exact .left (.mark ht ts)
  | false => exact .right (by simp [ht, stepSign]) (.mark ht ts)

theorem reads_signed_step {isIncrement : Bool} (ht : t.kind = .token (stepSign isIncrement))
    (h : Reads (upToDepth d (.signed l)) ts [.expression e] rest) (hx : e.variable? = some x) :
    Reads (upToDepth (d + 1) (.signed l)) (t :: ts) [.expression (.step isIncrement true x)]
      rest := by
  have hupdate : Phrase.ofChildren? .updateExpression
      [.mark (stepSign isIncrement), .expression e] =
        some (.expression (.step isIncrement true x)) := by
    cases isIncrement
    all_goals simp [Phrase.ofChildren?, Phrase.update?, Phrase.isIncrement?, stepSign, hx]
  refine .right (run_node_of_none ?_) (.left (.node ((reads_stepSign ht ts).append h) hupdate
    (by simp)))
  cases isIncrement
  all_goals simp [ht, stepSign]

-- A name in front of the sign of a step.
theorem reads_signed_name_of_step {isIncrement : Bool} (h : t.IsName)
    (hu : u.kind = .token (stepSign isIncrement)) (ts : List Token) :
    Reads (upToDepth (d + 1) (.signed l)) (t :: u :: ts) [.expression (.read (.name t.text))]
      (u :: ts) := by
  have hapart : stepSign isIncrement ∉ [".", "<", "[", "@"] ∧ stepSign isIncrement ≠ "." ∧
      stepSign isIncrement ≠ "(" ∧ stepSign isIncrement ≠ "->" ∧ stepSign isIncrement ≠ ">" ∧
      stepSign isIncrement ∉ [".", "[", "::"] ∧ stepSign isIncrement ∉ assignmentOperators := by
    cases isIncrement
    all_goals decide
  obtain ⟨htypes, hdot, hparen, harrow, hgreater, hchain, hassign⟩ := hapart
  have htyped : (typed (upToDepth d)).run (t :: u :: ts) = none := by
    refine run_typed ts ?_ hu hdot
    cases d with
    | zero => exact .inl rfl
    | succ d => exact .inr ⟨_, rfl, run_type_of_isName h hu htypes ts⟩
  have hprimary : (primary (upToDepth d)).run (t :: u :: ts) = _ :=
    run_extend_stop (run_chainHead_of_isName h htyped hu hparen) (run_chainStep hu hchain ts)
  have hnone : (operator assignmentOperators).run (u :: ts) = none := by
    rw [run_operator_of_ne hu hgreater, if_neg hassign]
  have hassignment : (assignment (upToDepth d) l).run (t :: u :: ts) =
      some ([.leaf .identifier none t.span t.text], u :: ts) := by
    rw [assignment, run_bind_of_some hprimary]
    simp [hnone]
  refine ⟨_, run_signed_of_assignment h hu harrow hassignment, Node.phrases?_singleton ?_⟩
  rw [Node.phrase?, Phrase.ofToken?, if_pos h.isName]

theorem reads_operand_step {isIncrement : Bool} (h : t.IsName)
    (hu : u.kind = .token (stepSign isIncrement)) (hv : v.kind = .token ";") (ts : List Token) :
    Reads (upToDepth (d + 2) (.operand l)) (t :: u :: v :: ts)
      [.expression (.step isIncrement false (.name t.text))] (v :: ts) := by
  have hupdate : Phrase.ofChildren? .updateExpression
      [.expression (.read (.name t.text)), .mark (stepSign isIncrement)] =
        some (.expression (.step isIncrement false (.name t.text))) := by
    cases isIncrement
    all_goals
      simp [Phrase.ofChildren?, Phrase.update?, Phrase.isIncrement?, stepSign, Expression.variable?]
  obtain ⟨ns, hns, hphrases⟩ := reads_signed_name_of_step (d := d) (l := l) h hu (v :: ts)
  obtain ⟨ms, hms, hphrases'⟩ := Reads.node
    ((Reads.given hphrases _).append (reads_stepSign hu (v :: ts))) hupdate (by simp)
  exact ⟨ms, run_extend_once hns hms (by simp) (by simp [hv]), hphrases'⟩

end Step

section Own

variable (ht : t.kind = .identifier) (hword : t.text = "this")

include ht hword

-- No type begins with the object itself.
theorem run_type_of_this (ts : List Token) : (upToDepth d .type).run (t :: ts) = none := by
  cases d with
  | zero => rfl
  | succ d =>
    change (type _).run _ = none
    simp [type, simpleType, primitiveType, namedType, ht, hword, integralTypes,
      floatingPointTypes, typeKeywords, expressionKeywords]

-- An assignment to a field of the object.
theorem reads_signed_assignment {w : Token} (hu : u.kind = .token ".") (hv : v.IsName)
    (hw : w.kind = .token "=")
    (h : Reads (upToDepth d (.expression l)) ts [.expression e] rest) :
    Reads (upToDepth (d + 1) (.signed l)) (t :: u :: v :: w :: ts) [.assign (.own v.text) e]
      rest := by
  have hname := hv.isName
  simp [isName, typeKeywords, expressionKeywords] at hname
  have htype := run_type_of_this (d := d) ht hword (u :: v :: w :: ts)
  have hhead : (chainHead (upToDepth d)).run (t :: u :: v :: w :: ts) =
      some ([.leaf .thisWord none t.span t.text], u :: v :: w :: ts) := by
    simp [chainHead, literal, stringLiteral, typed, parenthesized, ht, hword, literalKinds, htype,
      expressionKeywords]
  have hstep : (chainStep (upToDepth d) [.leaf .thisWord none t.span t.text]).run
      (u :: v :: w :: ts) = some ([.branch .fieldAccess none ⟨t.span.start, v.span.stop⟩
        [.leaf .thisWord (some .object) t.span t.text, .leaf (.token ".") none u.span u.text,
          .leaf .identifier (some .field) v.span v.text]], w :: ts) := by
    simp [chainStep, objectCreation, memberOf, Recognizer.optional, argumentList, typeArguments, hu,
      hv.kind, hname, hw, node, Node.withRole, Node.span]
  have hprimary := run_extend_once hhead hstep (by simp) (run_chainStep hw (by decide) ts)
  have hequals : Reads (operator assignmentOperators) (w :: ts) [.mark "="] ts :=
    ⟨_, by rw [run_operator_of_ne hw (by decide), if_pos (by decide)],
      Node.phrases?_singleton rfl⟩
  have hfield : Node.phrases? [.branch .fieldAccess none ⟨t.span.start, v.span.stop⟩
      [.leaf .thisWord (some .object) t.span t.text, .leaf (.token ".") none u.span u.text,
        .leaf .identifier (some .field) v.span v.text]] =
          some [.expression (.read (.own v.text))] := by
    refine Node.phrases?_singleton ?_
    simp [Node.phrase?, Node.phrases?, Phrase.ofToken?, hv.isName, Phrase.ofChildren?,
      Phrase.access?, Node.isComment, Node.kind, Kind.isComment]
  have hassignment : Reads (assignment (upToDepth d) l) (t :: u :: v :: w :: ts)
      [.assign (.own v.text) e] rest := by
    refine .bind hprimary (.left ?_)
    rw [if_pos (by rfl)]
    exact .node ((((Reads.given hfield _).role .left).append (hequals.role .operator)).append
      (h.role .right)) rfl (by simp)
  obtain ⟨ns, hns, hphrases⟩ := hassignment
  refine ⟨ns, ?_, hphrases⟩
  change (signed _ _).run _ = _
  have hlambda : (lambdaExpression (upToDepth d) l).run (t :: u :: v :: w :: ts) = none := by
    simp [lambdaExpression, arrowAhead, ht, hword, expressionKeywords]
  simp [signed, switchExpression, castExpression, ht, hword, hlambda, hns]

-- A statement that begins with the object itself is an expression.
theorem reads_statement_of_this {line : Statement}
    (h : Reads (upToDepth d (.expression true)) (t :: ts) [p] (v :: rest))
    (hp : Phrase.statement? p = some line) (hv : v.kind = .token ";") :
    Reads (upToDepth (d + 1) .statement) (t :: ts) [.line (.run line)] rest := by
  have hblock : (upToDepth d .block).run (t :: ts) = none := by
    cases d with
    | zero => rfl
    | succ d => exact run_node_of_none (by simp [ht])
  have hmarker := run_annotationForm (d := d) (t := t) (by simp [ht]) ts
  have hannotations := run_annotations (d := d) (t := t) (by simp [ht]) ts
  have htype := run_type_of_this (d := d) ht hword ts
  have hnonSealed : nonSealed.run (t :: ts) = none := by
    match ts with
    | [] => rfl
    | [u] => rfl
    | u :: v :: ts => simp [nonSealed, hword]
  have hmodifiers : (Recognizer.optional (modifiers (upToDepth d))).run (t :: ts) =
      some ([], t :: ts) :=
    run_optional_of_none (run_node_of_none (run_many1_of_none
      (by simp [hmarker, hnonSealed, ht, hword, modifierKeywords])))
  have hsign : annotationSignOfDeclaration.run (t :: ts) = none := by
    cases ts with
    | nil => rfl
    | cons u ts => simp [annotationSignOfDeclaration, ht]
  have htypes : (modified (upToDepth d) (typeDeclaration (upToDepth d))).run (t :: ts) = none := by
    rw [modified, run_bind_of_some hmodifiers]
    simp [typeDeclaration, classDeclaration, interfaceDeclaration, enumDeclaration,
      recordDeclaration, annotationDeclaration, hsign, ht, hword]
  have hmodule : (moduleDeclaration (upToDepth d)).run (t :: ts) = none := by
    simp [moduleDeclaration, hannotations, Recognizer.optional, ht, hword]
  have hdeclaration : (declaration (upToDepth d)).run (t :: ts) = none := by
    simp [declaration, importDeclaration, packageDeclaration, hmodule, htypes, ht, hword,
      hannotations]
  have hvariables : (localVariables (upToDepth d)).run (t :: ts) = none := by
    rw [localVariables, modified, run_bind_of_some hmodifiers]
    exact run_notAhead_append_of_none (run_node_of_none (by simp [htype]))
  have hyield : yieldHead.run (t :: ts) = none := by simp [yieldHead, hword]
  have hnothing : (notAhead yieldHead ++ notAhead (oneOfKeywords statementKeywords)).run (t :: ts) =
      some ([], t :: ts) := by
    simp [notAhead, hyield, hword, statementKeywords, modifierKeywords]
  have hline : Phrase.ofChildren? .expressionStatement [p, .mark ";"] =
      some (.line (.run line)) := by
    simp [Phrase.ofChildren?, Phrase.line?, hp]
  have hexpression : Reads (expressionStatement (upToDepth d)) (t :: ts) [.line (.run line)] rest :=
    (Reads.nil hnothing).append (.node (h.append (.mark hv rest)) hline (by simp))
  obtain ⟨ns, hns, hphrases⟩ := hexpression
  refine ⟨ns, ?_, hphrases⟩
  change (statement _ _).run _ = _
  simp [statement, hblock, labeledStatement, ifStatement, returnStatement, forStatement,
    whileStatement, doStatement, tryStatement, throwStatement, jump, assertStatement,
    yieldStatement, hyield, synchronizedStatement, switchExpression, hdeclaration, hvariables, hns,
    ht, hword, statementKeywords, expressionKeywords]

end Own

theorem reads_return (ht : t.kind = .identifier) (hword : t.text = "return")
    (h : Reads (upToDepth d (.expression true)) ts [.expression e] (v :: rest))
    (hv : v.kind = .token ";") :
    Reads (upToDepth (d + 1) .statement) (t :: ts) [.line (.giveBack e)] rest := by
  have hblock : (upToDepth d .block).run (t :: ts) = none := by
    cases d with
    | zero => rfl
    | succ d => exact run_node_of_none (by simp [ht])
  refine .right hblock (.right ?_ (.right ?_ (.right ?_ (.left ?_))))
  · simp [ht]
  · simp [labeledStatement, ht, hword, statementKeywords]
  · simp [ifStatement, ht, hword]
  · exact .node (((Reads.keyword ht hword ts).append (.left h)).append (.mark hv rest)) rfl
      (by simp)

theorem SpellsBody.reads (h : SpellsBody ts body) (hd : 2 * ts.length ≤ d) (rest : List Token) :
    Reads (upToDepth d .statement) (ts ++ rest) [.line body] rest := by
  obtain ⟨d, rfl⟩ : ∃ d', d = d' + 6 := ⟨d - 6, by cases h <;> (simp at hd; omega)⟩
  cases h with
  | name hgiving hword hx hsemicolon =>
    have hends : Ends (_ :: rest) := .mark (.inr hsemicolon)
    exact reads_return hgiving hword
      (reads_expression_of_signed (reads_signed_name hx hends) (.inr hsemicolon)) hsemicolon
  | front hgiving hword hsign hx hsemicolon =>
    have hends : Ends (_ :: rest) := .mark (.inr hsemicolon)
    exact reads_return hgiving hword (reads_expression_of_signed
      (reads_signed_step hsign (reads_signed_name hx hends) rfl) (.inr hsemicolon)) hsemicolon
  | back hgiving hword hx hsign hsemicolon =>
    exact reads_return hgiving hword
      (reads_expression_of_operand (reads_operand_step hx hsign hsemicolon rest) (.inr hsemicolon))
      hsemicolon
  | assign hself hword hdot hfield hequals hx hsemicolon =>
    obtain ⟨d, rfl⟩ : ∃ d', d = d' + 1 := ⟨d - 1, by simp at hd; omega⟩
    have hends : Ends (_ :: rest) := .mark (.inr hsemicolon)
    have hvalue := reads_expression_of_signed (reads_signed_name (d := d) (l := true) hx hends)
      (.inr hsemicolon)
    exact reads_statement_of_this hself hword (reads_expression_of_signed
      (reads_signed_assignment hself hword hdot hfield hequals hvalue) (.inr hsemicolon)) rfl
      hsemicolon

theorem SpellsBody.reads_block {opening closing : Token} (h : SpellsBody ts body)
    (hopening : opening.kind = .token "\x7b") (hclosing : closing.kind = .token "\x7d")
    (htext : closing.text = "\x7d") (hd : 2 * ts.length ≤ d) (rest : List Token) :
    Reads (upToDepth (d + 1) .block) (opening :: (ts ++ closing :: rest)) [.block [body]] rest := by
  obtain ⟨ns, hns, hphrases⟩ := h.reads hd (closing :: rest)
  have hlines : Reads (many (upToDepth d .statement)) (ts ++ closing :: rest) [.line body]
      (closing :: rest) := by
    have hnone : (many (upToDepth d .statement)).run (closing :: rest) =
        some ([], closing :: rest) := run_many_of_none (run_statement hclosing htext rest)
    have hpos : 0 < ts.length := by cases h <;> simp
    refine ⟨ns, ?_, hphrases⟩
    rw [run_many_of_some hns (by simp only [List.length_append]; omega), hnone, Option.map_some,
      List.append_nil]
  exact .node (((Reads.mark hopening _).append hlines).append (.mark hclosing rest)) rfl (by simp)

end Grammar

end ClassSplit.Java
