import ClassSplit.Proofs.Java.Grammar.Expression

/-!
Blocks of statements that are calls of the methods of an object are recognized as what they are.
Main statement: `reads_block`.
-/

namespace ClassSplit.Java

namespace Grammar

open Recognizer hiding optional

variable {d : Nat} {l : Bool} {t u v : Token} {ts us tail rest : List Token} {ns : List Node}
  {word : String} {o : Operator} {e : Expression}

/-- The tokens of the argument of a call, which may be cast. -/
inductive SpellsArgument : List Token → Expression → Prop
  | plain {ts : List Token} {e : Expression} (h : Spells operatorLevels ts e) : SpellsArgument ts e
  | cast {opening word closing : Token} {type : Integral} {ts : List Token} {e : Expression}
    (hopening : opening.kind = .token "(") (hkind : word.kind = .identifier)
    (hword : word.text = type.word) (hclosing : closing.kind = .token ")") (h : Spells [] ts e)
    (hparen : ts.head?.map (·.kind) = some (.token "(")) :
    SpellsArgument (opening :: word :: closing :: ts) (.cast type e)

/-- A word that begins no statement of its own. -/
structure IsObject (t : Token) : Prop extends t.IsName where
  notKeyword : t.text ∉ statementKeywords

/-- The tokens of a statement that is a call. -/
inductive SpellsLine : List Token → Statement → Prop
  | call {object dot method opening closing semicolon : Token} (hobject : IsObject object)
    (hdot : dot.kind = .token ".") (hmethod : method.IsName) (hopening : opening.kind = .token "(")
    (hclosing : closing.kind = .token ")") (hsemicolon : semicolon.kind = .token ";") :
    SpellsLine [object, dot, method, opening, closing, semicolon]
      (.evaluate (.call object.text method.text))
  | send {object dot method opening closing semicolon : Token} {ts : List Token} {e : Expression}
    (hobject : IsObject object) (hdot : dot.kind = .token ".") (hmethod : method.IsName)
    (hopening : opening.kind = .token "(") (h : SpellsArgument ts e)
    (hclosing : closing.kind = .token ")") (hsemicolon : semicolon.kind = .token ";") :
    SpellsLine (object :: dot :: method :: opening :: (ts ++ [closing, semicolon]))
      (.send object.text method.text e)

inductive SpellsLines : List Token → List Statement → Prop
  | nil : SpellsLines [] []
  | cons {ts us : List Token} {line : Statement} {lines : List Statement} (h : SpellsLine ts line)
    (hs : SpellsLines us lines) : SpellsLines (ts ++ us) (line :: lines)

section Statement

theorem SpellsArgument.reads (h : SpellsArgument ts e) (hd : 3 * ts.length ≤ d)
    (hclosing : t.kind = .token ")") (rest : List Token) :
    Reads (upToDepth (d + 1) (.expression l)) (ts ++ t :: rest) [.expression e]
      (t :: rest) := by
  cases h with
  | plain h => exact h.reads hd (.inl hclosing) rest
  | cast hopening hkind hword hclosing' h hparen =>
    obtain ⟨d, rfl⟩ : ∃ d', d = d' + 2 := ⟨d - 2, by simp at hd; omega⟩
    exact reads_expression_of_signed (reads_cast hopening hkind hword hclosing' h
      (by simp at hd; omega) hparen (.mark (.inl hclosing))) (.inl hclosing)

-- The word `sealed` is taken for a modifier, in front of a dot too.
theorem run_modifiers (h : t.IsName) (hu : u.kind = .token ".") (hv : v.kind = .identifier)
    (ts : List Token) :
    (Recognizer.optional (modifiers (upToDepth d))).run (t :: u :: v :: ts) =
        some ([], t :: u :: v :: ts) ∨
      ∃ mods, (Recognizer.optional (modifiers (upToDepth d))).run (t :: u :: v :: ts) =
        some (mods, u :: v :: ts) := by
  have hmem := h.isName
  simp [isName, typeKeywords, expressionKeywords, modifierKeywords] at hmem
  have hmarker := run_annotationForm (d := d) (t := t) (by simp [h.kind]) (u :: v :: ts)
  have hmarker' := run_annotationForm (d := d) (t := u) (by simp [hu]) (v :: ts)
  have hnonSealed : nonSealed.run (t :: u :: v :: ts) = none := by simp [nonSealed, hu]
  have hnonSealed' : nonSealed.run (u :: v :: ts) = none := by
    cases ts with
    | nil => rfl
    | cons w ts => simp [nonSealed, hv]
  by_cases hsealed : t.text = "sealed"
  case neg =>
    refine .inl (run_optional_of_none (run_node_of_none (run_many1_of_none ?_)))
    simp [hmarker, hnonSealed, modifierKeywords, hmem, hsealed]
  case pos =>
    have hmany : (many (upToDepth d .annotationForm <|> oneOfKeywords modifierKeywords <|>
        nonSealed)).run (u :: v :: ts) = some ([], u :: v :: ts) :=
      run_many_of_none (by simp [hmarker', hnonSealed', hu])
    have hmodifiers : (modifiers (upToDepth d)).run (t :: u :: v :: ts) =
        some ([.branch .modifiers none t.span [.leaf (.token t.text) none t.span t.text]],
          u :: v :: ts) := by
      simp only [modifiers, many1, node]
      have hword : (upToDepth d .annotationForm <|> oneOfKeywords modifierKeywords <|>
          nonSealed).run (t :: u :: v :: ts) =
            some ([.leaf (.token t.text) none t.span t.text], u :: v :: ts) := by
        simp [hmarker, h.kind, hsealed, modifierKeywords]
      rw [run_append_of_some hword, hmany]
      rfl
    exact .inr ⟨_, by rw [Recognizer.optional, run_orElse, hmodifiers, Option.some_or]⟩

theorem run_modified {f : List Node → Recognizer} (h : t.IsName) (hu : u.kind = .token ".")
    (hv : v.kind = .identifier) (ts : List Token) (hf : (f []).run (t :: u :: v :: ts) = none)
    (hf' : ∀ mods, (f mods).run (u :: v :: ts) = none) :
    (modified (upToDepth d) f).run (t :: u :: v :: ts) = none := by
  obtain hmods | ⟨mods, hmods⟩ := run_modifiers (d := d) h hu hv ts
  · rw [modified, run_bind_of_some hmods, hf]
  · rw [modified, run_bind_of_some hmods, hf']

theorem run_declaration (hobject : IsObject t) (hu : u.kind = .token ".")
    (hv : v.kind = .identifier) (ts : List Token) :
    (declaration (upToDepth d)).run (t :: u :: v :: ts) = none := by
  have hmem := hobject.isName
  have hkeyword := hobject.notKeyword
  simp [isName, typeKeywords, expressionKeywords, modifierKeywords] at hmem
  simp [statementKeywords] at hkeyword
  have hannotations := run_annotations (d := d) (t := t) (by simp [hobject.kind]) (u :: v :: ts)
  have htypes : (modified (upToDepth d) (typeDeclaration (upToDepth d))).run (t :: u :: v :: ts) =
      none := by
    refine run_modified hobject.toIsName hu hv ts ?_ fun mods => ?_
    · by_cases hrecord : t.text = "record"
      all_goals
        simp [typeDeclaration, classDeclaration, interfaceDeclaration, enumDeclaration,
          recordDeclaration, annotationDeclaration, annotationSignOfDeclaration, hobject.kind, hmem,
          hu, hrecord]
    · simp [typeDeclaration, classDeclaration, interfaceDeclaration, enumDeclaration,
        recordDeclaration, annotationDeclaration, annotationSignOfDeclaration, hu]
  have hmodule : (moduleDeclaration (upToDepth d)).run (t :: u :: v :: ts) = none := by
    refine run_node_of_none (run_append_of_none ?_)
    by_cases hopen : t.text = "open"
    · simp [hannotations, Recognizer.optional, hobject.kind, hopen, hu]
    · by_cases hword : t.text = "module"
      all_goals simp [hannotations, Recognizer.optional, hobject.kind, hopen, hword, hu, name]
  simp [declaration, importDeclaration, packageDeclaration, hmodule, htypes,
    hobject.kind, hkeyword, hannotations]

theorem run_localVariables (hobject : IsObject t) (hu : u.kind = .token ".") (hmethod : v.IsName)
    {w : Token} (hw : w.kind = .token "(") (ts : List Token) :
    (localVariables (upToDepth d)).run (t :: u :: v :: w :: ts) = none := by
  refine run_modified hobject.toIsName hu hmethod.kind (w :: ts) ?_ fun mods => ?_
  · have hdeclarators : (declarators (upToDepth d) ["instanceof"]).run (w :: ts) = none := by
      simp [declarators, commaSeparated1, separated1, declarator, declaratorName, hw]
    have htype : (given [] ++ role .type (upToDepth d .type)
        ++ declarators (upToDepth d) ["instanceof"]).run (t :: u :: v :: w :: ts) = none := by
      cases d with
      | zero => rfl
      | succ d =>
        obtain ⟨n, -, hn⟩ := run_type_of_member (d := d) hobject.toIsName hu hmethod hw ts
        simp [hn, hdeclarators]
    exact run_notAhead_append_of_none (run_node_of_none (run_append_of_none htype))
  · have htype : (given mods ++ role .type (upToDepth d .type)).run (u :: v :: w :: ts) = none := by
      simp [run_type_of_ne (d := d) (t := u) (by simp [hu])]
    exact run_notAhead_append_of_none
      (run_node_of_none (run_append_of_none (run_append_of_none htype)))

-- A statement that begins with a name and a dot, in front of a parenthesis, is an expression.
theorem reads_statement {object dot method opening semicolon : Token} {p : Phrase}
    {line : Statement} (hobject : IsObject object) (hdot : dot.kind = .token ".")
    (hmethod : method.IsName) (hopening : opening.kind = .token "(")
    (h : Reads (upToDepth d (.expression true)) (object :: dot :: method :: opening :: ts) [p]
      (semicolon :: rest))
    (hp : Phrase.statement? p = some line) (hsemicolon : semicolon.kind = .token ";") :
    Reads (upToDepth (d + 1) .statement) (object :: dot :: method :: opening :: ts)
      [.line (.run line)] rest := by
  have hmem := hobject.isName
  have hkeyword := hobject.notKeyword
  simp [isName, typeKeywords, expressionKeywords, modifierKeywords, integralTypes, floatingPointTypes] at hmem
  simp [statementKeywords, modifierKeywords] at hkeyword
  have hblock : (upToDepth d .block).run (object :: dot :: method :: opening :: ts) = none := by
    cases d with
    | zero => rfl
    | succ d =>
      refine run_node_of_none ?_
      simp [hobject.kind]
  have hyield : yieldHead.run (object :: dot :: method :: opening :: ts) = none := by
    have hcontinues : yieldContinues (dot :: method :: opening :: ts) = false := by
      simp [yieldContinues, operandBegins, hdot]
    by_cases hyield : object.text = "yield"
    · simp [yieldHead, hobject.kind, hyield, hcontinues]
    · simp [yieldHead, hobject.kind, hyield]
  refine .right hblock (.right ?_ (.right ?_ (.right ?_ (.right ?_ (.right ?_ (.right ?_ (.right ?_ (.right ?_ (.right ?_ (.right ?_ (.right ?_ (.right ?_ (.right ?_ (.right ?_ (.right ?_ (.right ?_ (.right ?_ ?_)))))))))))))))))
  · simp [hobject.kind]
  · refine run_node_of_none (run_append_of_none ?_)
    simp [hobject.kind]
    rintro _ _ - - - rfl rfl
    simp [hdot]
  · simp [ifStatement, hobject.kind, hkeyword]
  · simp [returnStatement, hobject.kind, hkeyword]
  · simp [forStatement, hobject.kind, hkeyword]
  · simp [whileStatement, hobject.kind, hkeyword]
  · simp [doStatement, hobject.kind, hkeyword]
  · simp [tryStatement, hobject.kind, hkeyword]
  · simp [throwStatement, hobject.kind, hkeyword]
  · simp [jump, hobject.kind, hkeyword]
  · simp [jump, hobject.kind, hkeyword]
  · simp [assertStatement, hobject.kind, hkeyword]
  · simp [yieldStatement, hyield]
  · simp [synchronizedStatement, hobject.kind, hkeyword]
  · simp [switchExpression, hobject.kind, hmem]
  · exact run_declaration hobject hdot hmethod.kind (opening :: ts)
  · exact run_localVariables hobject hdot hmethod hopening ts
  · have hkeywords : (notAhead (oneOfKeywords statementKeywords)).run
        (object :: dot :: method :: opening :: ts) =
          some ([], object :: dot :: method :: opening :: ts) := by
      simp [notAhead, hobject.notKeyword]
    have hnot : (notAhead yieldHead).run (object :: dot :: method :: opening :: ts) =
        some ([], object :: dot :: method :: opening :: ts) := by
      simp [notAhead, hyield]
    have hnothing := (Reads.nil hnot).appendNothing hkeywords
    have hline : Phrase.ofChildren? .expressionStatement [p, .mark ";"] =
        some (.line (.run line)) := by
      simp [Phrase.ofChildren?, Phrase.line?, hp]
    exact hnothing.append (.node (h.append (.mark hsemicolon rest)) hline (by simp))

theorem SpellsLine.reads {line : Statement} (h : SpellsLine ts line) (hd : 3 * ts.length ≤ d)
    (rest : List Token) : Reads (upToDepth d .statement) (ts ++ rest) [.line (.run line)] rest := by
  cases h with
  | @call object dot method opening closing semicolon hobject hdot hmethod hopening hclosing
      hsemicolon =>
    obtain ⟨d, rfl⟩ : ∃ d', d = d' + 4 := ⟨d - 4, by simp at hd; omega⟩
    have hends : Ends (semicolon :: rest) := .mark (.inr hsemicolon)
    have hcall : Reads (upToDepth (d + 1) (.signed true))
        (object :: dot :: method :: opening :: closing :: semicolon :: rest)
        [.expression (.call object.text method.text)] (semicolon :: rest) :=
      reads_call hobject.toIsName hdot hmethod hopening
        (reads_argumentList_nil hopening hclosing _) rfl hends (Nat.lt_succ_self _)
    exact reads_statement hobject hdot hmethod hopening
      (reads_expression_of_signed hcall (.inr hsemicolon)) rfl hsemicolon
  | @send object dot method opening closing semicolon ts e hobject hdot hmethod hopening h hclosing
      hsemicolon =>
    obtain ⟨d, rfl⟩ : ∃ d', d = d' + 5 := ⟨d - 5, by simp at hd; omega⟩
    have hends : Ends (semicolon :: rest) := .mark (.inr hsemicolon)
    have hargument : Reads (upToDepth (d + 1) (.expression true))
        (ts ++ closing :: semicolon :: rest) [.expression e] (closing :: semicolon :: rest) :=
      h.reads (by simp at hd; omega) hclosing (semicolon :: rest)
    have hcall : Reads (upToDepth (d + 2) (.signed true))
        (object :: dot :: method :: opening :: (ts ++ closing :: semicolon :: rest))
        [.send object.text method.text e] (semicolon :: rest) :=
      reads_call hobject.toIsName hdot hmethod hopening
        (reads_argumentList hopening hargument hclosing) rfl hends
        (by simp only [List.length_append, List.length_cons]; omega)
    have hline := reads_statement hobject hdot hmethod hopening
      (reads_expression_of_signed hcall (.inr hsemicolon)) rfl hsemicolon
    simpa using hline

-- No statement begins with a closing brace.
theorem run_statement (h : t.kind = .token "\x7d") (htext : t.text = "\x7d") (ts : List Token) :
    (upToDepth d .statement).run (t :: ts) = none := by
  cases d with
  | zero => rfl
  | succ d =>
    have hblock : (upToDepth d .block).run (t :: ts) = none := by
      cases d with
      | zero => rfl
      | succ d => exact run_node_of_none (by simp [h])
    have hmarker := run_annotationForm (d := d) (t := t) (by simp [h]) ts
    have htype := run_type_of_ne (d := d) (t := t) (by simp [h]) ts
    have hexpression := run_expression (d := d) (l := true) h (by decide) ts
    have hnonSealed : nonSealed.run (t :: ts) = none := by
      match ts with
      | [] => rfl
      | [u] => rfl
      | u :: v :: ts => simp [nonSealed, htext]
    have hmodifiers : (Recognizer.optional (modifiers (upToDepth d))).run (t :: ts) =
        some ([], t :: ts) :=
      run_optional_of_none (run_node_of_none (run_many1_of_none
        (by simp [hmarker, hnonSealed, h])))
    have hannotations := run_annotations (d := d) (t := t) (by simp [h]) ts
    have hsign : annotationSignOfDeclaration.run (t :: ts) = none := by
      cases ts with
      | nil => rfl
      | cons u ts => simp [annotationSignOfDeclaration, h]
    have htypes : (modified (upToDepth d) (typeDeclaration (upToDepth d))).run (t :: ts) = none := by
      rw [modified, run_bind_of_some hmodifiers]
      simp [typeDeclaration, classDeclaration, interfaceDeclaration, enumDeclaration,
        recordDeclaration, annotationDeclaration, hsign, h]
    have hmodule : (moduleDeclaration (upToDepth d)).run (t :: ts) = none := by
      simp [moduleDeclaration, hannotations, Recognizer.optional, h]
    have hdeclaration : (declaration (upToDepth d)).run (t :: ts) = none := by
      simp [declaration, importDeclaration, packageDeclaration, hmodule, htypes, h, hannotations]
    have hvariables : (localVariables (upToDepth d)).run (t :: ts) = none := by
      rw [localVariables, modified, run_bind_of_some hmodifiers]
      exact run_notAhead_append_of_none (run_node_of_none (by simp [htype]))
    have hexpressions : (expressionStatement (upToDepth d)).run (t :: ts) = none := by
      rw [expressionStatement, run_append_assoc]
      exact run_notAhead_append_of_none
        (run_notAhead_append_of_none (run_node_of_none (run_append_of_none hexpression)))
    change (statement _ _).run _ = none
    simp [statement, hblock, labeledStatement, ifStatement, returnStatement, forStatement,
      whileStatement, doStatement, tryStatement, throwStatement, jump, assertStatement,
      yieldStatement, yieldHead, synchronizedStatement, switchExpression, hdeclaration, hvariables,
      hexpressions, h]

theorem SpellsLines.reads {lines : List Statement} (h : SpellsLines ts lines)
    (hd : 3 * ts.length ≤ d) {closing : Token} (hclosing : closing.kind = .token "\x7d")
    (htext : closing.text = "\x7d") (rest : List Token) :
    Reads (many (upToDepth d .statement)) (ts ++ closing :: rest) (lines.map (.line <| .run ·))
      (closing :: rest) := by
  induction h with
  | nil => exact .nil (run_many_of_none (run_statement hclosing htext rest))
  | @cons ts us line lines h hs ih =>
    simp only [List.length_append] at hd
    obtain ⟨ns, hns, hphrases⟩ := h.reads (d := d) (by omega) (us ++ closing :: rest)
    obtain ⟨ms, hms, hphrases'⟩ := ih (by omega)
    have hpos : 0 < ts.length := by cases h <;> simp
    refine ⟨ns ++ ms, ?_, ?_⟩
    · rw [List.append_assoc, run_many_of_some hns, hms, Option.map_some]
      simp only [List.length_append]
      omega
    · rw [Node.phrases?_append, hphrases, hphrases']
      rfl

theorem reads_block {opening closing : Token} {lines : List Statement}
    (hopening : opening.kind = .token "\x7b") (h : SpellsLines ts lines)
    (hclosing : closing.kind = .token "\x7d") (htext : closing.text = "\x7d")
    (hd : 3 * ts.length ≤ d) (rest : List Token) :
    Reads (upToDepth (d + 1) .block) (opening :: (ts ++ closing :: rest))
      [.block (lines.map .run)] rest := by
  have hlines : ∀ lines : List Statement,
      Phrase.lines? (lines.map (.line <| .run ·) ++ [.mark "\x7d"]) = some (lines.map .run) := by
    intro lines
    induction lines with
    | nil => rfl
    | cons line lines ih => simp [Phrase.lines?, ih]
  refine .node (((Reads.mark hopening _).append (h.reads hd hclosing htext rest)).append
    (.mark hclosing rest)) ?_ (by simp)
  simp [Phrase.ofChildren?, Phrase.block?, hlines]

end Statement

end Grammar

/-- What a text is read as that is one block. -/
def readBlock? (cs : List Char) : Option (List Procedure.Body) := do
  let lexed ← lex? cs
  let depth := Grammar.goalsPerToken * (lexed.tokens.length + 2)
  let (ns, rest) ← (Grammar.upToDepth depth .block).run lexed.tokens
  match Node.phrases? ns, rest with
  | some [.block lines], [] => some lines
  | _, _ => none

-- A text that is one block for the recognizers is read as this block.
theorem readBlock?_of_reads {cs : List Char} {fs : List Found} {bodies : List Procedure.Body}
    (h : Scans ('\x7b' :: cs) fs [])
    (hreads : ∀ d, 3 * (tokensFrom 0 fs).length ≤ d →
      (Grammar.upToDepth (d + 1) .block).Reads (tokensFrom 0 fs) [.block bodies] []) :
    readBlock? ('\x7b' :: cs) = some bodies := by
  have hlex : lex? ('\x7b' :: cs) = some (lexedFrom 0 fs) := by
    rw [lex?, if_neg (by decide)]
    exact lexFrom_of_scans h (Nat.le_refl _) 0
  rw [tokensFrom] at hreads
  obtain ⟨ns, hns, hphrases⟩ := hreads (8 * ((lexedFrom 0 fs).tokens.length + 1) + 7) (by omega)
  have hdepth : Grammar.goalsPerToken * ((lexedFrom 0 fs).tokens.length + 2) =
      8 * ((lexedFrom 0 fs).tokens.length + 1) + 7 + 1 := by
    simp only [Grammar.goalsPerToken]
    omega
  rw [readBlock?, hlex, Option.bind_eq_bind, Option.bind_some, hdepth]
  change ((Grammar.upToDepth _ _).run _).bind _ = _
  rw [hns, Option.bind_some]
  simp only [hphrases]

end ClassSplit.Java
