import ClassSplit.Proofs.Java.Grammar.Operand

/-!
Expressions of literals, names, calls, parentheses and operators are recognized as what they are. A
parenthesis is no cast and no list of parameters, and every level of operators takes as much as is
its own. Main statement: `Spells.reads`.
-/

namespace ClassSplit.Java

namespace Grammar

open Recognizer hiding optional

variable {d : Nat} {l : Bool} {t u v : Token} {ts us tail rest : List Token} {ns : List Node}
  {word : String} {o : Operator} {e : Expression}

/-- The tokens of an expression, given the levels of operators that are not used outside of
parentheses. -/
inductive Spells : List (List String) → List Token → Expression → Prop
  | literal {t : Token} {v : Value} (h : literal? t.kind t.text = some v) :
    Spells [] [t] (.literal v)
  | name {t : Token} (h : t.IsName) : Spells [] [t] (.read (.name t.text))
  | call {object dot method opening closing : Token} (hobject : object.IsName)
    (hdot : dot.kind = .token ".") (hmethod : method.IsName) (hopening : opening.kind = .token "(")
    (hclosing : closing.kind = .token ")") :
    Spells [] [object, dot, method, opening, closing] (.call object.text method.text)
  | grouped {opening closing : Token} {ts : List Token} {e : Expression}
    (hopening : opening.kind = .token "(") (h : Spells operatorLevels ts e)
    (hclosing : closing.kind = .token ")") :
    Spells [] (opening :: ts ++ [closing]) (.grouped e)
  | loosen {operators : List String} {tighter : List (List String)} {ts : List Token}
    {e : Expression} (h : Spells tighter ts e) : Spells (operators :: tighter) ts e
  | binary {operators : List String} {tighter : List (List String)} {ls os rs : List Token}
    {o : Operator} {left right : Expression} (hleft : Spells (operators :: tighter) ls left)
    (ho : SpellsOperator o os) (hmem : o.sign ∈ operators) (hright : Spells tighter rs right) :
    Spells (operators :: tighter) (ls ++ os ++ rs) (.binary o left right)

-- A parenthesis in front of an expression is no cast.
section Grouping

theorem closesBeforeArrow_cons (hopening : t.kind ≠ .token "(") (hclosing : t.kind ≠ .token ")")
    (depth : Nat) (ts : List Token) :
    closesBeforeArrow depth (t :: ts) = closesBeforeArrow depth ts := by
  rw [closesBeforeArrow, if_neg hopening, if_neg hclosing]

-- The parentheses of an expression are balanced.
theorem Spells.closesBeforeArrow_append {levels : List (List String)} (h : Spells levels ts e)
    (depth : Nat) (tail : List Token) :
    closesBeforeArrow depth (ts ++ tail) = closesBeforeArrow depth tail := by
  induction h generalizing depth tail with
  | @literal t v h =>
    have hkind := isIntegerLiteralKind_of_literal? h
    refine closesBeforeArrow_cons ?_ ?_ depth tail
    all_goals
      intro heq
      rw [heq] at hkind
      cases hkind
  | @name t h => exact closesBeforeArrow_cons (by simp [h.kind]) (by simp [h.kind]) depth tail
  | @call object dot method opening closing hobject hdot hmethod hopening hclosing =>
    simp [closesBeforeArrow, hobject.kind, hdot, hmethod.kind, hopening, hclosing]
  | @grouped opening closing ts e hopening _ hclosing ih =>
    simp [closesBeforeArrow, hopening, hclosing, ih]
  | loosen _ ih => exact ih depth tail
  | @binary operators tighter ls os rs o left right _ ho _ _ ihl ihr =>
    have hos : ∀ tail, closesBeforeArrow depth (os ++ tail) = closesBeforeArrow depth tail := by
      intro tail
      cases ho with
      | mark ht =>
        refine closesBeforeArrow_cons ?_ ?_ depth tail
        all_goals
          rw [ht]
          cases o
          all_goals decide
      | rightShift ht hu => simp [closesBeforeArrow, ht, hu]
      | unsignedRightShift ht hu hv => simp [closesBeforeArrow, ht, hu, hv]
    rw [List.append_assoc, List.append_assoc, ihl, hos, ihr]

-- How the tokens of an operand begin: with no word, or with a name or a call.
inductive Operand : List Token → Prop
  | other {t : Token} {ts : List Token} (hword : t.kind ≠ .identifier)
    (hsign : t.kind ≠ .token "@") : Operand (t :: ts)
  | name {t : Token} (h : t.IsName) : Operand [t]
  | call {object dot method opening : Token} {ts : List Token} (hobject : object.IsName)
    (hdot : dot.kind = .token ".") (hmethod : method.IsName) (hopening : opening.kind = .token "(") :
    Operand (object :: dot :: method :: opening :: ts)

-- What follows an operand up to the parenthesis that closes the expression.
inductive Remainder (rest : List Token) : List Token → Prop
  | closed {closing : Token} (h : closing.kind = .token ")") : Remainder rest (closing :: rest)
  | operator {o : Operator} {os ts tail : List Token} (ho : SpellsOperator o os) (hts : Operand ts)
    (h : Remainder rest tail) : Remainder rest (os ++ (ts ++ tail))

theorem Remainder.exists_head (h : Remainder rest tail) :
    ∃ t us word, tail = t :: us ∧ t.kind = .token word ∧ word ∈ endings ∧
      (word = ")" → us = rest) := by
  cases h with
  | closed h => exact ⟨_, _, _, rfl, h, by decide, fun _ => rfl⟩
  | @operator o os ts tail ho =>
    obtain ⟨t, us, word, rfl, ht, hword, hsign⟩ := ho.exists_head
    refine ⟨t, _, word, rfl, ht, hword, ?_⟩
    rintro rfl
    obtain h | h := hsign
    · exact absurd h (by decide)
    · cases o
      all_goals exact absurd h (by decide)

theorem Spells.exists_operand {levels : List (List String)} (h : Spells levels ts e)
    (htail : Remainder rest tail) :
    ∃ us tail', ts ++ tail = us ++ tail' ∧ Operand us ∧ Remainder rest tail' := by
  induction h generalizing tail with
  | @literal t v h =>
    have hkind := isIntegerLiteralKind_of_literal? h
    refine ⟨[t], tail, rfl, .other ?_ ?_, htail⟩
    all_goals
      intro heq
      rw [heq] at hkind
      cases hkind
  | name h => exact ⟨_, tail, rfl, .name h, htail⟩
  | call hobject hdot hmethod hopening =>
    exact ⟨_, tail, rfl, .call hobject hdot hmethod hopening, htail⟩
  | grouped hopening => exact ⟨_, tail, rfl, .other (by simp [hopening]) (by simp [hopening]), htail⟩
  | loosen _ ih => exact ih htail
  | binary _ ho _ _ ihl ihr =>
    obtain ⟨us, tail', heq, hus, htail'⟩ := ihr htail
    rw [List.append_assoc, List.append_assoc, heq]
    exact ihl (.operator ho hus htail')

-- What a list of types in a cast can leave.
def Leaves (rest ts : List Token) : Prop :=
  Remainder rest ts ∨ ∃ t us, ts = t :: us ∧ t.kind = .token "("

theorem run_annotatedType_of_operand (h : Operand ts) (htail : Remainder rest tail) :
    (annotatedType (upToDepth d)).run (ts ++ tail) = none ∨
      ∃ n left, isPlainTypeName [n] = true ∧ Leaves rest left ∧
        (annotatedType (upToDepth d)).run (ts ++ tail) = some ([n], left) := by
  cases h with
  | other hword hsign =>
    left
    rw [List.cons_append, run_annotatedType hsign, run_type_of_ne hword]
  | @name t h =>
    rw [List.singleton_append, run_annotatedType (by simp [h.kind])]
    cases d with
    | zero => exact .inl rfl
    | succ d =>
      obtain ⟨u, us, word, rfl, hu, hword, -⟩ := htail.exists_head
      have hapart : ∀ word ∈ endings, word ∉ [".", "<", "[", "@"] := by decide
      exact .inr ⟨_, _, rfl, .inl htail, run_type_of_isName h hu (hapart word hword) us⟩
  | @call object dot method opening us hobject hdot hmethod hopening =>
    simp only [List.cons_append]
    rw [run_annotatedType (by simp [hobject.kind])]
    cases d with
    | zero => exact .inl rfl
    | succ d =>
      obtain ⟨n, hplain, hrun⟩ := run_type_of_member (d := d) hobject hdot hmethod hopening (us ++ tail)
      exact .inr ⟨n, _, hplain, .inr ⟨opening, _, rfl, hopening⟩, hrun⟩

-- A parenthesis that is closed here is the one that closes the expression.
theorem Leaves.exists_head (h : Leaves rest ts) :
    ∃ t us, ts = t :: us ∧ (t.kind = .token ")" → us = rest) := by
  obtain h | ⟨t, us, rfl, ht⟩ := h
  · obtain ⟨t, us, word, rfl, ht, -, hclosed⟩ := h.exists_head
    refine ⟨t, us, rfl, fun hkind => hclosed ?_⟩
    rw [ht] at hkind
    exact Kind.token.inj hkind
  · refine ⟨t, us, rfl, fun hkind => ?_⟩
    rw [ht] at hkind
    exact absurd hkind (by decide)

theorem Leaves.of_run (h : Leaves rest ts)
    (hrun : (mark "&" ++ role .type (annotatedType (upToDepth d))).run ts = some (ns, us)) :
    Leaves rest us := by
  obtain ⟨xs, mid, ys, hxs, hys, -⟩ := andThen_run hrun
  obtain ⟨t, rfl, ht, -⟩ := leaf_run hxs
  have hkind : t.kind = .token "&" := of_decide_eq_true ht
  obtain ⟨zs, hzs, -⟩ := role_run hys
  obtain h | ⟨u, us', heq, hu⟩ := h
  case inr =>
    cases heq
    rw [hkind] at hu
    exact absurd hu (by decide)
  generalize hts : t :: mid = ts at h
  cases h with
  | closed h =>
    cases hts
    rw [hkind] at h
    exact absurd h (by decide)
  | @operator o os ts tail ho hts' h =>
    have hos : os = [t] := by
      cases ho with
      | mark => cases hts; rfl
      | rightShift ht => cases hts; rw [hkind] at ht; exact absurd ht (by decide)
      | unsignedRightShift ht => cases hts; rw [hkind] at ht; exact absurd ht (by decide)
    subst hos
    rw [List.singleton_append] at hts
    obtain rfl := (List.cons.inj hts).right
    obtain hnone | ⟨n, left, -, hleft, hsome⟩ := run_annotatedType_of_operand (d := d) hts' h
    · rw [hnone] at hzs
      cases hzs
    · rw [hsome] at hzs
      cases hzs
      exact hleft

theorem castContinues_of_ends (h : Ends ts) : castContinues ts = false := by
  obtain ⟨t, us, word, rfl, ht, hword⟩ := h.exists_head
  have hapart : ∀ word ∈ endings, ["(", "!", "~", "\"", "\"\"\""].contains word = false ∧
      word ≠ "++" ∧ word ≠ "--" := by decide
  obtain ⟨hopening, hincrement, hdecrement⟩ := hapart word hword
  simp only [List.contains_eq_mem, decide_eq_false_iff_not] at hopening
  simp [castContinues, operandBegins, ht, hopening, hincrement, hdecrement]

theorem run_castExpression {opening : Token} {levels : List (List String)}
    (hopening : opening.kind = .token "(") (h : Spells levels ts e) {closing : Token}
    (hclosing : closing.kind = .token ")") (hrest : Ends rest) :
    (castExpression (upToDepth d) l).run (opening :: (ts ++ closing :: rest)) = none := by
  obtain ⟨us, tail, heq, hus, htail⟩ := h.exists_operand (Remainder.closed hclosing : Remainder rest _)
  obtain ⟨t, ts', word, rfl, ht, hword⟩ := hrest.exists_head
  rw [heq]
  have htypes := run_annotatedType_of_operand (d := d) hus htail
  rw [castExpression, run_orElse, Option.or_eq_none_iff]
  constructor
  case left =>
    -- In front of what ends an expression a name in parentheses is no cast.
    refine run_node_of_none ?_
    rw [run_append, run_mark, if_pos hopening, Option.bind_some]
    obtain hnone | ⟨n, left, hplain, hleft, hsome⟩ := htypes
    · simp [hnone]
    obtain ⟨u, us', rfl, hclosed⟩ := hleft.exists_head
    have hplain' : isPlainTypeName [n.withRole .type] = true := by
      cases n <;> exact hplain
    rw [run_bind_of_some (by rw [run_role, hsome]; rfl), Option.map_eq_none_iff]
    simp only [List.map_cons, List.map_nil, hplain', if_true]
    refine run_append_of_none ?_
    by_cases hkind : u.kind = .token ")"
    case neg => simp [hkind]
    case pos =>
      obtain rfl := hclosed hkind
      simp [hkind, castContinuation, castContinues_of_ends hrest]
  case right =>
    refine run_node_of_none (Option.eq_none_iff_forall_ne_some.mpr ?_)
    rintro ⟨ns, rest'⟩ hrun
    obtain ⟨xs, after, ys, hxs, hvalue, -⟩ := andThen_run hrun
    obtain ⟨xs, left, zs, hxs, hclosing', -⟩ := andThen_run hxs
    obtain ⟨xs, first, zs, hxs, hmany, -⟩ := andThen_run hxs
    obtain ⟨xs, inner, zs, hxs, hfirst, -⟩ := andThen_run hxs
    obtain ⟨u, hu, -, -⟩ := leaf_run hxs
    obtain rfl := (List.cons.inj hu).right
    obtain ⟨ws, hfirst, -⟩ := role_run hfirst
    have hleaves : Leaves (t :: ts') first := by
      obtain hnone | ⟨n, left, -, hleft, hsome⟩ := htypes
      · rw [hnone] at hfirst
        cases hfirst
      · rw [hsome] at hfirst
        cases hfirst
        exact hleft
    obtain ⟨xs, second, zs, hxs, hmany, -⟩ := andThen_run hmany
    have hleaves : Leaves (t :: ts') left :=
      many_run (C := fun _ ts => Leaves (t :: ts') ts) hmany (hleaves.of_run hxs)
        fun h hrun => h.of_run hrun
    obtain ⟨u, rfl, hkind, -⟩ := leaf_run hclosing'
    obtain ⟨u', us', heq, hclosed⟩ := hleaves.exists_head
    cases heq
    obtain rfl := hclosed (of_decide_eq_true hkind)
    have hapart : ∀ word ∈ endings, word ∉ openings ∧ word ≠ "(" := by decide
    have hprimary := run_primary (d := d) ht (hapart word hword).left ts'
    have hlambda := run_lambdaExpression (d := d) (l := l) ht (hapart word hword).right ts'
    simp [hprimary, hlambda] at hvalue

theorem reads_signed_grouped {opening closing : Token} {levels : List (List String)}
    (hopening : opening.kind = .token "(") (h : Spells levels ts e)
    (hclosing : closing.kind = .token ")") (hrest : Ends rest)
    (hinner : Reads (upToDepth d (.expression true)) (ts ++ closing :: rest) [.expression e]
      (closing :: rest)) :
    Reads (upToDepth (d + 1) (.signed l)) (opening :: (ts ++ closing :: rest))
      [.expression (.grouped e)] rest := by
  have hgroup : Reads (parenthesized (upToDepth d) .parenthesizedExpression)
      (opening :: (ts ++ closing :: rest)) [.expression (.grouped e)] rest :=
    .node (((Reads.mark hopening _).append hinner).append (.mark hclosing rest)) rfl (by simp)
  have htype := run_type_of_ne (d := d) (t := opening) (by simp [hopening]) (ts ++ closing :: rest)
  have hhead : Reads (chainHead (upToDepth d)) (opening :: (ts ++ closing :: rest))
      [.expression (.grouped e)] rest := by
    refine .right ?_ (.right ?_ (.right ?_ (.right ?_ (.left hgroup))))
    · simp [literal, stringLiteral, hopening, literalKinds]
    · simp [typed, htype]
    · simp [hopening]
    · simp [hopening]
  obtain ⟨ns, hns, hphrases⟩ := hhead
  have hprimary : (primary (upToDepth d)).run (opening :: (ts ++ closing :: rest)) =
      some (ns, rest) := run_extend_stop hns (run_chainStep_of_ends hrest)
  refine ⟨ns, ?_, hphrases⟩
  change (signed _ _).run _ = _
  have hlambda : (lambdaExpression (upToDepth d) l).run (opening :: (ts ++ closing :: rest)) =
      none := by
    obtain ⟨t, us, word, rfl, ht, hword⟩ := hrest.exists_head
    have hapart : ∀ word ∈ endings, word ≠ "->" := by decide
    have hbalanced : closesBeforeArrow 0 (ts ++ closing :: t :: us) = false := by
      rw [h.closesBeforeArrow_append]
      simp [closesBeforeArrow, hclosing, ht, hapart word hword]
    refine run_node_of_none (run_append_of_none (run_append_of_none ?_))
    simp [arrowAhead, hopening, hbalanced]
  simp [signed, switchExpression, hopening, hlambda, run_castExpression hopening h hclosing hrest,
    run_assignment_of_ends hprimary hrest]

end Grouping

section Levels

-- The step that takes another operator of a level and its right operand.
def binaryStep (g : Goals) (l : Bool) (operators : List String)
    (tighter : List (List String)) (ns : List Node) : Recognizer :=
  node .binaryExpression
      (role .left (given ns) ++ role .operator (operator operators)
        ++ role .right (binary g l tighter))
    <|> (if operators.contains "<" then instanceTest g ns else fail)

theorem run_binaryStep_of_none {operators : List String} {tighter : List (List String)}
    (hrest : Ends rest) (h : (operator operators).run rest = none) :
    (binaryStep (upToDepth d) l operators tighter ns).run rest = none := by
  obtain ⟨t, us, word, rfl, ht, hword⟩ := hrest.exists_head
  simp [binaryStep, h, instanceTest, ht]

-- How a level goes on behind its first operand.
def goOn (g : Goals) (l : Bool) (levels : List (List String)) (ns : List Node)
    (ts : List Token) : Option (List Node × List Token) :=
  match levels with
  | [] => some (ns, ts)
  | operators :: tighter => extend.go (binaryStep g l operators tighter) ts.length ns ts

theorem goOn_of_none {levels : List (List String)} (hrest : Ends rest)
    (h : ∀ operators ∈ levels, (operator operators).run rest = none) :
    goOn (upToDepth d) l levels ns rest = some (ns, rest) := by
  cases levels with
  | nil => rfl
  | cons operators tighter =>
    exact extend_go_of_none (run_binaryStep_of_none hrest (h operators List.mem_cons_self)) _

theorem run_operator_of_closing (h : t.kind = .token ")" ∨ t.kind = .token ";") (ts : List Token) :
    ∀ operators ∈ operatorLevels, (operator operators).run (t :: ts) = none := by
  have hapart : ∀ operators ∈ operatorLevels, ")" ∉ operators ∧ ";" ∉ operators := by decide
  intro operators hmem
  obtain ⟨hparen, hsemicolon⟩ := hapart operators hmem
  obtain h | h := h
  · rw [run_operator_of_ne h (by decide), if_neg hparen]
  · rw [run_operator_of_ne h (by decide), if_neg hsemicolon]

theorem run_expression_of_binary
    (h : (Grammar.binary (upToDepth d) l operatorLevels).run ts = some (ns, rest))
    (hrest : Ends rest) : (upToDepth (d + 1) (.expression l)).run ts = some (ns, rest) := by
  obtain ⟨t, us, word, rfl, ht, hword⟩ := hrest.exists_head
  have hapart : ∀ word ∈ endings, word ≠ "?" := by decide
  change (expression _ _).run _ = _
  rw [expression, run_bind_of_some h]
  simp [ht, hapart word hword]

theorem Spells.beginsOperand {levels : List (List String)} (h : Spells levels ts e)
    (tail : List Token) : BeginsOperand (ts ++ tail) := by
  induction h generalizing tail with
  | @literal t v h =>
    refine ⟨t, tail, rfl, fun mark hmark => ?_⟩
    have hkind := isIntegerLiteralKind_of_literal? h
    rw [hmark] at hkind
    cases hkind
  | @name t h =>
    refine ⟨t, tail, rfl, fun mark hmark => ?_⟩
    rw [h.kind] at hmark
    cases hmark
  | call hobject =>
    refine ⟨_, _, rfl, fun mark hmark => ?_⟩
    rw [hobject.kind] at hmark
    cases hmark
  | grouped hopening =>
    refine ⟨_, _, rfl, fun mark hmark => ?_⟩
    rw [hopening] at hmark
    exact (Kind.token.inj hmark).symm
  | loosen _ ih => exact ih tail
  | binary _ _ _ _ ihl =>
    rw [List.append_assoc, List.append_assoc]
    exact ihl _

-- A level of operators has the expression as far as its own operators reach.
theorem Spells.exists_goOn {levels : List (List String)} (h : Spells levels ts e)
    (hsuffix : levels <:+ operatorLevels) (hd : 3 * ts.length ≤ d) (hrest : Ends rest)
    (htighter : ∀ operators ∈ levels.tail, (operator operators).run rest = none) :
    ∃ ns, Node.phrases? ns = some [.expression e] ∧
      (Grammar.binary (upToDepth d) l levels).run (ts ++ rest) =
        goOn (upToDepth d) l levels ns rest := by
  induction h generalizing d l rest with
  | @literal t v h => 
    obtain ⟨d, rfl⟩ : ∃ d', d = d' + 2 := ⟨d - 2, by simp at hd; omega⟩
    obtain ⟨ns, hns, hphrases⟩ := reads_signed_literal (d := d) (l := l) h hrest
    exact ⟨ns, hphrases, run_operand_of_ends hns hrest⟩
  | @name t h =>
    obtain ⟨d, rfl⟩ : ∃ d', d = d' + 2 := ⟨d - 2, by simp at hd; omega⟩
    obtain ⟨ns, hns, hphrases⟩ := reads_signed_name (d := d) (l := l) h hrest
    exact ⟨ns, hphrases, run_operand_of_ends hns hrest⟩
  | @call object dot method opening closing hobject hdot hmethod hopening hclosing =>
    obtain ⟨d, rfl⟩ : ∃ d', d = d' + 2 := ⟨d - 2, by simp at hd; omega⟩
    obtain ⟨ns, hns, hphrases⟩ := reads_call (d := d) (l := l) hobject hdot hmethod
      hopening (reads_argumentList_nil hopening hclosing rest) rfl hrest (Nat.lt_succ_self _)
    exact ⟨ns, hphrases, run_operand_of_ends hns hrest⟩
  | @grouped opening closing ts e hopening h hclosing ih =>
    obtain ⟨d, rfl⟩ : ∃ d', d = d' + 3 := ⟨d - 3, by simp at hd; omega⟩
    have hends : Ends (closing :: rest) := .mark (.inl hclosing)
    have hnone := run_operator_of_closing (.inl hclosing) rest
    obtain ⟨ns, hphrases, hrun⟩ := ih (d := d) (l := true) (List.suffix_refl _)
      (by simp at hd; omega) hends fun operators hmem => hnone operators (List.mem_of_mem_tail hmem)
    rw [goOn_of_none hends hnone] at hrun
    have hinner : Reads (upToDepth (d + 1) (.expression true)) (ts ++ closing :: rest)
        [.expression e] (closing :: rest) := ⟨ns, run_expression_of_binary hrun hends, hphrases⟩
    obtain ⟨ns, hns, hphrases⟩ := reads_signed_grouped (l := l) hopening h hclosing hrest hinner
    refine ⟨ns, hphrases, ?_⟩
    rw [List.cons_append, List.cons_append, List.append_assoc]
    exact run_operand_of_ends hns hrest
  | @loosen operators tighter ts e h ih =>
    obtain ⟨ns, hphrases, hrun⟩ := ih (d := d) (l := l)
      ((List.suffix_cons _ _).trans hsuffix) hd hrest
      fun operators hmem => htighter operators (List.mem_of_mem_tail hmem)
    rw [goOn_of_none hrest (by exact htighter)] at hrun
    exact ⟨ns, hphrases, run_extend_of_some hrun⟩
  | @binary operators tighter ls os rs o left right hleft ho hmem hright ihl ihr =>
    have hlevel : operators ∈ operatorLevels := hsuffix.subset List.mem_cons_self
    have hbegins := hright.beginsOperand rest
    have hlength : os ≠ [] := by cases ho <;> simp
    obtain ⟨nl, hleftPhrases, hrunLeft⟩ := ihl (d := d) (l := l) hsuffix
      (by simp only [List.length_append] at hd; omega) (.operator ho hbegins)
      (ho.run_of_mem (rs ++ rest) hsuffix hmem)
    obtain ⟨nr, hrightPhrases, hrunRight⟩ := ihr (d := d) (l := l)
      ((List.suffix_cons _ _).trans hsuffix) (by simp only [List.length_append] at hd; omega) hrest
      fun operators hmem => htighter operators (List.mem_of_mem_tail hmem)
    rw [goOn_of_none hrest (by exact htighter)] at hrunRight
    obtain ⟨span, hoperator⟩ := ho.exists_run hbegins hlevel hmem
    have hmark : Reads (operator operators) (os ++ (rs ++ rest)) [.mark o.sign] (rs ++ rest) :=
      ⟨_, hoperator, Node.phrases?_singleton rfl⟩
    have hphrase : Phrase.ofChildren? .binaryExpression
        [.expression left, .mark o.sign, .expression right] = some (.expression (.binary o left right)) := by
      simp [Phrase.ofChildren?, Phrase.binary?]
    have hstep : Reads (binaryStep (upToDepth d) l operators tighter nl)
        (os ++ (rs ++ rest)) [.expression (.binary o left right)] rest :=
      .left (.node ((((Reads.given hleftPhrases _).role .left).append (hmark.role .operator)).append
        (Reads.role ⟨nr, hrunRight, hrightPhrases⟩ .right)) hphrase (by simp))
    obtain ⟨ns, hns, hphrases⟩ := hstep
    refine ⟨ns, hphrases, ?_⟩
    rw [List.append_assoc, List.append_assoc, hrunLeft]
    refine extend_go_of_some hns ?_
    have hpos := List.length_pos_iff.mpr hlength
    simp only [List.length_append]
    omega

theorem Spells.reads (h : Spells operatorLevels ts e) (hd : 3 * ts.length ≤ d)
    (hclosing : t.kind = .token ")" ∨ t.kind = .token ";") (rest : List Token) :
    Reads (upToDepth (d + 1) (.expression l)) (ts ++ t :: rest) [.expression e]
      (t :: rest) := by
  have hends : Ends (t :: rest) := .mark hclosing
  have hnone := run_operator_of_closing hclosing rest
  obtain ⟨ns, hphrases, hrun⟩ := h.exists_goOn (l := l) (List.suffix_refl _) hd hends
    fun operators hmem => hnone operators (List.mem_of_mem_tail hmem)
  rw [goOn_of_none hends hnone] at hrun
  exact ⟨ns, run_expression_of_binary hrun hends, hphrases⟩

-- An operand that ends here is a whole expression.
theorem reads_expression_of_operand {p : Phrase}
    (h : Reads (upToDepth d (.operand l)) ts [p] (t :: rest))
    (hclosing : t.kind = .token ")" ∨ t.kind = .token ";") :
    Reads (upToDepth (d + 1) (.expression l)) ts [p] (t :: rest) := by
  have hends : Ends (t :: rest) := .mark hclosing
  have hnone := run_operator_of_closing hclosing rest
  obtain ⟨ns, hns, hphrases⟩ := h
  have hbinary : ∀ levels, levels <:+ operatorLevels →
      (Grammar.binary (upToDepth d) l levels).run ts = some (ns, t :: rest) := by
    intro levels hsuffix
    induction levels with
    | nil => exact hns
    | cons operators tighter ih =>
      refine run_extend_stop (ih ((List.suffix_cons _ _).trans hsuffix)) ?_
      exact run_binaryStep_of_none hends (hnone operators (hsuffix.subset List.mem_cons_self))
  exact ⟨ns, run_expression_of_binary (hbinary _ (List.suffix_refl _)) hends, hphrases⟩

theorem reads_expression_of_signed {p : Phrase}
    (h : Reads (upToDepth d (.signed l)) ts [p] (t :: rest))
    (hclosing : t.kind = .token ")" ∨ t.kind = .token ";") :
    Reads (upToDepth (d + 2) (.expression l)) ts [p] (t :: rest) := by
  obtain ⟨ns, hns, hphrases⟩ := h
  exact reads_expression_of_operand ⟨ns, run_operand_of_ends hns (.mark hclosing), hphrases⟩ hclosing

end Levels

section Cast

theorem reads_type {type : Integral} (hkind : t.kind = .identifier) (hword : t.text = type.word)
    (hbracket : u.kind ≠ .token "[") (hsign : u.kind ≠ .token "@") (ts : List Token) :
    ∃ ns, (upToDepth (d + 1) .type).run (t :: u :: ts) = some (ns, u :: ts) ∧
      Node.phrases? ns = some [.type type] ∧ ∀ r, isPlainTypeName (ns.map (·.withRole r)) = false := by
  have hmem : t.text ∈ integralTypes := by
    rw [hword]
    cases type
    all_goals decide
  have hvoid : t.text ≠ "void" := by
    rw [hword]
    cases type
    all_goals decide
  have hsimple : (simpleType (upToDepth d)).run (t :: u :: ts) =
      some ([.branch .integralType none t.span [.leaf (.token t.text) none t.span t.text]],
        u :: ts) := by
    simp [simpleType, primitiveType, hkind, hmem, hvoid, node, Node.span]
  have hdimensions : (dimensions (upToDepth d)).run (u :: ts) = none := by
    refine run_node_of_none (run_many1_of_none ?_)
    simp [run_annotations hsign, hbracket]
  have hrun : (upToDepth (d + 1) .type).run (t :: u :: ts) =
      some ([.branch .integralType none t.span [.leaf (.token t.text) none t.span t.text]],
        u :: ts) := by
    change (Grammar.type _).run _ = _
    rw [Grammar.type, run_bind_of_some hsimple]
    simp only [run_orElse, run_given]
    rw [run_node_of_none (by simp [hdimensions]), Option.none_or]
  have hphrase : Node.phrase? (.branch .integralType none t.span
      [.leaf (.token t.text) none t.span t.text]) = some (.type type) := by
    rw [Node.phrase?, Node.phrases?_singleton (p := .mark t.text) rfl]
    simp [Phrase.ofChildren?, Phrase.type?, hword]
  refine ⟨_, hrun, Node.phrases?_singleton hphrase, fun r => rfl⟩

theorem reads_cast {opening word closing : Token} {type : Integral} (hopening : opening.kind = .token "(")
    (hkind : word.kind = .identifier) (hword : word.text = type.word) (hclosing : closing.kind = .token ")")
    (h : Spells [] ts e) (hd : 3 * ts.length ≤ d) (hparen : ts.head?.map (·.kind) = some (.token "("))
    (hrest : Ends rest) :
    Reads (upToDepth (d + 1) (.signed l)) (opening :: word :: closing :: (ts ++ rest))
      [.expression (.cast type e)] rest := by
  obtain ⟨first, ts, rfl⟩ := List.exists_cons_of_ne_nil (l := ts) (by rintro rfl; cases hparen)
  obtain ⟨d, rfl⟩ : ∃ d', d = d' + 1 := ⟨d - 1, by simp at hd; omega⟩
  have hfirst : first.kind = .token "(" := Option.some.inj hparen
  obtain ⟨types, htypes, htypePhrases, hplain⟩ := reads_type (d := d) hkind hword
    (u := closing) (by simp [hclosing]) (by simp [hclosing]) (first :: ts ++ rest)
  obtain ⟨ns, hphrases, hvalue⟩ := h.exists_goOn (d := d + 1) (l := l)
    (List.nil_suffix) hd hrest (by simp)
  have hvalue : Reads (upToDepth (d + 1) (.operand l)) (first :: ts ++ rest) [.expression e] rest :=
    ⟨ns, hvalue, hphrases⟩
  have htype : (role .type (annotatedType (upToDepth (d + 1)))).run
      (word :: closing :: (first :: ts ++ rest)) =
        some (types.map (·.withRole .type), closing :: (first :: ts ++ rest)) := by
    rw [run_role, run_annotatedType (by simp [hkind]), htypes]
    rfl
  have htypeReads : Reads (given (types.map (·.withRole .type))) (closing :: (first :: ts ++ rest))
      [.type type] (closing :: (first :: ts ++ rest)) :=
    .given (by rw [Node.phrases?_map_withRole, htypePhrases]) _
  have hbody := Reads.bind (f := fun types => given types ++ mark ")"
      ++ (if isPlainTypeName types then castContinuation else done)
      ++ role .value (upToDepth (d + 1) (.operand l))) htype
    (((htypeReads.append (.mark hclosing _)).appendNothing (by simp [hplain])).append
      (hvalue.role .value))
  have hcast : Reads (castExpression (upToDepth (d + 1)) l)
      (opening :: word :: closing :: (first :: ts ++ rest)) [.expression (.cast type e)] rest :=
    .left (.node ((Reads.mark hopening _).append hbody) rfl (by simp))
  obtain ⟨ns, hns, hphrases⟩ := hcast
  refine ⟨ns, ?_, hphrases⟩
  change (signed _ _).run _ = _
  have hlambda : (lambdaExpression (upToDepth (d + 1)) l).run
      (opening :: word :: closing :: (first :: ts ++ rest)) = none := by
    have hbalanced : closesBeforeArrow 0 (word :: closing :: (first :: ts ++ rest)) = false := by
      simp [closesBeforeArrow, hkind, hclosing, hfirst]
    rw [List.cons_append] at hbalanced ⊢
    refine run_node_of_none (run_append_of_none (run_append_of_none ?_))
    simp [arrowAhead, hopening, hbalanced]
  rw [List.cons_append] at hns hlambda ⊢
  simp [signed, switchExpression, hopening, hlambda, hns]

end Cast

end Grammar

end ClassSplit.Java
