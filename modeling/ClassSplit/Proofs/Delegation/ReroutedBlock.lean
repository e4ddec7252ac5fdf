import ClassSplit.Proofs.Delegation.Rerouted
import ClassSplit.Proofs.Java.Grammar.Statement

/-!
The text of a block whose statements reach their fields through the helper. An assignment has become
a call of the setter, whose argument is the right side with its own references replaced. Main
statement: `Routing.readBlock?_rendering`.
-/

namespace ClassSplit

open Java Replacement

variable {text after : List Char} {family : List Replacement} {levels : List (List String)}
  {n c right : Node} {e : Expression} {word object method : String} {r : Route} {o : Operator}

namespace Java

theorem GoesBefore.of_parenthesis (cs after : List Char) : GoesBefore cs (')' :: after) := by
  refine ⟨.stop fun c hc => ?_, fun c hc => ?_⟩
  all_goals
    obtain rfl := Option.some.inj hc
    decide +kernel

theorem Node.Written.operand (h : n.Written text levels) (hkind : n.kind ≠ .binaryExpression) :
    n.Written text [] := by
  induction h with
  | leaf h => exact .leaf h
  | branch hkind hne hfirst hlast hparts h => exact .branch hkind hne hfirst hlast hparts h
  | loosen _ ih => exact ih hkind
  | binary hbinary => exact absurd hbinary hkind

theorem Integral.isWord_word (t : Integral) : SpellsIdentifier t.word.toList := by
  cases t
  all_goals exact ⟨_, _, rfl, by decide +kernel, List.all_eq_true.mp (by decide +kernel)⟩

theorem Operator.exists_level (o : Operator) : ∃ operators tighter,
    operators :: tighter <:+ Grammar.operatorLevels ∧ o.sign ∈ operators := by
  cases o
  all_goals
    first
    | exact ⟨_, _, ⟨Grammar.operatorLevels.take 2, rfl⟩, by decide⟩
    | exact ⟨_, _, ⟨Grammar.operatorLevels.take 3, rfl⟩, by decide⟩
    | exact ⟨_, _, ⟨Grammar.operatorLevels.take 4, rfl⟩, by decide⟩
    | exact ⟨_, _, ⟨Grammar.operatorLevels.take 7, rfl⟩, by decide⟩
    | exact ⟨_, _, ⟨Grammar.operatorLevels.take 8, rfl⟩, by decide⟩
    | exact ⟨_, _, ⟨Grammar.operatorLevels.take 9, rfl⟩, by decide⟩

end Java

namespace Routing

variable {R : Routing}

/-- The names of the helper and of its methods can be written in a call. -/
structure Sayable (R : Routing) : Prop where
  helper : Nameable R.helper
  notKeyword : R.helper ∉ Grammar.statementKeywords
  nameOf : ∀ x r, R.route x = some r → ∀ form, Nameable (r.nameOf form)

/-- The argument of the setter that stands for a compound assignment. -/
def combinationPieces (R : Routing) (r : Route) (o : Operator) (e : Expression) (right : Node) :
    List Piece :=
  let value : Piece := .source right.span
  let operand := if e.isOperand then [value] else [.text "(", value, .text ")"]
  let combination :=
    .text (R.helper ++ "." ++ r.nameOf .getter ++ "()" ++ " " ++ o.sign ++ " ") :: operand
  if needsCast r.type o e then
    .text ("(" ++ r.type.word ++ ") (") :: combination ++ [.text ")"]
  else combination

/-- A call of the setter. -/
def setting (R : Routing) (r : Route) (span : Span) (argument : List Piece) : Replacement :=
  ⟨span, .text (R.helper ++ "." ++ r.nameOf .setter ++ "(") :: argument ++ [.text ")"]⟩

/-- The text of some pieces. -/
def shownPieces (text : List Char) (family : List Replacement) (pieces : List Piece) : List Char :=
  pieces.flatMap fun
    | .text new => new.toList
    | .source part => rendering text family part

-- The replacement of an expression that is a statement.
inductive ReroutedChange (R : Routing) (family : List Replacement) : Node → Statement → Prop
  | step {c : Node} {e : Expression} {method : String} (hmethod : Nameable method)
    (he : R.delegated e = .call R.helper method)
    (hr : .ofText c.span (R.helper ++ "." ++ method ++ "()") ∈ family) :
    ReroutedChange R family c (.evaluate e)
  | assign {c right : Node} {x : Holder} {e : Expression} {r : Route}
    (hroute : R.route? x = some r) (hright : right ∈ c.parts) (hne : c.span ≠ right.span)
    (hr : R.setting r c.span [.source right.span] ∈ family) (h : Rerouted R family right e) :
    ReroutedChange R family c (.assign x e)
  | combine {c right : Node} {x : Holder} {o : Operator} {e : Expression} {r : Route}
    (hroute : R.route? x = some r) (hright : right ∈ c.parts) (hne : c.span ≠ right.span)
    (hoperand : e.isOperand = true → right.kind ≠ .binaryExpression)
    (hr : R.setting r c.span (R.combinationPieces r o e right) ∈ family)
    (h : Rerouted R family right e) : ReroutedChange R family c (.combine x o e)

-- The statement and the semicolon behind it.
structure ReroutedLine (R : Routing) (family : List Replacement) (n : Node) (t : Statement) :
    Prop where
  kind : n.kind = .expressionStatement
  kept : Kept family n
  exists_parts : ∃ c semicolon, n.parts = [c, semicolon] ∧
    semicolon.phrase? = some (.mark ";") ∧ c.kind ≠ .binaryExpression ∧
      ReroutedChange R family c t

structure ReroutedBlock (R : Routing) (family : List Replacement) (n : Node)
    (ts : List Statement) : Prop where
  kept : Kept family n
  exists_parts : ∃ opening lines closing, n.parts = opening :: (lines ++ [closing]) ∧
    opening.phrase? = some (.mark "\x7b") ∧ closing.phrase? = some (.mark "\x7d") ∧
      n.kind ≠ .binaryExpression ∧ List.Forall₂ (ReroutedLine R family) lines ts

-- A text in front of a closing parenthesis that is read as an operand, or as an argument of a call.
structure SpeltOperand (cs : List Char) (e : Expression) : Prop where
  scans : ∀ after, ∃ fs, Scans cs fs (')' :: after) ∧
    ∀ offset, Grammar.Spells [] (tokensFrom offset fs) e
  begins : ∀ after, ∃ r, Begins r (cs ++ ')' :: after)

def SpeltArgument (cs : List Char) (e : Expression) : Prop :=
  ∀ after, ∃ fs, Scans cs fs (')' :: after) ∧
    ∀ offset, Grammar.SpellsArgument (tokensFrom offset fs) e

-- A text that is read as a statement, if a semicolon follows it, and one that has it.
structure SpeltChange (cs : List Char) (t : Statement) : Prop where
  scans : ∀ after, ∃ fs, Scans cs fs after ∧ ∀ offset semicolon, semicolon.kind = .token ";" →
    Grammar.SpellsLine (tokensFrom offset fs ++ [semicolon]) t
  first : ∃ c tail, cs = c :: tail ∧ isGap c = false

structure SpeltLine (cs : List Char) (t : Statement) : Prop where
  scans : ∀ after, ∃ fs, Scans cs fs after ∧
    ∀ offset, Grammar.SpellsLine (tokensFrom offset fs) t
  first : ∃ c tail, cs = c :: tail ∧ isGap c = false

theorem speltOperand_of_spelt (h : Spelt text family [] right e) :
    SpeltOperand (rendering text family right.span) e :=
  ⟨fun after => h.scans (.of_parenthesis _ after),
    fun after => ⟨_, h.begins (.of_parenthesis _ after)⟩⟩

theorem speltOperand_grouped (h : Spelt text family Grammar.operatorLevels right e) :
    SpeltOperand ('(' :: rendering text family right.span ++ [')']) (.grouped e) := by
  refine ⟨fun after => ?_, fun after => ⟨[], .of_parenthesis _ _⟩⟩
  obtain ⟨fs, hfs, hspells⟩ := h.scans (.of_parenthesis _ (')' :: after))
  have hall := (scans_parenthesis _).append (hfs.append (scans_closing (')' :: after)))
  refine ⟨_, by simpa using hall, fun offset => ?_⟩
  simp only [tokensFrom_append, tokensFrom_token, tokensFrom_nil]
  exact .grouped rfl (hspells _) rfl

-- An operation on what the getter gives back.
theorem spelt_operation {cs : List Char} (hobject : Nameable object)
    (hmethod : Nameable method) (h : SpeltOperand cs e) (after : List Char) :
    ∃ fs, Scans ((object ++ "." ++ method ++ "()" ++ " " ++ o.sign ++ " ").toList ++ cs) fs
        (')' :: after) ∧
      ∀ offset, Grammar.Spells Grammar.operatorLevels (tokensFrom offset fs)
        (.binary o (.call object method) e) := by
  obtain ⟨fs, hfs, hspells⟩ := h.scans after
  obtain ⟨r, hbegins⟩ := h.begins after
  obtain ⟨fo, hfo, ho⟩ := o.scans .space hbegins (by simp)
  have hsolid : ∀ c ∈ (o.sign.toList ++ [' '] ++ cs ++ ')' :: after).head?, isGap c = false := by
    intro c hc
    cases o
    all_goals
      obtain rfl := Option.some.inj hc
      rfl
  obtain ⟨gs, hgs, hnone⟩ := Blank.space.scans hsolid
  obtain ⟨fc, hfc, hcall⟩ := scans_call hobject hmethod
    ([' '] ++ (o.sign.toList ++ [' '] ++ cs) ++ ')' :: after)
  obtain ⟨operators, tighter, hsuffix, hmem⟩ := o.exists_level
  have hall := hfc.append (hgs.append (hfo.append hfs))
  refine ⟨_, by simpa using hall, fun offset => ?_⟩
  simp only [tokensFrom_append, hnone, List.nil_append]
  rw [← List.append_assoc]
  exact (Grammar.Spells.binary ((hcall _).of_suffix List.nil_suffix) (ho _) hmem
    ((hspells _).of_suffix List.nil_suffix)).of_suffix hsuffix

theorem speltArgument_cast {cs : List Char} {t : Integral}
    (h : ∀ after, ∃ fs, Scans cs fs (')' :: after) ∧
      ∀ offset, Grammar.Spells Grammar.operatorLevels (tokensFrom offset fs) e) :
    SpeltArgument (("(" ++ t.word ++ ") (").toList ++ cs ++ [')']) (.cast t (.grouped e)) := by
  intro after
  obtain ⟨fs, hfs, hspells⟩ := h (')' :: after)
  have hsolid : ∀ c ∈ (['('] ++ (cs ++ [')']) ++ ')' :: after).head?, isGap c = false := by
    intro c hc
    obtain rfl := Option.some.inj hc
    rfl
  obtain ⟨gs, hgs, hnone⟩ := Blank.space.scans hsolid
  have hne : t.word.toList ≠ [] := by cases t <;> decide
  have hword : Scans t.word.toList [⟨.token .identifier, t.word.toList⟩]
      ([')'] ++ ([' '] ++ (['('] ++ (cs ++ [')']))) ++ ')' :: after) := by
    refine .single hne (stepInCode_word t.isWord_word fun c hc => ?_)
    obtain rfl := Option.some.inj hc
    decide +kernel
  have hall := (scans_parenthesis _).append (hword.append ((scans_closing _).append
    (hgs.append ((scans_parenthesis _).append (hfs.append (scans_closing (')' :: after)))))))
  refine ⟨_, by simpa using hall, fun offset => ?_⟩
  simp only [tokensFrom_append, tokensFrom_token, tokensFrom_nil, hnone, List.nil_append]
  exact .cast rfl rfl (String.ofList_toList) rfl (.grouped rfl (hspells _) rfl) rfl

-- A block of lines that are calls.
theorem readBlock?_of_scans {cs : List Char} {fs : List Found} {us : List Token}
    {opening closing : Token} {lines : List Statement} (h : Scans ('\x7b' :: cs) fs [])
    (htokens : tokensFrom 0 fs = opening :: (us ++ [closing]))
    (hopening : opening.kind = .token "\x7b") (hlines : Grammar.SpellsLines us lines)
    (hclosing : closing.kind = .token "\x7d") (htext : closing.text = "\x7d") :
    readBlock? ('\x7b' :: cs) = some (lines.map .run) := by
  refine readBlock?_of_reads h fun d hd => ?_
  rw [htokens] at hd ⊢
  exact Grammar.reads_block hopening hlines hclosing htext (by simp at hd; omega) []

section Change

variable (hneat : Neat family) (hsay : R.Sayable)

include hneat

-- What the call of a setter shows: its argument, with the right side as the replacements make it.
theorem rendering_setting {argument : List Piece} (hc : c.Sound text)
    (hr : R.setting r c.span argument ∈ family) (hright : right ∈ c.parts)
    (hne : c.span ≠ right.span)
    (hargument : ∀ piece ∈ argument, (∃ new, piece = .text new) ∨ piece = .source right.span) :
    rendering text family c.span = (R.helper ++ "." ++ r.nameOf .setter ++ "(").toList ++
      shownPieces text family argument ++ [')'] := by
  have h := hneat.rendering_of_mem hr hc.fits
  have hcovers := hc.covers_child (Node.mem_parts.mp hright).left
  rw [show (R.setting r c.span argument).span = c.span from rfl] at h
  rw [h, shown, setting]
  simp only [List.flatMap_append, List.cons_append, List.flatMap_cons, List.flatMap_nil,
    List.append_nil, List.append_assoc]
  congr 2
  refine List.flatMap_congr fun piece hpiece => ?_
  obtain ⟨new, rfl⟩ | rfl := hargument piece hpiece
  · rfl
  · exact hneat.rendering_filter_encloses hcovers hne

omit hneat in
theorem speltArgument_combination (hget : Nameable (r.nameOf .getter))
    (hhelper : Nameable R.helper)
    (h : Spelt text family Grammar.operatorLevels right (R.delegated e))
    (hoperand : e.isOperand = true → Spelt text family [] right (R.delegated e)) :
    SpeltArgument (shownPieces text family (R.combinationPieces r o e right))
      (R.combination r o e) := by
  obtain ⟨cs, hcs, hspelt⟩ : ∃ cs, shownPieces text family (if e.isOperand then
        [.source right.span] else [.text "(", .source right.span, .text ")"]) = cs ∧
      SpeltOperand cs (if e.isOperand then R.delegated e else .grouped (R.delegated e)) := by
    refine ⟨_, rfl, ?_⟩
    split
    case isTrue he => simpa [shownPieces] using speltOperand_of_spelt (hoperand he)
    case isFalse => simpa [shownPieces] using speltOperand_grouped h
  have hvalue := spelt_operation (o := o) hhelper hget hspelt
  simp only [combinationPieces, combination]
  split
  case isTrue =>
    have hcast := speltArgument_cast (t := r.type) hvalue
    rw [← hcs] at hcast
    simpa [shownPieces] using hcast
  case isFalse =>
    intro after
    obtain ⟨fs, hfs, hspells⟩ := hvalue after
    rw [← hcs] at hfs
    exact ⟨fs, by simpa [shownPieces] using hfs, fun offset => .plain (hspells offset)⟩

omit hneat in
theorem mem_combinationPieces {piece : Piece} (h : piece ∈ R.combinationPieces r o e right) :
    (∃ new, piece = .text new) ∨ piece = .source right.span := by
  simp only [combinationPieces] at h
  split at h
  all_goals
    split at h
    all_goals
      simp only [List.cons_append, List.nil_append, List.mem_cons, List.not_mem_nil, or_false] at h
      grind

omit hneat in
theorem Sayable.nameOf_of_route? {x : Holder} (h : R.Sayable) (hr : R.route? x = some r)
    (form : AccessorForm) : Nameable (r.nameOf form) := by
  obtain ⟨field, -, hr⟩ := exists_of_route?_eq_some hr
  exact h.nameOf field r hr form

omit hneat in
theorem Sayable.first (h : R.Sayable) (cs : List Char) :
    ∃ c tail, R.helper.toList ++ cs = c :: tail ∧ isGap c = false := by
  obtain ⟨c, v, hword, hc, -⟩ := h.helper.isWord
  exact ⟨c, v ++ cs, by rw [hword]; rfl, isGap_of_isIdentifierStart hc⟩

omit hneat in
theorem speltChange_send {cs : List Char} (hset : Nameable method) (h : SpeltArgument cs e)
    (hsay : R.Sayable) : SpeltChange ((R.helper ++ "." ++ method ++ "(").toList ++ cs ++ [')'])
      (.send R.helper method e) := by
  refine ⟨fun after => ?_, ?_⟩
  · obtain ⟨fs, hfs, hspells⟩ := h after
    have hall := (scans_opening hsay.helper hset (cs ++ [')'] ++ after)).append
      (Scans.append (by simpa using hfs) (scans_closing after))
    refine ⟨_, by simpa using hall, fun offset semicolon hsemicolon => ?_⟩
    simp only [openingFound, tokensFrom_append, tokensFrom_token, tokensFrom_nil, List.cons_append,
      List.nil_append, String.ofList_toList, List.append_assoc]
    exact .send ⟨⟨rfl, hsay.helper.isName⟩, hsay.notKeyword⟩ rfl ⟨rfl, hset.isName⟩ rfl
      (hspells _) rfl hsemicolon
  · simp only [String.toList_append, List.append_assoc]
    exact hsay.first _

include hsay

theorem ReroutedChange.spelt {t : Statement} (h : ReroutedChange R family c t)
    (hc : c.Sound text) (hw : c.Written text Grammar.operatorLevels)
    (hkind : c.kind ≠ .binaryExpression) :
    SpeltChange (rendering text family c.span) (R.delegatedStatement t) := by
  have hspelt : ∀ {right : Node} {e : Expression}, right ∈ c.parts → Rerouted R family right e →
      Spelt text family Grammar.operatorLevels right (R.delegated e) := fun hright h =>
    h.spelt hneat hsay.helper (hc.of_mem_children (Node.mem_parts.mp hright).left)
      (hw.of_mem_parts hkind hright)
  cases h with
  | @step e method hmethod he hr =>
    have hrendering : rendering text family c.span =
        (R.helper ++ "." ++ method ++ "()").toList := by
      have h := hneat.rendering_of_mem hr hc.fits
      simpa [shown, ofText] using h
    rw [delegatedStatement, he, hrendering]
    refine ⟨fun after => ?_, ?_⟩
    · have hall := (scans_opening hsay.helper hmethod (')' :: after)).append (scans_closing after)
      refine ⟨_, by simpa using hall, fun offset semicolon hsemicolon => ?_⟩
      simp only [openingFound, tokensFrom_token, tokensFrom_nil, List.cons_append,
        List.nil_append, String.ofList_toList]
      exact .call ⟨⟨rfl, hsay.helper.isName⟩, hsay.notKeyword⟩ rfl ⟨rfl, hmethod.isName⟩ rfl rfl
        hsemicolon
    · simp only [String.toList_append, List.append_assoc]
      exact hsay.first _
  | @assign right x e r hroute hright hne hr h =>
    have hrendering := rendering_setting hneat hc hr hright hne (by simp)
    rw [delegatedStatement, hroute, hrendering]
    refine speltChange_send (hsay.nameOf_of_route? hroute _) (fun after => ?_) hsay
    obtain ⟨fs, hfs, hspells⟩ := (hspelt hright h).scans (.of_parenthesis _ after)
    exact ⟨fs, by simpa [shownPieces] using hfs, fun offset => .plain (hspells offset)⟩
  | @combine right x o e r hroute hright hne hoperand hr h =>
    have hrendering := rendering_setting hneat hc hr hright hne fun piece => mem_combinationPieces
    rw [delegatedStatement, hroute, hrendering]
    refine speltChange_send (hsay.nameOf_of_route? hroute _) ?_ hsay
    refine speltArgument_combination (hsay.nameOf_of_route? hroute _) hsay.helper
      (hspelt hright h) fun he => ?_
    exact h.spelt hneat hsay.helper (hc.of_mem_children (Node.mem_parts.mp hright).left)
      ((hw.of_mem_parts hkind hright).operand (hoperand he))

theorem ReroutedLine.spelt {t : Statement} (h : ReroutedLine R family n t) (hn : n.Sound text)
    (hw : n.Written text levels) : SpeltLine (rendering text family n.span)
      (R.delegatedStatement t) := by
  obtain ⟨c, semicolon, hparts, hsemicolon, hbinary, hchange⟩ := h.exists_parts
  have hmem : ∀ {m : Node}, m ∈ [c, semicolon] → m ∈ n.parts := fun hm => hparts ▸ hm
  have hne := Node.children_ne_nil_of_mem_parts (hmem List.mem_cons_self)
  obtain ⟨hfirst, hlast, hadjoining⟩ := hw.adjoining hne
  have hrendering := h.kept.rendering_eq_woven hneat hn hfirst hlast hne
  rw [hparts] at hrendering hadjoining
  simp only [List.map_cons, List.map_nil, woven,
    h.kept.rendering_mark hneat hn (hmem (by simp)) hsemicolon] at hrendering
  have hspelt := hchange.spelt hneat hsay
    (hn.of_mem_children (Node.mem_parts.mp (hmem List.mem_cons_self)).left)
    (hw.of_mem_parts (by simp [h.kind]) (hmem List.mem_cons_self)) hbinary
  cases hadjoining with
  | cons_cons hgap =>
    refine ⟨fun after => ?_, ?_⟩
    · have hsolid : ∀ c ∈ ([';'] ++ after).head?, isGap c = false := by
        intro c hc
        obtain rfl := Option.some.inj hc
        rfl
      obtain ⟨gs, hgs, hnone⟩ := hgap.scans hsolid
      obtain ⟨fs, hfs, hspells⟩ := hspelt.scans
        (Text.slice text ⟨c.span.stop, semicolon.span.start⟩ ++ [';'] ++ after)
      have hall := hfs.append (hgs.append (scans_semicolon after))
      refine ⟨_, by simpa [hrendering] using hall, fun offset => ?_⟩
      simp only [tokensFrom_append, hnone, tokensFrom_token, tokensFrom_nil, List.nil_append]
      exact hspells _ _ rfl
    · obtain ⟨d, tail, hhead, hd⟩ := hspelt.first
      exact ⟨d, _, by rw [hrendering, hhead]; rfl, hd⟩

-- The lines of a block and the brace behind them.
structure SpeltLines (cs : List Char) (ts : List Statement) : Prop where
  scans : ∀ after, ∃ fs, Scans cs fs after ∧ ∀ offset, ∃ us closing,
    tokensFrom offset fs = us ++ [closing] ∧ Grammar.SpellsLines us ts ∧
      closing.kind = .token "\x7d" ∧ closing.text = "\x7d"
  first : ∃ c tail, cs = c :: tail ∧ isGap c = false

theorem speltLines {closing : Node} {ns : List Node} {ts : List Statement}
    (h : List.Forall₂ (ReroutedLine R family) ns ts)
    (hns : ∀ n ∈ ns, n.Sound text ∧ n.Written text Grammar.operatorLevels)
    (hadjoining : Adjoining text (ns ++ [closing]))
    (hclosing : rendering text family closing.span = ['\x7d']) :
    SpeltLines (woven text family ((ns ++ [closing]).map (·.span)))
      (ts.map R.delegatedStatement) := by
  induction h with
  | nil =>
    refine ⟨fun after => ⟨[⟨.token (.token "\x7d"), ['\x7d']⟩], ?_, fun offset =>
      ⟨[], _, rfl, .nil, rfl, rfl⟩⟩, '\x7d', [], ?_, rfl⟩
    · simpa [woven, hclosing] using scans_brace after
    · simp [woven, hclosing]
  | @cons n t ns ts hn _ ih =>
    obtain ⟨next, rest, hrest⟩ := List.exists_cons_of_ne_nil
      (List.append_ne_nil_of_right_ne_nil ns (List.cons_ne_nil closing []))
    rw [List.cons_append, hrest] at hadjoining
    rw [hrest] at ih
    obtain ⟨hsound, hwritten⟩ := hns n List.mem_cons_self
    obtain ⟨hline, c, tail, hcs, hc⟩ := hn.spelt hneat hsay hsound hwritten
    cases hadjoining with
    | cons_cons hgap hadjoining =>
      obtain ⟨hlines, hfirst⟩ := ih (fun m hm => hns m (List.mem_cons_of_mem _ hm)) hadjoining
      rw [List.cons_append, hrest, List.map_cons, List.map_cons, woven]
      refine ⟨fun after => ?_, c, _, by rw [hcs]; rfl, hc⟩
      rw [List.map_cons] at hlines hfirst
      have hsolid : ∀ d ∈ (woven text family (next.span :: rest.map (·.span)) ++ after).head?,
          isGap d = false := by
        intro d hd
        obtain ⟨d', tail', heq, hd'⟩ := hfirst
        rw [heq] at hd
        obtain rfl := Option.some.inj hd
        exact hd'
      obtain ⟨gs, hgs, hnone⟩ := hgap.scans hsolid
      obtain ⟨us, hus, hspells'⟩ := hlines after
      obtain ⟨fs, hfs, hspells⟩ := hline
        (Text.slice text ⟨n.span.stop, next.span.start⟩ ++
          (woven text family (next.span :: rest.map (·.span)) ++ after))
      rw [← List.append_assoc] at hfs
      have hall := hfs.append (hgs.append hus)
      refine ⟨_, by simpa using hall, fun offset => ?_⟩
      obtain ⟨vs, brace, hbrace, hvs, hend⟩ := hspells'
        (offset + (fs.map fun f => Text.byteLength f.word).sum +
          (gs.map fun f => Text.byteLength f.word).sum)
      refine ⟨tokensFrom offset fs ++ vs, brace, ?_, .cons (hspells offset) hvs, hend⟩
      rw [tokensFrom_append, tokensFrom_append, hnone, List.nil_append, hbrace, List.append_assoc]

theorem ReroutedBlock.readBlock?_rendering {ts : List Statement} (h : ReroutedBlock R family n ts)
    (hn : n.Sound text) (hw : n.Written text levels) :
    readBlock? (rendering text family n.span) =
      some ((ts.map R.delegatedStatement).map .run) := by
  obtain ⟨opening, ns, closing, hparts, hopening, hclosing, hkind, hlines⟩ := h.exists_parts
  have hmem : ∀ {m : Node}, m ∈ opening :: (ns ++ [closing]) → m ∈ n.parts := fun hm => hparts ▸ hm
  have hne := Node.children_ne_nil_of_mem_parts (hmem List.mem_cons_self)
  obtain ⟨hfirst, hlast, hadjoining⟩ := hw.adjoining hne
  have hrendering := h.kept.rendering_eq_woven hneat hn hfirst hlast hne
  obtain ⟨next, rest, hrest⟩ := List.exists_cons_of_ne_nil
    (List.append_ne_nil_of_right_ne_nil ns (List.cons_ne_nil closing []))
  have hclosed := h.kept.rendering_mark hneat hn (hmem (by simp)) hclosing
  rw [hparts, hrest, List.map_cons, List.map_cons, woven,
    h.kept.rendering_mark hneat hn (hmem (by simp)) hopening] at hrendering
  rw [hparts, hrest] at hadjoining
  cases hadjoining with
  | cons_cons hgap hadjoining =>
    rw [← hrest] at hadjoining
    have hns : ∀ m ∈ ns, m.Sound text ∧ m.Written text Grammar.operatorLevels := by
      intro m hm
      have hm' := hmem (List.mem_cons_of_mem _ (List.mem_append_left _ hm))
      exact ⟨hn.of_mem_children (Node.mem_parts.mp hm').left, hw.of_mem_parts hkind hm'⟩
    obtain ⟨hlines, c, tail, hcs, hc⟩ := speltLines hneat hsay hlines hns hadjoining hclosed
    obtain ⟨us, hus, hspells⟩ := hlines []
    rw [hrest, List.map_cons] at hcs hus
    have hsolid : ∀ d ∈ (woven text family (next.span :: rest.map Node.span) ++ []).head?,
        isGap d = false := by
      intro d hd
      rw [hcs] at hd
      obtain rfl := Option.some.inj hd
      exact hc
    obtain ⟨gs, hgs, hnone⟩ := hgap.scans hsolid
    have hall := (scans_bracket (show "\x7b" ∈ Java.brackets by decide) _).append (hgs.append hus)
    obtain ⟨vs, brace, hbrace, hvs, hkind, hword⟩ :=
      hspells (Text.byteLength "\x7b".toList + (gs.map fun f => Text.byteLength f.word).sum)
    rw [hrendering, List.append_assoc]
    have hopen : (⟨.token "\x7b", "\x7b", ⟨0, Text.byteLength "\x7b".toList⟩⟩ : Token).kind =
        .token "\x7b" := rfl
    refine readBlock?_of_scans (by simpa using hall) ?_ hopen hvs hkind hword
    rw [← hbrace, tokensFrom_token, tokensFrom_append, hnone, List.nil_append, Nat.zero_add]
    rfl

end Change

end Routing

end ClassSplit
