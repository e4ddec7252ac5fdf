import ClassSplit.Delegation.Reference
import ClassSplit.Proofs.Java.Execution
import Mathlib.Algebra.GroupWithZero.Nat

/-!
What the constructs of a syntax tree mean as statements over integral variables. A node is read from
what its children are read as; comments have no meaning. Of the constructs that mean nothing here no
reading is given.
-/

namespace ClassSplit.Java

/-- What a node is read as. -/
inductive Phrase where
  | mark (word : String)
  /-- The object that runs. -/
  | self
  | type (t : Integral)
  | expression (e : Expression)
  | arguments (argument : Option Expression)
  | send (object method : String) (argument : Expression)
  | assign (x : Holder) (e : Expression)
  | combine (x : Holder) (o : Operator) (e : Expression)
  | line (body : Procedure.Body)
  | block (lines : List Procedure.Body)
  deriving DecidableEq

/-- Whether a word is a name and no keyword. -/
def isName (word : String) : Bool := !Grammar.typeKeywords.contains word

namespace Operator

def all : List Operator :=
  [plus, minus, times, divide, remainder, leftShift, rightShift, unsignedRightShift, bitAnd, bitOr,
    bitXor]

/-- The operator with a sign. -/
def ofSign? (sign : String) : Option Operator := all.find? (·.sign == sign)

@[simp] theorem ofSign?_sign (o : Operator) : ofSign? o.sign = some o := by
  cases o <;> rfl

theorem sign_of_ofSign? {sign : String} {o : Operator} (h : ofSign? sign = some o) :
    o.sign = sign := by
  simpa using List.find?_some h

end Operator

/-- The number with some digits. -/
def numberOf (base : Nat) (digits : List Char) : Nat :=
  digits.foldl (fun n c =>
    base * n + if c.isDigit then c.toNat - '0'.toNat else c.toLower.toNat - 'a'.toNat + 10) 0

/-- The value of an integer literal. The sign of a number is no part of the literal, so that a
decimal literal is never negative. -/
def literal? (kind : Kind) (word : String) : Option Value :=
  let t := if isLongLiteral word then Integral.long else .int
  let digits := word.toList.filter fun c => c != '_' && c != 'l' && c != 'L'
  let within (limit n : Nat) : Option Value :=
    if n < limit then some (.ofNumber t n) else none
  match kind with
  | .decimalIntegerLiteral => within (2 ^ (t.width - 1)) (numberOf 10 digits)
  | .hexIntegerLiteral => within (2 ^ t.width) (numberOf 16 (digits.drop 2))
  | .octalIntegerLiteral =>
    if digits.all Number.isOctal then within (2 ^ t.width) (numberOf 8 digits) else none
  | .binaryIntegerLiteral => within (2 ^ t.width) (numberOf 2 (digits.drop 2))
  | _ => none

example : literal? .decimalIntegerLiteral "1_000" = some (.ofNumber .int 1000) := by decide +kernel

example : literal? .hexIntegerLiteral "0xFFFF_FFFF" = some (.ofNumber .int (-1)) := by
  decide +kernel

theorem isIntegerLiteralKind_of_literal? {kind : Kind} {word : String} {v : Value}
    (h : literal? kind word = some v) : isIntegerLiteralKind kind = true := by
  cases kind
  all_goals first | rfl | cases h

/-- The variable that an expression is, perhaps in parentheses. -/
def Expression.variable? : Expression → Option Holder
  | read x => some x
  | grouped e => e.variable?
  | _ => none

namespace Phrase

def ofToken? (kind : Kind) (word : String) : Option Phrase :=
  match kind with
  | .token text => some (.mark text)
  | .thisWord => some .self
  | .identifier => if isName word then some (.expression (.read (.name word))) else none
  | _ => (literal? kind word).map fun v => .expression (.literal v)

theorem ofToken?_of_literal? {kind : Kind} {word : String} {v : Value}
    (h : literal? kind word = some v) : ofToken? kind word = some (.expression (.literal v)) := by
  have hkind := isIntegerLiteralKind_of_literal? h
  cases kind
  case decimalIntegerLiteral | hexIntegerLiteral | octalIntegerLiteral | binaryIntegerLiteral =>
    exact congrArg (Option.map fun v => Phrase.expression (.literal v)) h
  all_goals cases hkind

def grouped? : List Phrase → Option Phrase
  | [.mark "(", .expression e, .mark ")"] => some (.expression (.grouped e))
  | _ => none

def binary? : List Phrase → Option Phrase
  | [.expression left, .mark sign, .expression right] =>
    (Operator.ofSign? sign).map fun o => .expression (.binary o left right)
  | _ => none

def access? : List Phrase → Option Phrase
  | [.self, .mark ".", .expression (.read (.name field))] =>
    some (.expression (.read (.own field)))
  | _ => none

def isIncrement? (sign : String) : Option Bool :=
  if sign = "++" then some true else if sign = "--" then some false else none

def update? : List Phrase → Option Phrase
  | [.mark sign, .expression e] => do
    some (.expression (.step (← isIncrement? sign) true (← e.variable?)))
  | [.expression e, .mark sign] => do
    some (.expression (.step (← isIncrement? sign) false (← e.variable?)))
  | _ => none

def type? : List Phrase → Option Phrase
  | [.mark word] => (Integral.ofWord? word).map .type
  | _ => none

def cast? : List Phrase → Option Phrase
  | [.mark "(", .type t, .mark ")", .expression e] => some (.expression (.cast t e))
  | _ => none

def arguments? : List Phrase → Option Phrase
  | [.mark "(", .mark ")"] => some (.arguments none)
  | [.mark "(", .expression e, .mark ")"] => some (.arguments (some e))
  | _ => none

def invocation? : List Phrase → Option Phrase
  | [.expression (.read (.name object)), .mark ".", .expression (.read (.name method)),
      .arguments argument] =>
    match argument with
    | none => some (.expression (.call object method))
    | some e => some (.send object method e)
  | _ => none

/-- The operator of a compound assignment. -/
def combiner? (sign : String) : Option Operator := Operator.all.find? (·.sign ++ "=" == sign)

def assignment? : List Phrase → Option Phrase
  | [.expression left, .mark sign, .expression right] =>
    if sign = "=" then left.variable?.map (.assign · right)
    else do some (.combine (← left.variable?) (← combiner? sign) right)
  | _ => none

/-- The statement that an expression is by itself. -/
def statement? : Phrase → Option Statement
  | .expression (.step isIncrement isFront x) => some (.evaluate (.step isIncrement isFront x))
  | .expression (.call object method) => some (.evaluate (.call object method))
  | .send object method e => some (.send object method e)
  | .assign x e => some (.assign x e)
  | .combine x o e => some (.combine x o e)
  | _ => none

def line? : List Phrase → Option Phrase
  | [p, .mark ";"] => (statement? p).map fun t => .line (.run t)
  | _ => none

def result? : List Phrase → Option Phrase
  | [.mark "return", .expression e, .mark ";"] => some (.line (.giveBack e))
  | _ => none

/-- The lines up to the brace that closes a block. -/
def lines? : List Phrase → Option (List Procedure.Body)
  | [.mark "\x7d"] => some []
  | .line body :: rest => (lines? rest).map (body :: ·)
  | _ => none

def block? : List Phrase → Option Phrase
  | .mark "\x7b" :: rest => (lines? rest).map .block
  | _ => none

/-- What a construct is read as, given what its children are read as. -/
def ofChildren? (kind : Kind) (ps : List Phrase) : Option Phrase :=
  match kind with
  | .parenthesizedExpression => grouped? ps
  | .binaryExpression => binary? ps
  | .fieldAccess => access? ps
  | .updateExpression => update? ps
  | .integralType => type? ps
  | .castExpression => cast? ps
  | .argumentList => arguments? ps
  | .methodInvocation => invocation? ps
  | .assignmentExpression => assignment? ps
  | .expressionStatement => line? ps
  | .returnStatement => result? ps
  | .block => block? ps
  | _ => none

-- What the children of a construct are read as, given what it is read as itself.
inductive Forms : Kind → List Phrase → Phrase → Prop
  | grouped (e : Expression) : Forms .parenthesizedExpression [.mark "(", .expression e, .mark ")"]
    (.expression (.grouped e))
  | binary {sign : String} {o : Operator} (left right : Expression)
    (ho : Operator.ofSign? sign = some o) :
    Forms .binaryExpression [.expression left, .mark sign, .expression right]
      (.expression (.binary o left right))
  | access (field : String) :
    Forms .fieldAccess [.self, .mark ".", .expression (.read (.name field))]
      (.expression (.read (.own field)))
  | stepFront {sign : String} {isIncrement : Bool} {e : Expression} {x : Holder}
    (hsign : isIncrement? sign = some isIncrement) (hx : e.variable? = some x) :
    Forms .updateExpression [.mark sign, .expression e] (.expression (.step isIncrement true x))
  | stepBack {sign : String} {isIncrement : Bool} {e : Expression} {x : Holder}
    (hsign : isIncrement? sign = some isIncrement) (hx : e.variable? = some x) :
    Forms .updateExpression [.expression e, .mark sign] (.expression (.step isIncrement false x))
  | type {word : String} {t : Integral} (ht : Integral.ofWord? word = some t) :
    Forms .integralType [.mark word] (.type t)
  | cast (t : Integral) (e : Expression) :
    Forms .castExpression [.mark "(", .type t, .mark ")", .expression e] (.expression (.cast t e))
  | nothing : Forms .argumentList [.mark "(", .mark ")"] (.arguments none)
  | argument (e : Expression) :
    Forms .argumentList [.mark "(", .expression e, .mark ")"] (.arguments (some e))
  | call (object method : String) :
    Forms .methodInvocation [.expression (.read (.name object)), .mark ".",
      .expression (.read (.name method)), .arguments none] (.expression (.call object method))
  | send (object method : String) (e : Expression) :
    Forms .methodInvocation [.expression (.read (.name object)), .mark ".",
      .expression (.read (.name method)), .arguments (some e)] (.send object method e)
  | assign {left : Expression} {x : Holder} (right : Expression) (hx : left.variable? = some x) :
    Forms .assignmentExpression [.expression left, .mark "=", .expression right] (.assign x right)
  | combine {sign : String} {left : Expression} {x : Holder} {o : Operator} (right : Expression)
    (hne : sign ≠ "=") (hx : left.variable? = some x) (ho : combiner? sign = some o) :
    Forms .assignmentExpression [.expression left, .mark sign, .expression right]
      (.combine x o right)
  | line {p : Phrase} {t : Statement} (hp : statement? p = some t) :
    Forms .expressionStatement [p, .mark ";"] (.line (.run t))
  | result (e : Expression) :
    Forms .returnStatement [.mark "return", .expression e, .mark ";"] (.line (.giveBack e))
  | block {rest : List Phrase} {lines : List Procedure.Body} (h : lines? rest = some lines) :
    Forms .block (.mark "\x7b" :: rest) (.block lines)

theorem forms_of_ofChildren? {kind : Kind} {ps : List Phrase} {p : Phrase}
    (h : ofChildren? kind ps = some p) : Forms kind ps p := by
  cases kind
  case parenthesizedExpression =>
    rw [ofChildren?, grouped?.eq_def] at h
    split at h
    case h_1 => cases h; exact .grouped _
    case h_2 => cases h
  case binaryExpression =>
    rw [ofChildren?, binary?.eq_def] at h
    split at h
    case h_1 =>
      obtain ⟨o, ho, rfl⟩ := Option.map_eq_some_iff.mp h
      exact .binary _ _ ho
    case h_2 => cases h
  case fieldAccess =>
    rw [ofChildren?, access?.eq_def] at h
    split at h
    case h_1 => cases h; exact .access _
    case h_2 => cases h
  case updateExpression =>
    rw [ofChildren?, update?.eq_def] at h
    split at h
    case h_1 =>
      obtain ⟨isIncrement, hsign, h⟩ := Option.bind_eq_some_iff.mp h
      obtain ⟨x, hx, h⟩ := Option.bind_eq_some_iff.mp h
      cases h
      exact .stepFront hsign hx
    case h_2 =>
      obtain ⟨isIncrement, hsign, h⟩ := Option.bind_eq_some_iff.mp h
      obtain ⟨x, hx, h⟩ := Option.bind_eq_some_iff.mp h
      cases h
      exact .stepBack hsign hx
    case h_3 => cases h
  case integralType =>
    rw [ofChildren?, type?.eq_def] at h
    split at h
    case h_1 =>
      obtain ⟨t, ht, rfl⟩ := Option.map_eq_some_iff.mp h
      exact .type ht
    case h_2 => cases h
  case castExpression =>
    rw [ofChildren?, cast?.eq_def] at h
    split at h
    case h_1 => cases h; exact .cast _ _
    case h_2 => cases h
  case argumentList =>
    rw [ofChildren?, arguments?.eq_def] at h
    split at h
    case h_1 => cases h; exact .nothing
    case h_2 => cases h; exact .argument _
    case h_3 => cases h
  case methodInvocation =>
    rw [ofChildren?, invocation?.eq_def] at h
    split at h
    case h_1 =>
      split at h
      case h_1 => cases h; exact .call _ _
      case h_2 => cases h; exact .send _ _ _
    case h_2 => cases h
  case assignmentExpression =>
    rw [ofChildren?, assignment?.eq_def] at h
    split at h
    case h_1 =>
      split at h
      case isTrue hsign =>
        subst hsign
        obtain ⟨x, hx, rfl⟩ := Option.map_eq_some_iff.mp h
        exact .assign _ hx
      case isFalse hne =>
        obtain ⟨x, hx, h⟩ := Option.bind_eq_some_iff.mp h
        obtain ⟨o, ho, h⟩ := Option.bind_eq_some_iff.mp h
        cases h
        exact .combine _ hne hx ho
    case h_2 => cases h
  case expressionStatement =>
    rw [ofChildren?, line?.eq_def] at h
    split at h
    case h_1 =>
      obtain ⟨t, ht, rfl⟩ := Option.map_eq_some_iff.mp h
      exact .line ht
    case h_2 => cases h
  case returnStatement =>
    rw [ofChildren?, result?.eq_def] at h
    split at h
    case h_1 => cases h; exact .result _
    case h_2 => cases h
  case block =>
    rw [ofChildren?, block?.eq_def] at h
    split at h
    case h_1 =>
      obtain ⟨lines, hlines, rfl⟩ := Option.map_eq_some_iff.mp h
      exact .block hlines
    case h_2 => cases h
  all_goals cases h

-- What a token is read as.
inductive Says : Kind → String → Phrase → Prop
  | mark (text word : String) : Says (.token text) word (.mark text)
  | self (word : String) : Says .thisWord word .self
  | name {word : String} (h : isName word = true) :
    Says .identifier word (.expression (.read (.name word)))
  | literal {kind : Kind} {word : String} {v : Value} (h : literal? kind word = some v) :
    Says kind word (.expression (.literal v))

theorem says_of_ofToken? {kind : Kind} {word : String} {p : Phrase}
    (h : ofToken? kind word = some p) : Says kind word p := by
  rw [ofToken?.eq_def] at h
  split at h
  case h_1 => cases h; exact .mark _ _
  case h_2 => cases h; exact .self _
  case h_3 =>
    split at h
    case isTrue hname => cases h; exact .name hname
    case isFalse => cases h
  case h_4 =>
    obtain ⟨v, hv, rfl⟩ := Option.map_eq_some_iff.mp h
    exact .literal hv

end Phrase

mutual

/-- What a node is read as. -/
def Node.phrase? : Node → Option Phrase
  | .leaf kind _ _ word => Phrase.ofToken? kind word
  | .branch kind _ _ children => (Node.phrases? children).bind (Phrase.ofChildren? kind)

/-- What neighbouring nodes are read as. -/
def Node.phrases? : List Node → Option (List Phrase)
  | [] => some []
  | n :: ns =>
    if n.isComment then Node.phrases? ns
    else do some ((← n.phrase?) :: (← Node.phrases? ns))

end

namespace Node

variable {n : Node} {ns ms : List Node} {role : Role}

@[simp] theorem phrase?_withRole (role : Role) (n : Node) : (n.withRole role).phrase? = n.phrase? := by
  cases n <;> rfl

@[simp] theorem isComment_withRole (role : Role) (n : Node) :
    (n.withRole role).isComment = n.isComment := by
  cases n <;> rfl

theorem isComment_of_phrase? {p : Phrase} (h : n.phrase? = some p) : n.isComment = false := by
  cases n with
  | leaf kind role span word =>
    rw [phrase?] at h
    cases kind
    case lineComment | blockComment => cases h
    all_goals rfl
  | branch kind role span children =>
    rw [phrase?] at h
    obtain ⟨ps, -, h⟩ := Option.bind_eq_some_iff.mp h
    cases kind
    case lineComment | blockComment => cases h
    all_goals rfl

theorem phrases?_cons (h : n.isComment = false) (ns : List Node) :
    phrases? (n :: ns) = n.phrase?.bind fun p => (phrases? ns).map (p :: ·) := by
  rw [phrases?, if_neg (by simp [h])]
  cases n.phrase? with
  | none => rfl
  | some p => cases phrases? ns <;> rfl

theorem phrases?_singleton {p : Phrase} (h : n.phrase? = some p) : phrases? [n] = some [p] := by
  rw [phrases?_cons (isComment_of_phrase? h), h]
  rfl

theorem phrases?_map_withRole (role : Role) (ns : List Node) :
    phrases? (ns.map (·.withRole role)) = phrases? ns := by
  induction ns with
  | nil => rfl
  | cons n ns ih => simp [phrases?, ih]

theorem phrases?_append (ns ms : List Node) :
    phrases? (ns ++ ms) = (phrases? ns).bind fun ps => (phrases? ms).map (ps ++ ·) := by
  induction ns with
  | nil => cases h : phrases? ms <;> simp [phrases?, h]
  | cons n ns ih =>
    cases hcomment : n.isComment with
    | true => simp only [List.cons_append, phrases?, hcomment, if_true, ih]
    | false =>
      rw [List.cons_append, phrases?_cons hcomment, phrases?_cons hcomment, ih]
      cases n.phrase? with
      | none => rfl
      | some p =>
        cases phrases? ns with
        | none => rfl
        | some ps => cases phrases? ms <;> rfl

theorem phrases?_filter (ns : List Node) :
    phrases? (ns.filter (!·.isComment)) = phrases? ns := by
  induction ns with
  | nil => rfl
  | cons n ns ih =>
    cases hcomment : n.isComment with
    | true => simp [hcomment, phrases?, ih]
    | false =>
      rw [List.filter_cons_of_pos (by simp [hcomment]), phrases?_cons hcomment,
        phrases?_cons hcomment, ih]

/-- The children that are no comments. -/
def parts (n : Node) : List Node := n.children.filter (!·.isComment)

theorem mem_parts {m : Node} : m ∈ n.parts ↔ m ∈ n.children ∧ m.isComment = false := by
  simp [parts]

theorem forall₂_of_phrases? {ps : List Phrase} (h : phrases? ns = some ps) :
    List.Forall₂ (fun m p => m.phrase? = some p) (ns.filter (!·.isComment)) ps := by
  induction ns generalizing ps with
  | nil =>
    cases h
    exact .nil
  | cons n ns ih =>
    cases hcomment : n.isComment with
    | true =>
      rw [phrases?, if_pos hcomment] at h
      rw [List.filter_cons_of_neg (by simp [hcomment])]
      exact ih h
    | false =>
      rw [phrases?_cons hcomment] at h
      obtain ⟨p, hp, h⟩ := Option.bind_eq_some_iff.mp h
      obtain ⟨qs, hqs, rfl⟩ := Option.map_eq_some_iff.mp h
      rw [List.filter_cons_of_pos (by simp [hcomment])]
      exact .cons hp (ih hqs)

-- A node that is read is a token or a construct.
inductive IsRead : Node → Phrase → Prop
  | leaf {kind : Kind} {role : Option Role} {span : Span} {word : String} {p : Phrase}
    (h : Phrase.Says kind word p) : IsRead (.leaf kind role span word) p
  | branch {kind : Kind} {role : Option Role} {span : Span} {children : List Node}
    {ps : List Phrase} {p : Phrase} (h : Phrase.Forms kind ps p)
    (hparts : List.Forall₂ (fun m p => m.phrase? = some p) (children.filter (!·.isComment)) ps) :
    IsRead (.branch kind role span children) p

theorem isRead_of_phrase? {p : Phrase} (h : n.phrase? = some p) : n.IsRead p := by
  cases n with
  | leaf => exact .leaf (Phrase.says_of_ofToken? h)
  | branch =>
    obtain ⟨ps, hps, h⟩ := Option.bind_eq_some_iff.mp h
    exact .branch (Phrase.forms_of_ofChildren? h) (forall₂_of_phrases? hps)

section Parts

variable {p : Phrase} {e left right : Expression} {x : Holder} {o : Operator}

theorem exists_two {p q : Phrase} (h : List.Forall₂ (fun m p => m.phrase? = some p) ns [p, q]) :
    ∃ m k, ns = [m, k] ∧ m.phrase? = some p ∧ k.phrase? = some q := by
  cases h with
  | cons hm h =>
    cases h with
    | cons hk h =>
      cases h
      exact ⟨_, _, rfl, hm, hk⟩

theorem exists_three {p q r : Phrase}
    (h : List.Forall₂ (fun m p => m.phrase? = some p) ns [p, q, r]) :
    ∃ m k l, ns = [m, k, l] ∧ m.phrase? = some p ∧ k.phrase? = some q ∧ l.phrase? = some r := by
  cases h with
  | cons hm h =>
    obtain ⟨k, l, rfl, hk, hl⟩ := exists_two h
    exact ⟨_, k, l, rfl, hm, hk, hl⟩

theorem kind_of_literal {v : Value} (h : n.phrase? = some (.expression (.literal v))) :
    isIntegerLiteralKind n.kind = true ∧ literal? n.kind n.word = some v := by
  cases isRead_of_phrase? h with
  | leaf h =>
    cases h with
    | literal hv => exact ⟨isIntegerLiteralKind_of_literal? hv, hv⟩
  | branch h => cases h

theorem kind_of_name {word : String} (h : n.phrase? = some (.expression (.read (.name word)))) :
    n.kind = .identifier ∧ n.word = word ∧ n.children = [] := by
  cases isRead_of_phrase? h with
  | leaf h =>
    cases h
    exact ⟨rfl, rfl, rfl⟩
  | branch h => cases h

theorem parts_of_own {field : String} (h : n.phrase? = some (.expression (.read (.own field)))) :
    n.kind = .fieldAccess ∧ ∃ object dot name, n.parts = [object, dot, name] ∧
      object.kind = .thisWord ∧ dot.phrase? = some (.mark ".") ∧
        name.phrase? = some (.expression (.read (.name field))) := by
  cases isRead_of_phrase? h with
  | leaf h => cases h
  | branch h hparts =>
    cases h
    obtain ⟨object, dot, name, hparts, hobject, hdot, hname⟩ := exists_three hparts
    refine ⟨rfl, object, dot, name, hparts, ?_, hdot, hname⟩
    cases isRead_of_phrase? hobject with
    | leaf h =>
      cases h
      rfl
    | branch h => cases h

theorem parts_of_grouped (h : n.phrase? = some (.expression (.grouped e))) :
    n.kind = .parenthesizedExpression ∧ ∃ opening inner closing,
      n.parts = [opening, inner, closing] ∧ opening.phrase? = some (.mark "(") ∧
        inner.phrase? = some (.expression e) ∧ closing.phrase? = some (.mark ")") := by
  cases isRead_of_phrase? h with
  | leaf h => cases h
  | branch h hparts =>
    cases h
    exact ⟨rfl, exists_three hparts⟩

theorem parts_of_binary (h : n.phrase? = some (.expression (.binary o left right))) :
    n.kind = .binaryExpression ∧ ∃ first sign second, n.parts = [first, sign, second] ∧
      first.phrase? = some (.expression left) ∧ sign.phrase? = some (.mark o.sign) ∧
        second.phrase? = some (.expression right) := by
  cases isRead_of_phrase? h with
  | leaf h => cases h
  | branch h hparts =>
    cases h with
    | binary left right ho =>
      rw [Operator.sign_of_ofSign? ho]
      exact ⟨rfl, exists_three hparts⟩

-- The sign of a step stands in front of its operand or behind it.
theorem parts_of_step {isIncrement isFront : Bool}
    (h : n.phrase? = some (.expression (.step isIncrement isFront x))) :
    n.kind = .updateExpression ∧ ∃ sign operand e,
      n.parts = (if isFront then [sign, operand] else [operand, sign]) ∧
        sign.phrase? = some (.mark (if isIncrement then "++" else "--")) ∧
          operand.phrase? = some (.expression e) ∧ e.variable? = some x := by
  have hsigns : ∀ {word : String} {isIncrement : Bool},
      Phrase.isIncrement? word = some isIncrement → word = if isIncrement then "++" else "--" := by
    intro word isIncrement hword
    rw [Phrase.isIncrement?] at hword
    split at hword
    case isTrue hplus =>
      cases hword
      exact hplus
    case isFalse =>
      split at hword
      case isTrue hminus =>
        cases hword
        exact hminus
      case isFalse => cases hword
  cases isRead_of_phrase? h with
  | leaf h => cases h
  | branch h hparts =>
    cases h with
    | stepFront hsign hx =>
      obtain ⟨sign, operand, hparts, hmark, he⟩ := exists_two hparts
      exact ⟨rfl, sign, operand, _, hparts, hsigns hsign ▸ hmark, he, hx⟩
    | stepBack hsign hx =>
      obtain ⟨operand, sign, hparts, he, hmark⟩ := exists_two hparts
      exact ⟨rfl, sign, operand, _, hparts, hsigns hsign ▸ hmark, he, hx⟩

theorem parts_of_assign (h : n.phrase? = some (.assign x e)) :
    n.kind = .assignmentExpression ∧ ∃ first sign second target, n.parts = [first, sign, second] ∧
      first.phrase? = some (.expression target) ∧ target.variable? = some x ∧
        sign.phrase? = some (.mark "=") ∧ second.phrase? = some (.expression e) := by
  cases isRead_of_phrase? h with
  | leaf h => cases h
  | branch h hparts =>
    cases h with
    | assign right hx =>
      obtain ⟨first, sign, second, hparts, hfirst, hsign, hsecond⟩ := exists_three hparts
      exact ⟨rfl, first, sign, second, _, hparts, hfirst, hx, hsign, hsecond⟩

theorem parts_of_combine (h : n.phrase? = some (.combine x o e)) :
    n.kind = .assignmentExpression ∧ ∃ first sign second target, n.parts = [first, sign, second] ∧
      first.phrase? = some (.expression target) ∧ target.variable? = some x ∧
        sign.phrase? = some (.mark (o.sign ++ "=")) ∧
          second.phrase? = some (.expression e) := by
  cases isRead_of_phrase? h with
  | leaf h => cases h
  | branch h hparts =>
    cases h with
    | combine right hne hx ho =>
      obtain ⟨first, sign, second, hparts, hfirst, hsign, hsecond⟩ := exists_three hparts
      have hword := List.find?_some ho
      rw [beq_iff_eq] at hword
      exact ⟨rfl, first, sign, second, _, hparts, hfirst, hx, hword ▸ hsign, hsecond⟩

theorem parts_of_line {t : Statement} (h : n.phrase? = some (.line (.run t))) :
    n.kind = .expressionStatement ∧ ∃ change semicolon p, n.parts = [change, semicolon] ∧
      change.phrase? = some p ∧ Phrase.statement? p = some t ∧
        semicolon.phrase? = some (.mark ";") := by
  cases isRead_of_phrase? h with
  | leaf h => cases h
  | branch h hparts =>
    cases h with
    | line hp =>
      obtain ⟨change, semicolon, hparts, hchange, hsemicolon⟩ := exists_two hparts
      exact ⟨rfl, change, semicolon, _, hparts, hchange, hp, hsemicolon⟩

theorem lines_of_phrases {ps : List Phrase} {bodies : List Procedure.Body}
    (h : Phrase.lines? ps = some bodies)
    (hns : List.Forall₂ (fun m p => m.phrase? = some p) ns ps) :
    ∃ lines closing, ns = lines ++ [closing] ∧ closing.phrase? = some (.mark "\x7d") ∧
      List.Forall₂ (fun m body => m.phrase? = some (.line body)) lines bodies := by
  induction ps using Phrase.lines?.induct generalizing ns bodies with
  | case1 =>
    cases h
    cases hns with
    | cons hclosing hns =>
      cases hns
      exact ⟨[], _, rfl, hclosing, .nil⟩
  | case2 body rest ih =>
    obtain ⟨bodies', hbodies, rfl⟩ := Option.map_eq_some_iff.mp h
    cases hns with
    | cons hline hns =>
      obtain ⟨lines, closing, rfl, hclosing, hlines⟩ := ih hbodies hns
      exact ⟨_ :: lines, closing, rfl, hclosing, .cons hline hlines⟩
  | case3 rest hclosing hline =>
    rw [Phrase.lines?.eq_3 _ hclosing hline] at h
    cases h

theorem parts_of_block {bodies : List Procedure.Body} (h : n.phrase? = some (.block bodies)) :
    n.kind = .block ∧ ∃ opening lines closing, n.parts = opening :: (lines ++ [closing]) ∧
      opening.phrase? = some (.mark "\x7b") ∧ closing.phrase? = some (.mark "\x7d") ∧
        List.Forall₂ (fun m body => m.phrase? = some (.line body)) lines bodies := by
  cases isRead_of_phrase? h with
  | leaf h => cases h
  | branch h hparts =>
    cases h with
    | block hbodies =>
      refine ⟨rfl, ?_⟩
      rw [parts, children]
      generalize List.filter _ _ = ms at hparts ⊢
      cases hparts with
      | @cons opening _ rest _ hopening hrest =>
        obtain ⟨lines, closing, rfl, hclosing, hlines⟩ := lines_of_phrases hbodies hrest
        exact ⟨opening, lines, closing, rfl, hopening, hclosing, hlines⟩

end Parts

end Node

end ClassSplit.Java
