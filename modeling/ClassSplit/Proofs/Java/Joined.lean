import ClassSplit.Java.Grammar.Expressions
import ClassSplit.Proofs.Java.Lexing
import ClassSplit.Proofs.Java.Sound
import Mathlib.Data.List.Chain

/-!
What stands between neighbours. Outside of strings there is nothing between two tokens but blanks
and comments. A tree is joined if the same holds of the children of every construct in it, so that
no token of the text is missing in the tree.
-/

namespace ClassSplit

open Text

theorem Text.slice_append_dropBytes {text : List Char} {s : Span} (h : s.FitsIn text) :
    slice text s ++ dropBytes s.stop text = dropBytes s.start text := by
  obtain ⟨pre, mid, post, rfl, hpre, hmid⟩ := exists_parts h.ordered h.start h.stop
  have hslice := slice_eq pre mid post
  have hrest := dropBytes_append (pre ++ mid) post
  rw [hpre, hmid] at hslice
  rw [hmid] at hrest
  rw [hslice, hrest, ← hpre, List.append_assoc, dropBytes_append]

namespace Java

variable {text cs r w : List Char} {a b lo hi : Nat} {n m : Node} {ns : List Node} {kind : Kind}
  {span : Span} {frames : List Frame} {t : Token} {ts : List Token}

-- What may stand between two tokens: blanks and comments.
inductive Blank : List Char → Prop
  | gap {w : List Char} (hw : ∀ c ∈ w, isGap c = true) : Blank w
  | comment {kind : Kind} {w u rest : List Char} (hw : ∀ c ∈ w, isGap c = true)
    (hu : IsComment kind u) (hline : kind = .lineComment → rest.head? = some '\n')
    (h : Blank rest) : Blank (w ++ (u ++ rest))

theorem Blank.append_gap (h : Blank cs) (hw : ∀ c ∈ w, isGap c = true) : Blank (w ++ cs) := by
  have happend : ∀ {v : List Char}, (∀ c ∈ v, isGap c = true) → ∀ c ∈ w ++ v, isGap c = true :=
    fun hv c hc => (List.mem_append.mp hc).elim (hw c) (hv c)
  cases h with
  | gap hv => exact .gap (happend hv)
  | comment hv hu hline h =>
    rw [← List.append_assoc]
    exact .comment (happend hv) hu hline h

-- A span that has been found as a token of a kind, in front of the rest of the text.
def Stands (text : List Char) (kind : Kind) (span : Span) : Prop :=
  ∃ frames frames', stepInCode frames (dropBytes span.start text) =
    some ⟨.token kind, slice text span, dropBytes span.stop text, frames'⟩

-- The kinds of tokens that have to be found again as what they have been.
def Kind.isKept (kind : Kind) : Bool :=
  kind = .identifier || isIntegerLiteralKind kind || kind = .token "/"

-- The kinds of the tokens in front of which the lexer may stand in a string.
def Kind.isQuoted : Kind → Bool
  | .token word => word = "\"" || word = "\"\"\"" || word = "\\\x7b"
  | kind => kind.isStringPart

theorem Kind.isStringPart_of_isQuoted (h : kind.isQuoted = false) : kind.isStringPart = false := by
  cases kind
  all_goals first | rfl | cases h

theorem Kind.of_isQuoted (h : kind.isQuoted = true) :
    kind.isComment = false ∧ kind.isKept = false := by
  cases kind
  case token word =>
    simp only [isQuoted, Bool.or_eq_true, decide_eq_true_eq] at h
    obtain (rfl | rfl) | rfl := h
    all_goals exact ⟨rfl, rfl⟩
  all_goals first | exact ⟨rfl, rfl⟩ | cases h

-- Nothing that counts stands between an offset and a token.
def Seam (text : List Char) (a b : Nat) (kind : Kind) : Prop :=
  kind.isQuoted = true ∨ Blank (slice text ⟨a, b⟩)

structure Token.Placed (text : List Char) (t : Token) : Prop where
  isComment : t.kind.isComment = false
  stands : t.kind.isKept = true → Stands text t.kind t.span

-- Tokens of which each stands right behind the one in front of it. A string goes on behind each of
-- its parts.
def Adjacent (text : List Char) : Nat → List Token → Prop
  | _, [] => True
  | a, t :: ts => Seam text a t.span.start t.kind ∧ t.Placed text ∧
    (t.kind.isStringPart = true → ∀ u ∈ ts.head?, u.kind.isQuoted = true) ∧
      Adjacent text t.span.stop ts

section Lexer

/-- Whether the lexer stands in a string. -/
def inString : List Frame → Bool
  | .line :: _ | .textBlock :: _ => true
  | _ => false

-- Inside a string only parts of strings are found.
theorem isQuoted_of_stepInString {frame : Frame} {step : LexStep}
    (h : stepInString frame frames cs = some step) :
    (∃ kind, step.lexeme = .token kind ∧ kind.isQuoted = true ∧
      (kind.isStringPart = true → step.frames = frame :: frames)) ∨
        step.lexeme = .silent ∧ step.frames = frame :: frames := by
  unfold stepInString at h
  extract_lets block at h
  clear_value block
  split at h
  case h_1 =>
    cases h
    exact .inl ⟨_, rfl, by cases block <;> rfl, nofun⟩
  case h_2 =>
    split at h
    case isTrue => cases h; exact .inl ⟨_, rfl, rfl, fun _ => rfl⟩
    case isFalse => cases h; exact .inl ⟨_, rfl, rfl, nofun⟩
  case h_3 => cases h; exact .inl ⟨_, rfl, rfl, nofun⟩
  case h_4 =>
    extract_lets own at h
    split at h
    case isTrue => cases h; exact .inr ⟨rfl, rfl⟩
    case isFalse =>
      obtain ⟨n, -, rfl⟩ := Option.map_eq_some_iff.mp h
      exact .inl ⟨_, rfl, rfl, fun _ => rfl⟩
  case h_5 => cases h; exact .inl ⟨_, rfl, by cases block <;> rfl, fun _ => rfl⟩
  case h_6 => cases h

-- What is found outside of strings.
inductive Finds (cs : List Char) (frames : List Frame) : LexStep → Prop
  | gap {w r : List Char} (hw : ∀ c ∈ w, isGap c = true) : Finds cs frames ⟨.gap, w, r, frames⟩
  | comment {kind : Kind} {w r : List Char} (hw : IsComment kind w)
    (hr : kind = .lineComment → ∀ c ∈ r.head?, c = '\n') :
    Finds cs frames ⟨.comment kind, w, r, frames⟩
  | token {kind : Kind} {w r : List Char} {frames' : List Frame} (hcomment : kind.isComment = false)
    (hpart : kind.isStringPart = false) : Finds cs frames ⟨.token kind, w, r, frames'⟩

theorem finds_of_stepInCode {step : LexStep} (h : stepInCode frames cs = some step) :
    Finds cs frames step := by
  have hsplit := (sound_stepInCode h).split
  have hcomment : ∀ {kind w r}, step = ⟨.comment kind, w, r, frames⟩ → Finds cs frames step := by
    rintro kind w r rfl
    rw [← hsplit] at h
    obtain ⟨hw, hr⟩ := isComment_of_stepInCode h
    exact .comment hw hr
  cases codeStep_of_stepInCode h with
  | lineComment => exact hcomment rfl
  | blockComment => exact hcomment rfl
  | quote => exact .token rfl rfl
  | character => exact .token rfl rfl
  | @gap c tail hcs hc =>
    have heq : cs = c :: tail.takeWhile isGap ++ tail.dropWhile isGap := by simp [hcs]
    rw [heq, LexStep.upTo_eq]
    refine .gap fun d hd => ?_
    obtain rfl | hd := List.mem_cons.mp hd
    · exact hc
    · exact List.all_eq_true.mp List.all_takeWhile d hd
  | identifier => exact .token rfl rfl
  | number hscan =>
    have hkinds : ∀ kind ∈ Number.forms.map (·.1), kind.isComment = false ∧
        kind.isStringPart = false := by
      decide
    obtain ⟨hcomment, hpart⟩ := hkinds _ (kind_of_scan? hscan)
    exact .token hcomment hpart
  | mark => exact .token rfl rfl

-- What the lexer passes over in front of the next token.
theorem Adjacent.widen (h : Adjacent text b ts)
    (hseam : ∀ t ∈ ts.head?, Seam text b t.span.start t.kind → Seam text a t.span.start t.kind) :
    Adjacent text a ts := by
  cases ts with
  | nil => trivial
  | cons t ts => exact ⟨hseam t rfl h.left, h.right⟩

theorem Adjacent.seam (h : Adjacent text a ts) (ht : t ∈ ts.head?) :
    Seam text a t.span.start t.kind := by
  cases ts with
  | nil => cases ht
  | cons u ts =>
    obtain rfl := Option.some.inj ht
    exact h.left

-- A token does not begin with the end of a line.
theorem Token.Sound.head?_slice {pre post : List Char} (h : t.Sound (pre ++ post))
    (hkind : t.kind.isQuoted = false) (hlo : byteLength pre ≤ t.span.start)
    (hpost : post.head? = some '\n') :
    (slice (pre ++ post) ⟨byteLength pre, t.span.start⟩).head? = some '\n' := by
  have hsplit : slice (pre ++ post) ⟨byteLength pre, t.span.start⟩ ++
      dropBytes t.span.start (pre ++ post) = post := by
    rw [slice_append_dropBytes (s := ⟨byteLength pre, t.span.start⟩)
      ⟨hlo, isBoundary_append pre post, h.spelled.fits.start⟩, dropBytes_append]
  cases hgap : slice (pre ++ post) ⟨byteLength pre, t.span.start⟩ with
  | cons c gap =>
    rw [← hsplit, hgap] at hpost
    exact hpost
  | nil =>
    rw [hgap, List.nil_append] at hsplit
    obtain ⟨c, rest, htext, hc⟩ := (h.solid (Kind.isStringPart_of_isQuoted hkind)).first
    rw [← hsplit, ← slice_append_dropBytes h.spelled.fits, h.spelled.slice, htext] at hpost
    obtain rfl := Option.some.inj hpost
    exact absurd hc (by decide)

section Step

variable {pre : List Char} {step : LexStep} {found : Lexed}

-- The tokens behind a step, and what is added to them.
structure Continues (text pre : List Char) (step : LexStep) (found : Lexed) : Prop where
  sound : found.Sound text (byteLength (pre ++ step.text))
  adjacent : Adjacent text (byteLength (pre ++ step.text)) found.tokens
  quoted : inString step.frames = true → ∀ t ∈ found.tokens.head?, t.kind.isQuoted = true

variable (h : Continues (pre ++ cs) pre step found)

include h

theorem Continues.of_string {frame : Frame} (hframe : inString (frame :: frames) = true)
    (hstep : stepInString frame frames cs = some step) :
    let tokens := (found.add step.lexeme (String.ofList step.text)
      ⟨byteLength pre, byteLength (pre ++ step.text)⟩).tokens
    Adjacent (pre ++ cs) (byteLength pre) tokens ∧
      ∀ t ∈ tokens.head?, t.kind.isQuoted = true := by
  obtain ⟨kind, hlexeme, hkind, hframes⟩ | ⟨hlexeme, hframes⟩ := isQuoted_of_stepInString hstep
  case inl =>
    obtain ⟨hcomment, hkept⟩ := Kind.of_isQuoted hkind
    rw [hlexeme]
    refine ⟨⟨.inl hkind, ⟨hcomment, fun h => ?_⟩, fun hpart => ?_, h.adjacent⟩, fun t ht => ?_⟩
    · rw [hkept] at h
      cases h
    · exact h.quoted (hframes hpart ▸ hframe)
    · obtain rfl := Option.some.inj ht
      exact hkind
  case inr =>
    have hquoted := h.quoted (hframes ▸ hframe)
    rw [hlexeme]
    exact ⟨h.adjacent.widen fun t ht _ => .inl (hquoted t ht), hquoted⟩

theorem Continues.of_code (hstep : stepInCode frames cs = some step) :
    Adjacent (pre ++ cs) (byteLength pre) (found.add step.lexeme (String.ofList step.text)
      ⟨byteLength pre, byteLength (pre ++ step.text)⟩).tokens := by
  obtain ⟨hsplit, -⟩ := sound_stepInCode hstep
  obtain ⟨hsound, hadjacent, -⟩ := h
  -- The text up to the next token is what the step takes and what comes behind it.
  have happend : ∀ t ∈ found.tokens.head?, slice (pre ++ cs) ⟨byteLength pre, t.span.start⟩ =
      step.text ++ slice (pre ++ cs) ⟨byteLength (pre ++ step.text), t.span.start⟩ := by
    intro t ht
    have hmem := List.mem_of_mem_head? ht
    have hlo := (hsound.tokensInOrder.mem (List.mem_map_of_mem hmem)).left
    have hmid := slice_eq pre step.text step.rest
    have hboundary := isBoundary_append (pre ++ step.text) step.rest
    rw [List.append_assoc, hsplit] at hmid hboundary
    have hwhole := slice_append (by simp) hlo (isBoundary_append pre cs) hboundary
      (hsound.tokens t hmem).spelled.fits.start
    rw [hmid] at hwhole
    exact hwhole.symm
  cases finds_of_stepInCode hstep with
  | @gap w r hw =>
    refine hadjacent.widen fun t ht hseam => hseam.imp id fun hblank => ?_
    rw [happend t ht]
    exact hblank.append_gap hw
  | @comment kind w r hw hr =>
    refine hadjacent.widen fun t ht hseam => ?_
    cases hkind : t.kind.isQuoted with
    | true => exact .inl hkind
    | false =>
      refine .inr ?_
      rw [happend t ht]
      refine .comment (w := []) (by simp) hw (fun hline => ?_)
        (hseam.resolve_left (by simp [hkind]))
      -- Behind a comment up to the end of the line that end is left.
      have hmem := List.mem_of_mem_head? ht
      obtain ⟨hlo, hlt, hhi⟩ := hsound.tokensInOrder.mem (List.mem_map_of_mem hmem)
      have hsplit : w ++ r = cs := hsplit
      subst hsplit
      rw [← List.append_assoc] at hsound ⊢
      refine (hsound.tokens t hmem).head?_slice hkind hlo ?_
      cases r with
      | nil =>
        rw [List.append_nil] at hhi
        exact absurd (Nat.lt_of_le_of_lt hlo hlt) (Nat.not_lt.mpr hhi)
      | cons c r => rw [hr hline c rfl]; rfl
  | @token kind w r frames' hcomment hpart =>
    refine ⟨.inr ?_, ⟨hcomment, fun _ => ⟨frames, frames', ?_⟩⟩, fun h => ?_, hadjacent⟩
    · rw [slice_point]
      exact .gap (by simp)
    · have hsplit : w ++ r = cs := hsplit
      subst hsplit
      rw [dropBytes_append, hstep, ← List.append_assoc, slice_eq, dropBytes_append]
    · rw [hpart] at h
      cases h

end Step

-- The tokens that the lexer finds stand right behind each other, the first one behind the offset
-- from which it goes on.
theorem adjacent_lexFrom {n : Nat} {pre : List Char} {lexed : Lexed}
    (h : lexFrom n frames (byteLength pre) cs = some lexed) :
    Adjacent (pre ++ cs) (byteLength pre) lexed.tokens ∧
      (inString frames = true → ∀ t ∈ lexed.tokens.head?, t.kind.isQuoted = true) := by
  induction n generalizing frames pre cs lexed with
  | zero =>
    cases cs with
    | nil =>
      cases h
      exact ⟨trivial, fun _ t ht => by cases ht⟩
    | cons c cs => cases h
  | succ n ih =>
    cases cs with
    | nil =>
      cases h
      exact ⟨trivial, fun _ t ht => by cases ht⟩
    | cons c cs =>
      rw [lexFrom] at h
      split at h
      case h_1 => cases h
      case h_2 step hstep =>
        obtain ⟨hsplit, -⟩ := sound_lexStep? hstep
        obtain ⟨found, hfound, rfl⟩ := Option.map_eq_some_iff.mp h
        rw [← byteLength_append] at hfound ⊢
        have hsound := sound_lexFrom hfound
        obtain ⟨hadjacent, hquoted⟩ := ih hfound
        rw [List.append_assoc, hsplit] at hsound hadjacent
        have hcontinues : Continues (pre ++ c :: cs) pre step found := ⟨hsound, hadjacent, hquoted⟩
        rw [lexStep?.eq_def] at hstep
        split at hstep
        case h_1 => exact ⟨hcontinues.of_code hstep, fun h => by cases h⟩
        case h_2 => exact ⟨hcontinues.of_code hstep, fun h => by cases h⟩
        case h_3 frame frames hembedded =>
          have hframe : inString (frame :: frames) = true := by
            cases frame with
            | line => rfl
            | textBlock => rfl
            | embedded depth => exact absurd rfl (hembedded depth)
          obtain ⟨hadjacent', hquoted'⟩ := hcontinues.of_string hframe hstep
          exact ⟨hadjacent', fun _ => hquoted'⟩

-- The tokens of a text stand right behind each other, the first one behind the mark of the byte
-- order.
theorem exists_adjacent_of_lex? {lexed : Lexed} (h : lex? cs = some lexed) :
    ∃ lo, lexed.Sound cs lo ∧ Adjacent cs lo lexed.tokens := by
  cases cs with
  | nil =>
    cases h
    exact ⟨0, Lexed.sound_empty (Nat.le_refl 0), trivial⟩
  | cons c rest =>
    rw [lex?] at h
    split at h
    case isTrue =>
      have hstart : c.utf8Size = byteLength [c] := by simp
      rw [hstart] at h
      exact ⟨_, sound_lexFrom h, (adjacent_lexFrom h).left⟩
    case isFalse =>
      have hfrom : lexFrom (c :: rest).length [] (byteLength []) (c :: rest) = some lexed := h
      exact ⟨_, sound_lexFrom hfrom, (adjacent_lexFrom hfrom).left⟩

end Lexer

section Tree

namespace Node

/-- The kind of the first token of a tree. -/
def firstKind : Node → Kind
  | leaf kind _ _ _ => kind
  | branch kind _ _ [] => kind
  | branch _ _ _ (n :: _) => n.firstKind

@[simp] theorem firstKind_withRole (role : Role) (n : Node) :
    (n.withRole role).firstKind = n.firstKind := by
  cases n with
  | leaf => rfl
  | branch kind r span children => cases children <;> simp [withRole, firstKind]

-- The operands of the operators in a tree bind at least as tight as these do, and outside of
-- parentheses only operators of some levels occur.
inductive Binds : List (List String) → Node → Prop
  | operand {levels : List (List String)} {n : Node} (hkind : n.kind ≠ .binaryExpression) :
    Binds levels n
  | loosen {operators : List String} {tighter : List (List String)} {n : Node}
    (h : Binds tighter n) : Binds (operators :: tighter) n
  | binary {operators : List String} {tighter : List (List String)} {n sign : Node}
    {lefts rights : List Node} (hchildren : n.children = lefts ++ sign :: rights)
    (hlefts : lefts ≠ []) (hrights : rights ≠ []) (hmem : sign.word ∈ operators)
    (hleft : ∀ m ∈ lefts, Binds (operators :: tighter) m)
    (hright : ∀ m ∈ rights, Binds tighter m) : Binds (operators :: tighter) n

theorem Binds.of_suffix {levels tighter : List (List String)} (h : n.Binds tighter)
    (hsuffix : tighter <:+ levels) : n.Binds levels := by
  induction levels with
  | nil => rwa [List.suffix_nil.mp hsuffix] at h
  | cons operators levels ih =>
    obtain rfl | hsuffix := List.suffix_cons_iff.mp hsuffix
    · exact h
    · exact .loosen (ih hsuffix)

-- What there is to an operation.
theorem Binds.exists_operands {levels : List (List String)} (h : n.Binds levels)
    (hkind : n.kind = .binaryExpression) : ∃ operators tighter lefts sign rights,
      operators :: tighter <:+ levels ∧ n.children = lefts ++ sign :: rights ∧ lefts ≠ [] ∧
        rights ≠ [] ∧ sign.word ∈ operators ∧ (∀ m ∈ lefts, m.Binds (operators :: tighter)) ∧
          ∀ m ∈ rights, m.Binds tighter := by
  induction h with
  | operand hne => exact absurd hkind hne
  | loosen _ ih =>
    obtain ⟨operators, tighter, lefts, sign, rights, hsuffix, h⟩ := ih hkind
    exact ⟨operators, tighter, lefts, sign, rights, hsuffix.trans (List.suffix_cons _ _), h⟩
  | binary hchildren hlefts hrights hmem hleft hright =>
    exact ⟨_, _, _, _, _, List.suffix_refl _, hchildren, hlefts, hrights, hmem, hleft, hright⟩

theorem Binds.withRole {levels : List (List String)} (h : n.Binds levels) (role : Role) :
    (n.withRole role).Binds levels := by
  induction h with
  | operand hkind => exact .operand (by simpa using hkind)
  | loosen _ ih => exact .loosen ih
  | binary hchildren hlefts hrights hmem hleft hright =>
    exact .binary (by simpa using hchildren) hlefts hrights hmem hleft hright

-- A mark with what plays one part in front of it and what plays another behind it.
def Divided (first : Role) (between : Option Role) (second : Role) (ns : List Node) : Prop :=
  ∃ front sign back, ns = front ++ sign :: back ∧ sign.isMark = true ∧ sign.role = between ∧
    (∀ n ∈ front, n.role = some first ∨ n.isMark = true ∨ n.kind = .superWord) ∧
      ∀ n ∈ back, n.role = some second

-- The parts that the children of a construct play. No method begins with its body.
@[reducible] def Arranged (kind : Kind) (ns : List Node) : Prop :=
  match kind with
  | .assignmentExpression => Divided .left (some .operator) .right ns
  | .fieldAccess => Divided .object none .field ns
  | .methodDeclaration => ∀ n ∈ ns.head?, n.role ≠ some .body
  | _ => True

-- A tree of which no token is missing.
inductive Joined (text : List Char) : Node → Prop
  | leaf {kind : Kind} {role : Option Role} {span : Span} {word : String}
    (hcomment : kind.isComment = false) (hstands : kind.isKept = true → Stands text kind span) :
    Joined text (.leaf kind role span word)
  | branch {kind : Kind} {role : Option Role} {span : Span} {children : List Node}
    (hcomment : kind.isComment = false)
    (hbinds : (Node.branch kind role span children).Binds Grammar.operatorLevels)
    (harranged : Arranged kind children)
    (hseams : children.IsChain fun m n => Seam text m.span.stop n.span.start n.firstKind)
    (h : ∀ n ∈ children, Joined text n) : Joined text (.branch kind role span children)

theorem Joined.withRole (h : n.Joined text) (role : Role) : (n.withRole role).Joined text := by
  cases h with
  | leaf hcomment hstands => exact .leaf hcomment hstands
  | branch hcomment hbinds harranged hseams h =>
    exact .branch hcomment (hbinds.withRole role) harranged hseams h

end Node

-- Neighbouring nodes from one offset to another, with all that stands there.
inductive Joins (text : List Char) : Nat → Nat → List Node → Prop
  | nil (a : Nat) : Joins text a a []
  | cons {a hi : Nat} {n : Node} {ns : List Node} (hseam : Seam text a n.span.start n.firstKind)
    (h : n.Joined text) (hs : Joins text n.span.stop hi ns) : Joins text a hi (n :: ns)

namespace Joins

variable {mid : Nat} {ms : List Node}

theorem append (hns : Joins text lo mid ns) (hms : Joins text mid hi ms) :
    Joins text lo hi (ns ++ ms) := by
  induction hns with
  | nil => exact hms
  | cons hseam h _ ih => exact .cons hseam h (ih hms)

theorem withRole (h : Joins text lo hi ns) (role : Role) :
    Joins text lo hi (ns.map (·.withRole role)) := by
  induction h with
  | nil => exact .nil _
  | @cons a hi n ns hseam h _ ih =>
    exact .cons (by simpa using hseam) (h.withRole role) (by simpa using ih)

theorem seams (h : Joins text lo hi ns) :
    ns.IsChain fun m n => Seam text m.span.stop n.span.start n.firstKind := by
  induction h with
  | nil => exact .nil
  | @cons a hi n ns _ _ hs ih =>
    cases hs with
    | nil => exact .singleton n
    | cons hseam => exact .cons_cons hseam ih

theorem joined (h : Joins text lo hi ns) : ∀ n ∈ ns, n.Joined text := by
  induction h with
  | nil => nofun
  | cons _ h _ ih =>
    intro m hm
    obtain rfl | hm := List.mem_cons.mp hm
    · exact h
    · exact ih m hm

theorem stop (h : Joins text lo hi ns) (hn : ns.getLast? = some n) : n.span.stop = hi := by
  induction h with
  | nil => cases hn
  | @cons a hi k ns _ _ hs ih =>
    cases hs with
    | nil =>
      have heq : k = n := by simpa using hn
      rw [heq]
    | cons => exact ih (by simpa using hn)

-- The construct over neighbouring nodes.
theorem node {role : Option Role} {first last : Node} (h : Joins text lo hi ns)
    (hfirst : ns.head? = some first) (hlast : ns.getLast? = some last)
    (hcomment : kind.isComment = false)
    (hbinds : (Node.branch kind role ⟨first.span.start, last.span.stop⟩ ns).Binds
      Grammar.operatorLevels) (harranged : Node.Arranged kind ns) :
    Joins text lo hi [.branch kind role ⟨first.span.start, last.span.stop⟩ ns] := by
  have hnode := Node.Joined.branch hcomment hbinds harranged h.seams h.joined
  have hstop := h.stop hlast
  cases h with
  | nil => cases hfirst
  | cons hseam =>
    obtain rfl := Option.some.inj hfirst
    exact .cons hseam hnode (hstop ▸ .nil _)

end Joins

-- Neighbouring nodes between two offsets. Unless `parts` holds, none of them is a part of a string.
structure Run (text : List Char) (parts : Bool) (lo hi : Nat) (ns : List Node) : Prop where
  sound : ∀ n ∈ ns, n.Sound text
  inOrder : Span.InOrder lo hi (ns.map (·.span))
  whole : parts = false → ∀ n ∈ ns, n.kind.isStringPart = false
  joins : Joins text lo hi ns

namespace Run

variable {parts : Bool} {mid : Nat} {ms : List Node}

theorem nil (a : Nat) : Run text parts a a [] where
  sound := by simp
  inOrder := Nat.le_refl a
  whole := by simp
  joins := .nil a

theorem append (hns : Run text parts lo mid ns) (hms : Run text parts mid hi ms) :
    Run text parts lo hi (ns ++ ms) where
  sound n hn := (List.mem_append.mp hn).elim (hns.sound n) (hms.sound n)
  inOrder := by
    rw [List.map_append]
    exact hns.inOrder.append hms.inOrder
  whole h n hn := (List.mem_append.mp hn).elim (hns.whole h n) (hms.whole h n)
  joins := hns.joins.append hms.joins

theorem singleton (h : n.Sound text) (hlo : lo ≤ n.span.start)
    (hkind : parts = false → n.kind.isStringPart = false) (hjoins : Joins text lo hi [n]) :
    Run text parts lo hi [n] where
  sound := by simpa using h
  inOrder := ⟨hlo, h.nonempty, (hjoins.stop rfl).le⟩
  whole := by simpa using hkind
  joins := hjoins

theorem withRole (h : Run text parts lo hi ns) (role : Role) :
    Run text parts lo hi (ns.map (·.withRole role)) where
  sound := by
    intro n hn
    obtain ⟨m, hm, rfl⟩ := List.mem_map.mp hn
    exact (h.sound m hm).withRole role
  inOrder := by
    have hspans : (ns.map (·.withRole role)).map (·.span) = ns.map (·.span) := by simp
    rw [hspans]
    exact h.inOrder
  whole := by
    intro hparts n hn
    obtain ⟨m, hm, rfl⟩ := List.mem_map.mp hn
    simpa using h.whole hparts m hm
  joins := h.joins.withRole role

-- What two solid texts enclose is solid.
theorem solid_slice {a b : Span} (ha : a.FitsIn text) (hb : b.FitsIn text) (hab : a.stop ≤ b.start)
    (hsa : Solid (slice text a)) (hsb : Solid (slice text b)) :
    Solid (slice text ⟨a.start, b.stop⟩) := by
  have hgap := slice_append ha.ordered hab ha.start ha.stop hb.start
  have hall := slice_append (Nat.le_trans ha.ordered hab) hb.ordered ha.start hb.start hb.stop
  rw [← hall, ← hgap]
  exact hsa.append hsb

-- The construct over neighbouring nodes. Only the first and the last one have to be solid.
theorem node {kind : Kind} {role : Option Role} {first last : Node}
    (h : Run text parts lo hi ns) (hfirst : ns.head? = some first)
    (hlast : ns.getLast? = some last) (hfirstKind : first.kind.isStringPart = false)
    (hlastKind : last.kind.isStringPart = false) (hshape : Node.Shape kind ns)
    (hwhole : kind.isShaped = true → ∀ n ∈ ns, n.kind.isStringPart = false) :
    Node.Sound text (.branch kind role ⟨first.span.start, last.span.stop⟩ ns) := by
  have hmemFirst := List.mem_of_head? hfirst
  have hmemLast := List.mem_of_getLast? hlast
  have hsoundFirst := h.sound first hmemFirst
  have hsoundLast := h.sound last hmemLast
  have hsolidFirst := hsoundFirst.solid (.inl hfirstKind)
  have hsolidLast := hsoundLast.solid (.inl hlastKind)
  have hinOrder : Span.InOrder first.span.start last.span.stop (ns.map (·.span)) :=
    h.inOrder.shrink (by simp [hfirst]) (by simp [hlast])
  refine .branch ⟨hinOrder.le, hsoundFirst.fits.start, hsoundLast.fits.stop⟩ ?_ (by simp [hfirst])
    (by simp [hlast]) hinOrder hshape hwhole h.sound
  by_cases hsame : first = last
  case pos =>
    subst hsame
    exact hsolidFirst
  case neg =>
    have hpair : first.span.stop ≤ last.span.start := by
      cases ns with
      | nil => cases hfirst
      | cons n ns =>
        have heq : n = first := by simpa using hfirst
        subst heq
        have hmem : last ∈ ns := (List.mem_cons.mp hmemLast).resolve_left (Ne.symm hsame)
        exact (List.pairwise_cons.mp h.inOrder.pairwise).left _ (List.mem_map_of_mem hmem)
    exact solid_slice hsoundFirst.fits hsoundLast.fits hpair hsolidFirst hsolidLast

end Run

end Tree

end Java

end ClassSplit
