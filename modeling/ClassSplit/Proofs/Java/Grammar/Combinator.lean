import ClassSplit.Java.Grammar.Combinator
import ClassSplit.Proofs.Java.Joined
import Mathlib.Logic.Basic

/-!
Soundness of recognizers: where the tokens come out of a text, the nodes that a recognizer gives
stand in the text in order, in front of the tokens that it leaves. A recognizer that goes on from
nodes that have been recognized before is sound after these. Soundness, and that some recognizers
give certain nodes, are found by instance search along the combinators.
-/

namespace ClassSplit.Java

open Text

-- Tokens of a text from an offset on, with all that stands there.
structure Tokens (text : List Char) (lo : Nat) (ts : List Token) : Prop where
  sound : ∀ t ∈ ts, t.Sound text
  inOrder : Span.InOrder lo (byteLength text) (ts.map (·.span))
  adjacent : Adjacent text lo ts

theorem Tokens.of_cons {text : List Char} {lo : Nat} {t : Token} {ts : List Token}
    (h : Tokens text lo (t :: ts)) :
    t.Sound text ∧ lo ≤ t.span.start ∧ Tokens text t.span.stop ts :=
  ⟨h.sound t List.mem_cons_self, h.inOrder.left, fun s hs => h.sound s (List.mem_cons_of_mem _ hs),
    h.inOrder.right.right, h.adjacent.right.right.right⟩

-- Words that touch spell their concatenation.
theorem Spelled.append {text : List Char} {a b : Span} {first second : String}
    (ha : Spelled text a first) (hb : Spelled text b second) (htouch : b.start = a.stop) :
    Spelled text ⟨a.start, b.stop⟩ (first ++ second) where
  fits := ⟨Nat.le_trans ha.fits.ordered (htouch ▸ hb.fits.ordered), ha.fits.start, hb.fits.stop⟩
  slice := by
    have hb' : Text.slice text ⟨a.stop, b.stop⟩ = second.toList := by
      rw [← htouch]
      exact hb.slice
    rw [← slice_append ha.fits.ordered (htouch ▸ hb.fits.ordered) ha.fits.start ha.fits.stop
      hb.fits.stop, hb']
    have ha' : Text.slice text ⟨a.start, a.stop⟩ = first.toList := ha.slice
    rw [ha', String.toList_append]
  nonempty := by
    have := ha.nonempty
    have := hb.nonempty
    simp only
    omega

-- The kinds that the grammar gives to words and to constructs. Of the parts of an operation, an
-- assignment, a field access and a method more is known.
@[reducible] def Kind.isPlain : Kind → Bool
  | .token _ | .stringFragment | .multilineStringFragment | .escapeSequence
  | .lineComment | .blockComment | .decimalIntegerLiteral | .hexIntegerLiteral
  | .octalIntegerLiteral | .binaryIntegerLiteral | .binaryExpression | .assignmentExpression
  | .fieldAccess | .methodDeclaration => false
  | _ => true

-- The kinds of expressions that need no parentheses as operands.
@[reducible] def Kind.isTight : Kind → Bool
  | .token _ | .lineComment | .blockComment | .binaryExpression => false
  | _ => true

theorem Kind.isOperand_of_isTight {kind : Kind} (h : kind.isTight = true) :
    kind.isOperand = true := by
  cases kind
  all_goals first | rfl | cases h

theorem Kind.isStringPart_of_isPlain {kind : Kind} (h : kind.isPlain = true) :
    kind.isStringPart = false := by
  cases kind
  all_goals first | rfl | cases h

theorem Kind.ne_token_of_isPlain {kind : Kind} (h : kind.isPlain = true) (word : String) :
    kind ≠ .token word := by
  rintro rfl
  cases h

theorem Kind.isComment_of_isPlain {kind : Kind} (h : kind.isPlain = true) :
    kind.isComment = false := by
  cases kind
  all_goals first | rfl | cases h

theorem Kind.of_isPlain {kind : Kind} (h : kind.isPlain = true) :
    kind ≠ .binaryExpression ∧ ∀ ns, Node.Arranged kind ns := by
  cases kind
  all_goals first | exact ⟨by decide, fun _ => trivial⟩ | cases h

theorem Kind.isKept_of_isPlain {kind : Kind} (h : kind.isPlain = true) (hne : kind ≠ .identifier) :
    kind.isKept = false := by
  cases kind
  case identifier => exact absurd rfl hne
  all_goals first | rfl | cases h

namespace Grammar.Recognizer

class Sound (text : List Char) (parts : Bool) (pre : List Node) (p : Recognizer) : Prop where
  run : ∀ {lo start : Nat} {ts : List Token} {ns : List Node} {rest : List Token},
    Run text parts lo start pre → Tokens text start ts → p.run ts = some (ns, rest) →
      ∃ stop, Run text parts lo stop ns ∧ Tokens text stop rest

-- Gives at least one node.
class Productive (p : Recognizer) : Prop where
  ne_nil : ∀ {ts : List Token} {ns : List Node} {rest : List Token},
    p.run ts = some (ns, rest) → ns ≠ []

-- Gives a node with a property.
class Has (P : Node → Prop) (p : Recognizer) : Prop where
  exists_node : ∀ {ts : List Token} {ns : List Node} {rest : List Token},
    p.run ts = some (ns, rest) → ∃ n ∈ ns, P n

abbrev HasMark : Recognizer → Prop := Has fun n => n.isMark = true

abbrev HasRole (role : Role) : Recognizer → Prop := Has fun n => n.role = some role

-- Gives only nodes with a property.
class Gives (P : Node → Prop) (p : Recognizer) : Prop where
  gives : ∀ {ts : List Token} {ns : List Node} {rest : List Token},
    p.run ts = some (ns, rest) → ∀ n ∈ ns, P n

-- Gives only nodes whose kinds pass a test.
abbrev OfKinds (test : Kind → Bool) : Recognizer → Prop := Gives fun n => test n.kind = true

-- Gives nodes that can be the children of a construct of a kind.
class Shapes (kind : Kind) (p : Recognizer) : Prop where
  shape : ∀ {ts : List Token} {ns : List Node} {rest : List Token},
    p.run ts = some (ns, rest) → Node.Shape kind ns

variable {text : List Char} {parts : Bool} {pre : List Node} {p q : Recognizer}

theorem andThen_run {ts rest : List Token} {ns : List Node}
    (h : (p ++ q).run ts = some (ns, rest)) :
    ∃ xs mid ys, p.run ts = some (xs, mid) ∧ q.run mid = some (ys, rest) ∧ ns = xs ++ ys := by
  have h' : (andThen p q).run ts = some (ns, rest) := h
  simp only [andThen] at h'
  split at h'
  case h_1 => cases h'
  case h_2 xs mid hp =>
    split at h'
    case h_1 => cases h'
    case h_2 ys rest' hq =>
      cases h'
      exact ⟨xs, mid, ys, hp, hq, rfl⟩

theorem either_run {ts rest : List Token} {ns : List Node}
    (h : (p <|> q).run ts = some (ns, rest)) :
    p.run ts = some (ns, rest) ∨ q.run ts = some (ns, rest) := by
  have h' : (either p fun _ => q).run ts = some (ns, rest) := h
  simp only [either] at h'
  split at h'
  case h_1 found hp =>
    cases h'
    exact .inl hp
  case h_2 => exact .inr h'

theorem bind_run {f : List Node → Recognizer} {ts rest : List Token} {ns : List Node}
    (h : (bind p f).run ts = some (ns, rest)) :
    ∃ xs mid, p.run ts = some (xs, mid) ∧ (f xs).run mid = some (ns, rest) := by
  simp only [bind] at h
  split at h
  case h_1 => cases h
  case h_2 xs mid hp => exact ⟨xs, mid, hp, h⟩

theorem role_run {r : Role} {ts rest : List Token} {ns : List Node}
    (h : (role r p).run ts = some (ns, rest)) :
    ∃ xs, p.run ts = some (xs, rest) ∧ ns = xs.map (·.withRole r) := by
  obtain ⟨⟨xs, rest'⟩, hp, heq⟩ := Option.map_eq_some_iff.mp h
  cases heq
  exact ⟨xs, hp, rfl⟩

theorem node_run {kind : Kind} {ts rest : List Token} {ns : List Node}
    (h : (node kind p).run ts = some (ns, rest)) :
    ∃ xs first last, p.run ts = some (xs, rest) ∧ xs.head? = some first ∧
      xs.getLast? = some last ∧
      ns = [.branch kind none ⟨first.span.start, last.span.stop⟩ xs] := by
  simp only [node] at h
  split at h
  case h_1 => cases h
  case h_2 xs rest' hp =>
    split at h
    case h_1 first last hfirst hlast =>
      cases h
      exact ⟨xs, first, last, hp, hfirst, hlast, rfl⟩
    case h_2 => cases h

theorem leaf_run {test : Token → Bool} {kind : Token → Kind} {ts rest : List Token}
    {ns : List Node} (h : (leaf test kind).run ts = some (ns, rest)) :
    ∃ t, ts = t :: rest ∧ test t = true ∧ ns = [.leaf (kind t) none t.span t.text] := by
  cases ts with
  | nil => cases h
  | cons t ts =>
    simp only [leaf] at h
    split at h
    case isTrue htest =>
      cases h
      exact ⟨t, rfl, htest, rfl⟩
    case isFalse => cases h

-- What holds before a repetition and is kept by every turn of it, holds in the end.
theorem many_run {C : List Node → List Token → Prop} {ts rest : List Token} {ns : List Node}
    (hrun : (many p).run ts = some (ns, rest)) (hstart : C [] ts)
    (hstep : ∀ {xs mid ys mid'}, C xs mid → p.run mid = some (ys, mid') → C (xs ++ ys) mid') :
    C ns rest := by
  have hgo : ∀ (n : Nat) (mid : List Token) (xs ns : List Node), C xs mid →
      many.go p n mid = some (ns, rest) → C (xs ++ ns) rest := by
    intro n
    induction n with
    | zero =>
      intro mid xs ns hxs hrun
      cases hrun
      rwa [List.append_nil]
    | succ n ih =>
      intro mid xs ns hxs hrun
      rw [many.go] at hrun
      split at hrun
      case h_1 =>
        cases hrun
        rwa [List.append_nil]
      case h_2 ys mid' hys =>
        split at hrun
        case isTrue =>
          obtain ⟨⟨zs, rest'⟩, hzs, heq⟩ := Option.map_eq_some_iff.mp hrun
          cases heq
          rw [← List.append_assoc]
          exact ih mid' (xs ++ ys) zs (hstep hxs hys) hzs
        case isFalse =>
          cases hrun
          rwa [List.append_nil]
  exact hgo ts.length ts [] ns hstart hrun

-- What holds of what a recognizer gives and is kept by every step, holds in the end.
theorem extend_run {step : List Node → Recognizer} {C : List Node → List Token → Prop}
    {ts rest : List Token} {ns : List Node} (hrun : (extend p step).run ts = some (ns, rest))
    (hstart : ∀ {xs mid}, p.run ts = some (xs, mid) → C xs mid)
    (hstep : ∀ {xs mid ys mid'}, C xs mid → (step xs).run mid = some (ys, mid') → C ys mid') :
    C ns rest := by
  have hgo : ∀ (n : Nat) (mid : List Token) (xs : List Node), C xs mid →
      extend.go step n xs mid = some (ns, rest) → C ns rest := by
    intro n
    induction n with
    | zero =>
      intro mid xs hxs hrun
      cases hrun
      exact hxs
    | succ n ih =>
      intro mid xs hxs hrun
      rw [extend.go] at hrun
      split at hrun
      case h_1 =>
        cases hrun
        exact hxs
      case h_2 ys mid' hys =>
        split at hrun
        case isTrue => exact ih mid' ys (hstep hxs hys) hrun
        case isFalse =>
          cases hrun
          exact hxs
  simp only [extend] at hrun
  split at hrun
  case h_1 => cases hrun
  case h_2 xs mid hxs => exact hgo mid.length mid xs (hstart hxs) hrun

section Sound

-- A recognizer that takes nothing and gives nothing.
theorem sound_of_run_nil
    (h : ∀ {ts ns rest}, p.run ts = some (ns, rest) → ns = [] ∧ rest = ts) :
    Sound text parts [] p where
  run hpre hts hrun := by
    obtain ⟨rfl, rfl⟩ := h hrun
    exact ⟨_, hpre, hts⟩

instance : Sound text parts [] done :=
  sound_of_run_nil fun h => by cases h; exact ⟨rfl, rfl⟩

instance : Sound text parts pre fail where
  run _ _ hrun := by cases hrun

instance : Sound text parts pre (given pre) where
  run hpre hts hrun := by
    cases hrun
    exact ⟨_, hpre, hts⟩

instance [hp : Sound text parts pre p] [hq : Sound text parts [] q] :
    Sound text parts pre (p ++ q) where
  run hpre hts hrun := by
    obtain ⟨xs, mid, ys, hxs, hys, rfl⟩ := andThen_run hrun
    obtain ⟨stop, hrunX, htsX⟩ := hp.run hpre hts hxs
    obtain ⟨stop', hrunY, htsY⟩ := hq.run (.nil stop) htsX hys
    exact ⟨stop', hrunX.append hrunY, htsY⟩

instance [hp : Sound text parts pre p] [hq : Sound text parts pre q] :
    Sound text parts pre (p <|> q) where
  run hpre hts hrun := by
    cases either_run hrun with
    | inl h => exact hp.run hpre hts h
    | inr h => exact hq.run hpre hts h

instance {f : List Node → Recognizer} [hp : Sound text parts pre p]
    [hf : ∀ ns, Sound text parts ns (f ns)] : Sound text parts pre (bind p f) where
  run hpre hts hrun := by
    obtain ⟨xs, mid, hxs, hns⟩ := bind_run hrun
    obtain ⟨stop, hrunX, htsX⟩ := hp.run hpre hts hxs
    exact (hf xs).run hrunX htsX hns

instance {r : Role} [hp : Sound text parts pre p] : Sound text parts pre (role r p) where
  run hpre hts hrun := by
    obtain ⟨xs, hxs, rfl⟩ := role_run hrun
    obtain ⟨stop, hrunX, htsX⟩ := hp.run hpre hts hxs
    exact ⟨stop, hrunX.withRole r, htsX⟩

theorem sound_node {kind : Kind} [hp : Sound text false pre p] [hshape : Shapes kind p]
    (hpart : kind.isStringPart = false) (hcomment : kind.isComment = false)
    (hbinds : ∀ {ts ns rest}, p.run ts = some (ns, rest) →
      ∀ span, (Node.branch kind none span ns).Binds operatorLevels)
    (harranged : ∀ {ts ns rest}, p.run ts = some (ns, rest) → Node.Arranged kind ns) :
    Sound text false pre (node kind p) where
  run hpre hts hrun := by
    obtain ⟨xs, first, last, hxs, hfirst, hlast, rfl⟩ := node_run hrun
    obtain ⟨stop, hrunX, htsX⟩ := hp.run hpre hts hxs
    have hnode : Node.Sound text (.branch kind none ⟨first.span.start, last.span.stop⟩ xs) :=
      hrunX.node hfirst hlast (hrunX.whole rfl _ (List.mem_of_head? hfirst))
        (hrunX.whole rfl _ (List.mem_of_getLast? hlast)) (hshape.shape hxs)
        fun _ => hrunX.whole rfl
    have hlo := hrunX.inOrder.mem (List.mem_map_of_mem (List.mem_of_head? hfirst))
    exact ⟨stop, .singleton hnode hlo.left (fun _ => hpart)
      (hrunX.joins.node hfirst hlast hcomment (hbinds hxs _) (harranged hxs)), htsX⟩

instance {kind : Kind} [Sound text false pre p] [Shapes kind p]
    [hkind : Fact (kind.isPlain = true)] : Sound text false pre (node kind p) := by
  obtain ⟨hne, harranged⟩ := Kind.of_isPlain hkind.out
  exact sound_node (Kind.isStringPart_of_isPlain hkind.out) (Kind.isComment_of_isPlain hkind.out)
    (fun _ span => .operand hne) fun {ts ns rest} _ => harranged ns

-- A construct may stand between the parts of a string.
instance {kind : Kind} [hnode : Sound text false [] (node kind p)] :
    Sound text true [] (node kind p) where
  run hpre hts hrun := by
    obtain ⟨stop, hrunX, htsX⟩ := hnode.run ⟨hpre.sound, hpre.inOrder, nofun, hpre.joins⟩ hts hrun
    exact ⟨stop, ⟨hrunX.sound, hrunX.inOrder, nofun, hrunX.joins⟩, htsX⟩

instance {c : Prop} [Decidable c] [hp : Sound text parts pre p] [hq : Sound text parts pre q] :
    Sound text parts pre (if c then p else q) := by
  split
  case isTrue => exact hp
  case isFalse => exact hq

instance [hp : Sound text parts [] p] : Sound text parts [] (many p) where
  run {lo start _ _ _} hpre hts hrun := by
    refine many_run (C := fun ns rest => ∃ stop, Run text parts lo stop ns ∧ Tokens text stop rest)
      hrun ⟨start, hpre, hts⟩ ?_
    rintro xs mid ys mid' ⟨stop, hrunX, htsX⟩ hys
    obtain ⟨stop', hrunY, htsY⟩ := hp.run (.nil stop) htsX hys
    exact ⟨stop', hrunX.append hrunY, htsY⟩

instance {step : List Node → Recognizer} [hp : Sound text parts pre p]
    [hstep : ∀ ns, Sound text parts ns (step ns)] : Sound text parts pre (extend p step) where
  run {lo _ _ _ _} hpre hts hrun := by
    refine extend_run (C := fun ns rest => ∃ stop, Run text parts lo stop ns ∧ Tokens text stop rest)
      hrun (hp.run hpre hts) ?_
    rintro xs mid ys mid' ⟨stop, hrunX, htsX⟩ hys
    exact (hstep xs).run hrunX htsX hys

theorem notAhead_run {ts rest : List Token} {ns : List Node}
    (h : (notAhead p).run ts = some (ns, rest)) : ns = [] ∧ rest = ts := by
  simp only [notAhead] at h
  split at h
  case h_1 => cases h; exact ⟨rfl, rfl⟩
  case h_2 => cases h

instance : Sound text parts [] (ahead p) := by
  refine sound_of_run_nil ?_
  intro ts ns rest h
  obtain ⟨-, -, heq⟩ := Option.map_eq_some_iff.mp h
  cases heq
  exact ⟨rfl, rfl⟩

instance : Sound text parts [] (notAhead p) := sound_of_run_nil notAhead_run

-- A test does not come between a recognizer and the nodes that it goes on from.
instance [hq : Sound text parts pre q] : Sound text parts pre (notAhead p ++ q) where
  run hpre hts hrun := by
    obtain ⟨xs, mid, ys, hxs, hys, rfl⟩ := andThen_run hrun
    obtain ⟨rfl, rfl⟩ := notAhead_run hxs
    exact hq.run hpre hts hys

instance {test : List Node → Bool} [Sound text parts pre p] :
    Sound text parts pre (suchThat p test) :=
  inferInstanceAs
    (Sound text parts pre (bind p fun ns => if test ns then given ns else fail))

instance [Sound text parts [] p] : Sound text parts [] (optional p) := by
  unfold Recognizer.optional; infer_instance

instance [Sound text parts [] p] : Sound text parts [] (many1 p) := by
  unfold many1; infer_instance

instance [Sound text parts [] p] [Sound text parts [] q] :
    Sound text parts [] (separated1 p q) := by
  unfold separated1; infer_instance

end Sound

section Leaf

variable {kind : Kind} {word : String} {words : List String}

-- A token keeps its kind, or a word gets the kind that it has in this place.
theorem sound_leaf {test : Token → Bool} {kind : Token → Kind}
    (hparts : ∀ t, test t = true → parts = false → (kind t).isStringPart = false)
    (hmark : ∀ t : Token, test t = true → (∀ word, t.kind = .token word → t.text = word) →
      ∀ word, kind t = .token word → t.text = word)
    (hatomic : ∀ t, test t = true → (kind t).isConstruct = false)
    (hkind : ∀ t : Token, t.Sound text → test t = true → kind t = t.kind ∨
      t.kind.isQuoted = false ∧ (kind t).isKept = false ∧ (kind t).isComment = false) :
    Sound text parts [] (leaf test kind) where
  run hpre hts hrun := by
    obtain ⟨t, rfl, htest, rfl⟩ := leaf_run hrun
    obtain ⟨ht, hlo, hrest⟩ := hts.of_cons
    obtain ⟨hseam, hplaced, -⟩ := hts.adjacent
    have hsolid : (kind t).isStringPart = false → t.kind.isStringPart = false := by
      intro hpart
      obtain heq | ⟨hquoted, -⟩ := hkind t ht htest
      · rwa [heq] at hpart
      · exact Kind.isStringPart_of_isQuoted hquoted
    have hidentifier : kind t = .identifier → t.kind = .identifier := by
      intro heq
      obtain heq' | ⟨-, hkept, -⟩ := hkind t ht htest
      · rw [← heq', heq]
      · rw [heq] at hkept
        cases hkept
    have hleaf : Node.Sound text (.leaf (kind t) none t.span t.text) :=
      .leaf ht.spelled (fun hpart => ht.solid (hsolid hpart)) (hmark t htest ht.mark)
        (hatomic t htest) (fun heq => ht.identifier (hidentifier heq))
    refine ⟨t.span.stop, .singleton hleaf (Nat.le_trans hpre.inOrder hlo) (hparts t htest) ?_, hrest⟩
    cases hpre.joins
    obtain heq | ⟨hquoted, hkept, hcomment⟩ := hkind t ht htest
    · refine .cons ?_ (.leaf ?_ ?_) (.nil _)
      · rwa [Node.firstKind, heq]
      · rw [heq, hplaced.isComment]
      · rw [heq]
        exact hplaced.stands
    · refine .cons (.inr (hseam.resolve_left ?_)) (.leaf hcomment ?_) (.nil _)
      · simp [hquoted]
      · simp [hkept]

theorem sound_mark_of {test : Token → Bool}
    (htest : ∀ t, test t = true → t.kind.isStringPart = false ∧ t.kind.isConstruct = false) :
    Sound text parts [] (leaf test (·.kind)) :=
  sound_leaf (fun t ht _ => (htest t ht).left) (fun _ _ h => h) (fun t ht => (htest t ht).right)
    fun _ _ _ => .inl rfl

instance : Sound text parts [] (mark word) := by
  refine sound_mark_of ?_
  intro t ht
  rw [of_decide_eq_true ht]
  exact ⟨rfl, rfl⟩

-- A word under a kind of its own.
theorem sound_word {b : Token → Bool} {kind : Token → Kind}
    (hkind : ∀ t, (∃ word, kind t = .token word) ∨ (kind t).isPlain = true)
    (hatomic : ∀ t, (kind t).isConstruct = false)
    (hmark : ∀ t, b t = true → ∀ word, kind t = .token word → t.text = word) :
    Sound text parts [] (leaf (fun t => decide (t.kind = .identifier) && b t) kind) := by
  have hword {t : Token} (ht : (decide (t.kind = .identifier) && b t) = true) :
      t.kind = .identifier ∧ b t = true := by simpa using ht
  refine sound_leaf (fun t _ _ => ?_) (fun t ht _ => hmark t (hword ht).right)
    (fun t _ => hatomic t) fun t ht htest => ?_
  · obtain ⟨word, heq⟩ | hplain := hkind t
    · rw [heq]
    · exact Kind.isStringPart_of_isPlain hplain
  · obtain ⟨hidentifier, hb⟩ := hword htest
    have hquoted : t.kind.isQuoted = false := by
      rw [hidentifier]
      rfl
    obtain ⟨word, heq⟩ | hplain := hkind t
    · refine .inr ⟨hquoted, ?_, by rw [heq]; rfl⟩
      -- A slash is no word.
      have hne : word ≠ "/" := by
        rintro rfl
        have hpart := ht.identifier hidentifier '/' (by rw [hmark t hb _ heq]; decide)
        exact absurd hpart (by decide +kernel)
      rw [heq]
      simp [Kind.isKept, isIntegerLiteralKind, hne]
    · by_cases heq : kind t = .identifier
      case pos => exact .inl (heq.trans hidentifier.symm)
      case neg =>
        exact .inr ⟨hquoted, Kind.isKept_of_isPlain hplain heq, Kind.isComment_of_isPlain hplain⟩

instance : Sound text parts [] (keyword word) := by
  refine sound_word (fun _ => .inl ⟨_, rfl⟩) (fun _ => rfl) ?_
  intro t ht mark hmark
  rw [← Kind.token.inj hmark]
  exact beq_iff_eq.mp ht

instance : Sound text parts [] (oneOfKeywords words) :=
  sound_word (fun _ => .inl ⟨_, rfl⟩) (fun _ => rfl) fun _ _ _ => Kind.token.inj

instance [hkind : Fact (kind.isPlain = true)] [hatomic : Fact (kind.isConstruct = false)] :
    Sound text parts [] (keywordAs kind word) := by
  refine sound_word (fun _ => .inr hkind.out) (fun _ => hatomic.out) ?_
  intro t _ mark hmark
  exact absurd hmark (Kind.ne_token_of_isPlain hkind.out mark)

instance [hkind : Fact (kind.isPlain = true)] [hatomic : Fact (kind.isConstruct = false)] :
    Sound text parts [] (wordAs kind words) := by
  refine sound_word (fun _ => .inr hkind.out) (fun _ => hatomic.out) ?_
  intro t _ mark hmark
  exact absurd hmark (Kind.ne_token_of_isPlain hkind.out mark)

instance : Sound text parts [] (identifier words) := by
  have : Fact (Kind.identifier.isPlain = true) := ⟨rfl⟩
  have : Fact (Kind.identifier.isConstruct = false) := ⟨rfl⟩
  unfold identifier; infer_instance

-- Any token, which may be a part of a string.
instance [hatomic : Fact (kind.isConstruct = false)] : Sound text true [] (ofKind kind) :=
  sound_leaf (fun _ _ h => by cases h) (fun _ _ h => h)
    (fun t ht => by rw [of_decide_eq_true ht, hatomic.out]) fun _ _ _ => .inl rfl

instance [Sound text parts [] p] : Sound text parts [] (commaSeparated1 p) := by
  unfold commaSeparated1; infer_instance

instance [Sound text parts [] p] : Sound text parts [] (commaSeparated p) := by
  unfold commaSeparated; infer_instance

end Leaf

-- Adjacent tokens that spell an operator are one solid word.
theorem sound_glued {spelling : List Char} {lo : Nat} {ts rest : List Token} {span : Span}
    (hts : Tokens text lo ts) (h : operator.glued spelling ts = some (span, rest)) :
    Spelled text span (String.ofList spelling) ∧ Solid spelling ∧ lo ≤ span.start ∧
      Tokens text span.stop rest := by
  induction ts generalizing spelling lo span with
  | nil => cases h
  | cons t ts ih =>
    obtain ⟨ht, hlo, hrest⟩ := hts.of_cons
    rw [operator.glued] at h
    split at h
    case h_1 word hword =>
      have htext : t.text = word := ht.mark word hword
      have hsolid : Solid word.toList := htext ▸ ht.solid (by rw [hword])
      split at h
      case isTrue heq =>
        cases h
        subst heq
        rw [String.ofList_toList]
        exact ⟨htext ▸ ht.spelled, hsolid, hlo, hrest⟩
      case isFalse =>
        split at h
        case isTrue hsign =>
          split at h
          case h_1 tail rest' htail =>
            split at h
            case isTrue htouch =>
              cases h
              obtain ⟨hspelled, hsolidTail, -, hrest'⟩ := ih hrest htail
              obtain ⟨hgreater, hhead⟩ := hsign
              have hsplit : spelling = '>' :: spelling.tail := by
                cases spelling with
                | nil => cases hhead
                | cons c cs => rw [Option.some.inj hhead]; rfl
              have hword' : String.ofList spelling = ">" ++ String.ofList spelling.tail := by
                rw [hsplit]
                simp
              have hfirst : Spelled text t.span ">" := hgreater ▸ htext ▸ ht.spelled
              refine ⟨hword' ▸ hfirst.append hspelled htouch, ?_, hlo, hrest'⟩
              have hall : Solid (">".toList ++ [] ++ spelling.tail) :=
                (hgreater ▸ hsolid).append hsolidTail
              rw [hsplit]
              simpa using hall
            case isFalse => cases h
          case h_2 => cases h
        case isFalse => cases h
    case h_2 => cases h

-- An operator is one token, or several of which the first one is a greater-than sign.
theorem joins_glued {word : String} {lo : Nat} {ts rest : List Token} {span : Span}
    (hts : Adjacent text lo ts) (h : operator.glued word.toList ts = some (span, rest)) :
    Joins text lo span.stop [.leaf (.token word) none span word] := by
  cases ts with
  | nil => cases h
  | cons t ts =>
    obtain ⟨hseam, hplaced, -⟩ := hts
    rw [operator.glued] at h
    split at h
    case h_1 mark hmark =>
      split at h
      case isTrue heq =>
        cases h
        obtain rfl := String.toList_inj.mp heq
        rw [← hmark]
        exact .cons hseam (.leaf hplaced.isComment hplaced.stands) (.nil _)
      case isFalse =>
        split at h
        case isTrue hsign =>
          obtain ⟨rfl, hhead⟩ := hsign
          have hkept : (Kind.token word).isKept = false := by
            have hne : word ≠ "/" := by
              rintro rfl
              cases hhead
            simp [Kind.isKept, isIntegerLiteralKind, hne]
          split at h
          case h_1 =>
            split at h
            case isTrue =>
              cases h
              refine .cons (.inr (hseam.resolve_left ?_)) (.leaf rfl ?_) (.nil _)
              · rw [hmark]
                decide
              · simp [hkept]
            case isFalse => cases h
          case h_2 => cases h
        case isFalse => cases h
    case h_2 => cases h

theorem operator_run {words : List String} {ts rest : List Token} {ns : List Node}
    (h : (operator words).run ts = some (ns, rest)) :
    ∃ word span, word ∈ words ∧ operator.glued word.toList ts = some (span, rest) ∧
      ns = [.leaf (.token word) none span word] := by
  obtain ⟨word, hword, hfound⟩ := List.exists_of_findSome?_eq_some h
  obtain ⟨⟨span, rest'⟩, hglued, heq⟩ := Option.map_eq_some_iff.mp hfound
  cases heq
  exact ⟨word, span, hword, hglued, rfl⟩

instance {words : List String} : Sound text parts [] (operator words) where
  run hpre hts hrun := by
    obtain ⟨word, span, -, hglued, rfl⟩ := operator_run hrun
    obtain ⟨hspelled, hsolid, hlo, hrest⟩ := sound_glued hts hglued
    rw [String.ofList_toList] at hspelled
    have hleaf : Node.Sound text (.leaf (.token word) none span word) :=
      .leaf hspelled (fun _ => hsolid) (fun _ => Kind.token.inj) rfl nofun
    refine ⟨span.stop, .singleton hleaf (Nat.le_trans hpre.inOrder hlo) (fun _ => rfl) ?_, hrest⟩
    cases hpre.joins
    exact joins_glued hts.adjacent hglued

section Nodes

variable {kind : Kind} {r : Role} {word : String} {words : List String} {ns : List Node}

instance [h : Fact (kind.isShaped = false)] : Shapes kind p where
  shape _ := Node.shape_of_not_isShaped h.out _

instance {test : Token → Bool} {kind : Token → Kind} : Productive (leaf test kind) where
  ne_nil h := by
    obtain ⟨t, -, -, rfl⟩ := leaf_run h
    simp

instance : Productive (mark word) := by unfold mark; infer_instance
instance : Productive (keyword word) := by unfold keyword; infer_instance
instance : Productive (keywordAs kind word) := by unfold keywordAs; infer_instance
instance : Productive (wordAs kind words) := by unfold wordAs; infer_instance
instance : Productive (identifier words) := by unfold identifier; infer_instance

instance : Productive (operator words) where
  ne_nil h := by
    obtain ⟨word, span, -, -, rfl⟩ := operator_run h
    simp

instance : Productive (node kind p) where
  ne_nil h := by
    obtain ⟨xs, first, last, -, -, -, rfl⟩ := node_run h
    simp

instance [hp : Productive p] : Productive (role r p) where
  ne_nil h := by
    obtain ⟨xs, hxs, rfl⟩ := role_run h
    simpa using hp.ne_nil hxs

instance : Productive fail where
  ne_nil h := by cases h

instance [h : Fact (ns ≠ [])] : Productive (given ns) where
  ne_nil hrun := by
    cases hrun
    exact h.out

instance [hp : Productive p] [hq : Productive q] : Productive (p <|> q) where
  ne_nil h := by
    cases either_run h with
    | inl h => exact hp.ne_nil h
    | inr h => exact hq.ne_nil h

instance {c : Prop} [Decidable c] [hp : Productive p] [hq : Productive q] :
    Productive (if c then p else q) := by
  split
  case isTrue => exact hp
  case isFalse => exact hq

-- No instance, because the search does not keep the assumption on the nodes.
theorem productive_bind {f : List Node → Recognizer} [hp : Productive p]
    (hf : ∀ ns, [Fact (ns ≠ [])] → Productive (f ns)) : Productive (bind p f) where
  ne_nil h := by
    obtain ⟨xs, mid, hxs, hns⟩ := bind_run h
    have : Fact (xs ≠ []) := ⟨hp.ne_nil hxs⟩
    exact (hf xs).ne_nil hns

instance {step : List Node → Recognizer} [hp : Productive p] [hstep : ∀ ns, Productive (step ns)] :
    Productive (extend p step) where
  ne_nil h := extend_run h hp.ne_nil fun _ hys => (hstep _).ne_nil hys

section Has

variable {P : Node → Prop}

instance : HasMark (mark word) where
  exists_node h := by
    obtain ⟨t, -, htest, rfl⟩ := leaf_run h
    have hkind : t.kind = .token word := of_decide_eq_true htest
    simp [hkind, Node.isMark]

instance : HasMark (operator words) where
  exists_node h := by
    obtain ⟨word, span, -, -, rfl⟩ := operator_run h
    simp [Node.isMark]

instance [hp : Has P p] [hq : Has P q] : Has P (p <|> q) where
  exists_node h := by
    cases either_run h with
    | inl h => exact hp.exists_node h
    | inr h => exact hq.exists_node h

instance [hp : HasMark p] : HasMark (role r p) where
  exists_node h := by
    obtain ⟨xs, hxs, rfl⟩ := role_run h
    obtain ⟨n, hn, hmark⟩ := hp.exists_node hxs
    exact ⟨n.withRole r, List.mem_map_of_mem hn, by simpa using hmark⟩

instance [hp : Has P p] : Has P (p ++ q) where
  exists_node h := by
    obtain ⟨xs, mid, ys, hxs, hys, rfl⟩ := andThen_run h
    obtain ⟨n, hn, hmark⟩ := hp.exists_node hxs
    exact ⟨n, List.mem_append_left _ hn, hmark⟩

instance [hq : Has P q] : Has P (p ++ q) where
  exists_node h := by
    obtain ⟨xs, mid, ys, hxs, hys, rfl⟩ := andThen_run h
    obtain ⟨n, hn, hmark⟩ := hq.exists_node hys
    exact ⟨n, List.mem_append_right _ hn, hmark⟩

instance [hp : Productive p] : HasRole r (role r p) where
  exists_node h := by
    obtain ⟨xs, hxs, rfl⟩ := role_run h
    obtain ⟨n, hn⟩ := List.exists_mem_of_ne_nil _ (hp.ne_nil hxs)
    exact ⟨n.withRole r, List.mem_map_of_mem hn, by simp⟩

instance : Has (fun n => n.kind = kind) (node kind p) where
  exists_node h := by
    obtain ⟨xs, first, last, -, -, -, rfl⟩ := node_run h
    exact ⟨_, List.mem_singleton_self _, rfl⟩

end Has

section Gives

variable {P : Node → Prop}

instance : Gives P done where
  gives h n hn := by
    cases h
    cases hn

instance : Gives P fail where
  gives h := by cases h

instance [h : Fact (∀ n ∈ ns, P n)] : Gives P (given ns) where
  gives hrun n hn := by
    cases hrun
    exact h.out n hn

instance {test : Kind → Bool} [h : Fact (test (.token word) = true)] :
    OfKinds test (mark word) where
  gives hrun n hn := by
    obtain ⟨t, -, ht, rfl⟩ := leaf_run hrun
    have hkind : t.kind = .token word := of_decide_eq_true ht
    rw [List.mem_singleton.mp hn]
    exact hkind ▸ h.out

instance {test : Kind → Bool} [h : Fact (test kind = true)] : OfKinds test (node kind p) where
  gives hrun n hn := by
    obtain ⟨xs, first, last, -, -, -, rfl⟩ := node_run hrun
    rw [List.mem_singleton.mp hn]
    exact h.out

instance [hp : OfKinds Kind.isTight p] : OfKinds Kind.isOperand p where
  gives h n hn := Kind.isOperand_of_isTight (hp.gives h n hn)

-- A token under a kind that is given.
theorem ofKinds_leaf {test : Kind → Bool} {accepts : Token → Bool} (h : test kind = true) :
    OfKinds test (leaf accepts fun _ => kind) where
  gives hrun n hn := by
    obtain ⟨t, -, -, rfl⟩ := leaf_run hrun
    rw [List.mem_singleton.mp hn]
    exact h

instance {test : Kind → Bool} [h : Fact (test kind = true)] :
    OfKinds test (keywordAs kind word) := ofKinds_leaf h.out

instance {test : Kind → Bool} [h : Fact (test kind = true)] :
    OfKinds test (wordAs kind words) := ofKinds_leaf h.out

instance {test : Kind → Bool} [hp : OfKinds test p] : OfKinds test (role r p) where
  gives h n hn := by
    obtain ⟨xs, hxs, rfl⟩ := role_run h
    obtain ⟨m, hm, rfl⟩ := List.mem_map.mp hn
    rw [Node.kind_withRole]
    exact hp.gives hxs m hm

instance [hp : Gives P p] [hq : Gives P q] : Gives P (p ++ q) where
  gives h n hn := by
    obtain ⟨xs, mid, ys, hxs, hys, rfl⟩ := andThen_run h
    cases List.mem_append.mp hn with
    | inl hn => exact hp.gives hxs n hn
    | inr hn => exact hq.gives hys n hn

instance [hp : Gives P p] [hq : Gives P q] : Gives P (p <|> q) where
  gives h n hn := by
    cases either_run h with
    | inl h => exact hp.gives h n hn
    | inr h => exact hq.gives h n hn

instance {c : Prop} [Decidable c] [hp : Gives P p] [hq : Gives P q] :
    Gives P (if c then p else q) := by
  split
  case isTrue => exact hp
  case isFalse => exact hq

instance [Gives P p] : Gives P (optional p) := by
  unfold Recognizer.optional; infer_instance

instance [hp : Gives P p] : Gives P (many p) where
  gives h := by
    refine many_run (C := fun ns _ => ∀ n ∈ ns, P n) h (by simp) ?_
    intro xs mid ys mid' hxs hys n hn
    exact (List.mem_append.mp hn).elim (hxs n) (hp.gives hys n)

instance [Gives P p] [Gives P (mark ",")] : Gives P (commaSeparated p) := by
  unfold commaSeparated commaSeparated1 separated1; infer_instance

-- No instance, because the search does not keep the assumption on the nodes.
theorem gives_bind {f : List Node → Recognizer} [hp : Gives P p]
    (hf : ∀ ns, [Fact (∀ n ∈ ns, P n)] → Gives P (f ns)) : Gives P (bind p f) where
  gives h := by
    obtain ⟨xs, mid, hxs, hns⟩ := bind_run h
    have : Fact (∀ n ∈ xs, P n) := ⟨hp.gives hxs⟩
    exact (hf xs).gives hns

instance {f : List Node → Recognizer} [hf : ∀ ns, Gives P (f ns)] : Gives P (bind p f) where
  gives h := by
    obtain ⟨xs, mid, -, hns⟩ := bind_run h
    exact (hf xs).gives hns

instance {step : List Node → Recognizer} [hp : Gives P p] [hstep : ∀ ns, Gives P (step ns)] :
    Gives P (extend p step) where
  gives h := extend_run h hp.gives fun _ hys => (hstep _).gives hys

-- No instances, because the search does not keep the assumptions on the nodes.
theorem gives_extend {step : List Node → Recognizer} [hproductive : Productive p]
    [hgives : Gives P p] [hproductiveStep : ∀ ns, Productive (step ns)]
    (hgivesStep : ∀ ns, [Fact (ns ≠ [])] → [Fact (∀ n ∈ ns, P n)] → Gives P (step ns)) :
    Gives P (extend p step) where
  gives h := by
    refine (extend_run (C := fun ns _ => ns ≠ [] ∧ ∀ n ∈ ns, P n) h ?_ ?_).right
    · exact fun hxs => ⟨hproductive.ne_nil hxs, hgives.gives hxs⟩
    · rintro xs mid ys mid' ⟨hne, hall⟩ hys
      have : Fact (xs ≠ []) := ⟨hne⟩
      have : Fact (∀ n ∈ xs, P n) := ⟨hall⟩
      exact ⟨(hproductiveStep xs).ne_nil hys, (hgivesStep xs).gives hys⟩

theorem sound_extend {text : List Char} {parts : Bool} {pre : List Node}
    {step : List Node → Recognizer} [hp : Sound text parts pre p] [hproductive : Productive p]
    [hgives : Gives P p] [hproductiveStep : ∀ ns, Productive (step ns)]
    (hgivesStep : ∀ ns, [Fact (ns ≠ [])] → [Fact (∀ n ∈ ns, P n)] → Gives P (step ns))
    (hstep : ∀ ns, [Fact (ns ≠ [])] → [Fact (∀ n ∈ ns, P n)] → Sound text parts ns (step ns)) :
    Sound text parts pre (extend p step) where
  run {lo _ _ _ _} hpre hts hrun := by
    refine (extend_run (C := fun ns rest => (ns ≠ [] ∧ ∀ n ∈ ns, P n) ∧
      ∃ stop, Run text parts lo stop ns ∧ Tokens text stop rest) hrun ?_ ?_).right
    · intro xs mid hxs
      exact ⟨⟨hproductive.ne_nil hxs, hgives.gives hxs⟩, hp.run hpre hts hxs⟩
    · rintro xs mid ys mid' ⟨⟨hne, hall⟩, stop, hrunX, htsX⟩ hys
      have : Fact (xs ≠ []) := ⟨hne⟩
      have : Fact (∀ n ∈ xs, P n) := ⟨hall⟩
      exact ⟨⟨(hproductiveStep xs).ne_nil hys, (hgivesStep xs).gives hys⟩,
        (hstep xs).run hrunX htsX hys⟩

end Gives

instance [hmark : HasMark p] [hoperator : HasRole .operator p] [hright : HasRole .right p] :
    Shapes .assignmentExpression p where
  shape h := ⟨hmark.exists_node h, hoperator.exists_node h, hright.exists_node h⟩

-- The sign stands on one side of an expression.
theorem exists_sign {ts rest : List Token} {ns : List Node}
    (h : (mark "++" <|> mark "--").run ts = some (ns, rest)) :
    ∃ (n : Node) (isIncrement : Bool), ns = [n] ∧ n.isMark = true ∧
      n.kind = .token (if isIncrement then "++" else "--") := by
  obtain h | h := either_run h
  · obtain ⟨t, -, htest, rfl⟩ := leaf_run h
    have hkind : t.kind = .token "++" := of_decide_eq_true htest
    exact ⟨_, true, rfl, by simp [hkind, Node.isMark], hkind⟩
  · obtain ⟨t, -, htest, rfl⟩ := leaf_run h
    have hkind : t.kind = .token "--" := of_decide_eq_true htest
    exact ⟨_, false, rfl, by simp [hkind, Node.isMark], hkind⟩

instance [hp : Productive p] [hkinds : OfKinds Kind.isOperand p] :
    Shapes .updateExpression ((mark "++" <|> mark "--") ++ p) where
  shape h := by
    obtain ⟨xs, mid, ys, hxs, hys, rfl⟩ := andThen_run h
    obtain ⟨sign, isIncrement, rfl, hmark, hkind⟩ := exists_sign hxs
    obtain ⟨n, hn⟩ := Option.isSome_iff_exists.mp (List.getLast?_isSome.mpr (hp.ne_nil hys))
    have hlast : ([sign] ++ ys).getLast? = some n := by
      rw [List.getLast?_append, hn, Option.some_or]
    exact ⟨isIncrement, true, ⟨sign, rfl, hmark, hkind⟩, n, hlast,
      hkinds.gives hys n (List.mem_of_getLast? hn)⟩

instance [hp : Productive p] [hkinds : OfKinds Kind.isOperand p] :
    Shapes .updateExpression (p ++ (mark "++" <|> mark "--")) where
  shape h := by
    obtain ⟨xs, mid, ys, hxs, hys, rfl⟩ := andThen_run h
    obtain ⟨sign, isIncrement, rfl, hmark, hkind⟩ := exists_sign hys
    obtain ⟨n, hn⟩ := Option.isSome_iff_exists.mp (List.isSome_head?.mpr (hp.ne_nil hxs))
    have hfirst : (xs ++ [sign]).head? = some n := by
      rw [List.head?_append, hn, Option.some_or]
    exact ⟨isIncrement, false, ⟨sign, List.getLast?_concat .., hmark, hkind⟩, n, hfirst,
      hkinds.gives hxs n (List.mem_of_head? hn)⟩

instance [hmark : HasMark p] : Shapes .fieldAccess p where
  shape h := hmark.exists_node h

instance [htype : HasRole .type p] [hname : HasRole .name p] : Shapes .formalParameter p where
  shape h := ⟨htype.exists_node h, hname.exists_node h⟩

instance [htype : Has (fun n => n.kind.isType = true) p]
    [hdeclarator : Has (fun n => n.kind = .variableDeclarator) p] : Shapes .spreadParameter p where
  shape h := ⟨htype.exists_node h, hdeclarator.exists_node h⟩

instance [hp : OfKinds Kind.isListed p] : Shapes .formalParameters p where
  shape h := hp.gives h

-- Ends with a node whose kind passes a test.
class Ends (test : Kind → Bool) (p : Recognizer) : Prop where
  ends : ∀ {ts : List Token} {ns : List Node} {rest : List Token},
    p.run ts = some (ns, rest) → ∀ n, ns.getLast? = some n → test n.kind = true

instance {test : Kind → Bool} [hq : Productive q] [hkinds : OfKinds test q] :
    Ends test (p ++ q) where
  ends h n hn := by
    obtain ⟨xs, mid, ys, -, hys, rfl⟩ := andThen_run h
    obtain ⟨m, hm⟩ := Option.isSome_iff_exists.mp (List.getLast?_isSome.mpr (hq.ne_nil hys))
    rw [List.getLast?_append, hm, Option.some_or] at hn
    cases hn
    exact hkinds.gives hys n (List.mem_of_getLast? hm)

-- Behind the last variable that is given stand only separators.
class Trails (p : Recognizer) : Prop where
  trails : ∀ {ts : List Token} {ns : List Node} {rest : List Token},
    p.run ts = some (ns, rest) → ∃ front last back, ns = front ++ last :: back ∧
      last.kind = .variableDeclarator ∧ ∀ n ∈ back, n.isSeparator = true

section Trails

instance : Trails (role r (node .variableDeclarator p)) where
  trails h := by
    obtain ⟨xs, hxs, rfl⟩ := role_run h
    obtain ⟨ys, first, last, -, -, -, rfl⟩ := node_run hxs
    exact ⟨[], _, [], rfl, rfl, by simp⟩

instance [hq : Trails q] : Trails (p ++ q) where
  trails h := by
    obtain ⟨xs, mid, ys, -, hys, rfl⟩ := andThen_run h
    obtain ⟨front, last, back, rfl, hlast⟩ := hq.trails hys
    exact ⟨xs ++ front, last, back, by simp, hlast⟩

theorem exists_mark {ts rest : List Token} (h : (mark word).run ts = some (ns, rest)) :
    ∃ n, ns = [n] ∧ n.isMark = true := by
  obtain ⟨t, -, htest, rfl⟩ := leaf_run h
  have hkind : t.kind = .token word := of_decide_eq_true htest
  exact ⟨_, rfl, by simp [hkind, Node.isMark]⟩

instance [hp : Trails p] : Trails (p ++ mark word) where
  trails h := by
    obtain ⟨xs, mid, ys, hxs, hys, rfl⟩ := andThen_run h
    obtain ⟨front, last, back, rfl, hlast, hback⟩ := hp.trails hxs
    obtain ⟨n, rfl, hmark⟩ := exists_mark hys
    refine ⟨front, last, back ++ [n], by simp, hlast, fun m hm => ?_⟩
    obtain hm | hm := List.mem_append.mp hm
    · exact hback m hm
    · rw [List.mem_singleton.mp hm]
      exact Node.isSeparator_of_isMark hmark

instance [hp : Trails p] : Trails (commaSeparated1 p) where
  trails h := by
    obtain ⟨xs, mid, ys, hxs, hys, rfl⟩ := andThen_run h
    -- Each turn of the repetition ends with a variable again.
    refine many_run (C := fun ys _ => ∃ front last back, xs ++ ys = front ++ last :: back ∧
      last.kind = .variableDeclarator ∧ ∀ n ∈ back, n.isSeparator = true) hys ?_ ?_
    · rw [List.append_nil]
      exact hp.trails hxs
    · intro ys mid zs mid' _ hzs
      have hnext : Trails (mark "," ++ p) := inferInstance
      obtain ⟨front, last, back, rfl, hlast⟩ := hnext.trails hzs
      exact ⟨xs ++ ys ++ front, last, back, by simp, hlast⟩

end Trails

instance [hp : Trails p] : Shapes .fieldDeclaration (p ++ mark word) where
  shape h := by
    have htrails : Trails (p ++ mark word) := inferInstance
    obtain ⟨xs, mid, ys, hxs, hys, rfl⟩ := andThen_run h
    obtain ⟨n, rfl, hmark⟩ := exists_mark hys
    exact ⟨htrails.trails h, n, List.getLast?_concat .., hmark⟩

end Nodes

end Grammar.Recognizer

end ClassSplit.Java
