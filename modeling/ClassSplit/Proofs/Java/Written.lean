import ClassSplit.Proofs.Java.Phrase
import ClassSplit.Proofs.Java.Tree

/-!
Constructs that can be read stand in their text as they have been recognized: what the tree has as
a token is found as one token there, between two of its parts stand only blanks and comments, and
every operator has operands that bind at least as tight. Main statement:
`Node.Composed.written`.
-/

namespace ClassSplit.Java

open Text

variable {text cs : List Char} {lo hi : Nat} {n m : Node} {ns ms : List Node} {kind : Kind}
  {comments : List Comment} {p : Phrase} {ps : List Phrase} {word : String}
  {levels : List (List String)}

section Stands

variable {span : Span} (h : Stands text kind span)

include h

theorem Stands.isWord (hkind : kind = .identifier) : SpellsIdentifier (Text.slice text span) := by
  obtain ⟨frames, frames', h⟩ := h
  exact isWord_of_stepInCode (hkind ▸ h)

theorem Stands.scan? (hfits : span.FitsIn text) (hkind : isIntegerLiteralKind kind = true) :
    Number.scan? (Text.slice text span ++ Text.dropBytes span.stop text) =
      some (kind, Text.dropBytes span.stop text) := by
  obtain ⟨frames, frames', h⟩ := h
  rw [← Text.slice_append_dropBytes hfits] at h
  exact scan?_of_stepInCode h hkind

-- A slash is no token where another one follows.
theorem Stands.not_slash (hfits : span.FitsIn text)
    (hslice : Text.slice text span = ['/']) :
    (Text.dropBytes span.stop text).head? ≠ some '/' := by
  intro hhead
  obtain ⟨frames, frames', h⟩ := h
  rw [← Text.slice_append_dropBytes hfits, hslice] at h
  obtain ⟨tail, htail⟩ : ∃ tail, Text.dropBytes span.stop text = '/' :: tail := by
    cases hrest : Text.dropBytes span.stop text with
    | nil => rw [hrest] at hhead; cases hhead
    | cons c tail =>
      rw [hrest] at hhead
      exact ⟨tail, by rw [Option.some.inj hhead]⟩
  rw [htail] at h
  have hstep : stepInCode frames ('/' :: '/' :: tail) =
      some (LexStep.upTo (.comment .lineComment) (tail.dropWhile (· != '\n'))
        ('/' :: '/' :: tail) frames) := rfl
  rw [List.singleton_append, hstep] at h
  simp [LexStep.upTo, LexStep.take] at h

end Stands

-- Between neighbouring nodes stand blanks and comments.
def Adjoining (text : List Char) (ns : List Node) : Prop :=
  ns.IsChain fun n m => Blank (slice text ⟨n.span.stop, m.span.start⟩)

-- A tree that stands in a text, given the levels of operators that are not used outside of
-- parentheses.
inductive Node.Written (text : List Char) : List (List String) → Node → Prop
  | leaf {kind : Kind} {role : Option Role} {span : Span} {word : String}
    (h : kind.isKept = true → Stands text kind span) : Written text [] (.leaf kind role span word)
  | branch {n : Node} (hkind : n.kind ≠ .binaryExpression) (hne : n.children ≠ [])
    (hfirst : n.parts.head? = n.children.head?) (hlast : n.parts.getLast? = n.children.getLast?)
    (hparts : Adjoining text n.parts)
    (h : ∀ m ∈ n.parts, m.Written text Grammar.operatorLevels) : Written text [] n
  | loosen {operators : List String} {tighter : List (List String)} {n : Node}
    (h : n.Written text tighter) : Written text (operators :: tighter) n
  | binary {operators : List String} {tighter : List (List String)} {n left sign right : Node}
    (hkind : n.kind = .binaryExpression)
    (hfirst : n.parts.head? = n.children.head?) (hlast : n.parts.getLast? = n.children.getLast?)
    (hparts : n.parts = [left, sign, right])
    (hadjoining : Adjoining text n.parts) (hmem : sign.word ∈ operators)
    (hsign : sign.Written text []) (hleft : left.Written text (operators :: tighter))
    (hright : right.Written text tighter) : Written text (operators :: tighter) n

theorem Node.Written.of_suffix {tighter : List (List String)} (h : n.Written text tighter)
    (hsuffix : tighter <:+ levels) : n.Written text levels := by
  induction levels with
  | nil => rwa [List.suffix_nil.mp hsuffix] at h
  | cons operators levels ih =>
    obtain rfl | hsuffix := List.suffix_cons_iff.mp hsuffix
    · exact h
    · exact .loosen (ih hsuffix)

section Forall

variable {α β : Type} {R : α → β → Prop} {xs : List α} {ys : List β}

theorem exists_of_mem_left {x : α} (h : List.Forall₂ R xs ys) (hx : x ∈ xs) : ∃ y ∈ ys, R x y := by
  induction h with
  | nil => cases hx
  | @cons a b _ _ hab _ ih =>
    obtain rfl | hx := List.mem_cons.mp hx
    · exact ⟨b, List.mem_cons_self, hab⟩
    · obtain ⟨y, hy, hxy⟩ := ih hx
      exact ⟨y, List.mem_cons_of_mem b hy, hxy⟩

theorem exists_of_mem_right {y : β} (h : List.Forall₂ R xs ys) (hy : y ∈ ys) :
    ∃ x ∈ xs, R x y :=
  exists_of_mem_left (R := flip R) (List.Forall₂.flip h) hy

end Forall

section Quoted

/-- The marks around and in strings. -/
def quotes : List String := ["\"", "\"\"\"", "\\\x7b"]

theorem Kind.isQuoted_token : (Kind.token word).isQuoted = false ↔ word ∉ quotes := by
  simp [Kind.isQuoted, quotes, and_assoc]

theorem Kind.isQuoted_of_literal (h : isIntegerLiteralKind kind = true) :
    kind.isQuoted = false := by
  cases kind
  all_goals first | rfl | cases h

theorem Phrase.eq_of_lines? {lines : List Procedure.Body} (h : lines? ps = some lines)
    (hm : .mark word ∈ ps) : word = "\x7d" := by
  induction ps using lines?.induct generalizing lines with
  | case1 => simpa using hm
  | case2 body rest ih =>
    obtain ⟨lines', hlines', -⟩ := Option.map_eq_some_iff.mp h
    exact ih hlines' (by simpa using hm)
  | case3 rest hclosing hline =>
    rw [lines?.eq_3 _ hclosing hline] at h
    cases h

-- No construct that is read has a quote among its parts.
theorem Phrase.Forms.not_mem_quotes (h : Forms kind ps p) (hm : .mark word ∈ ps) :
    word ∉ quotes := by
  intro hword
  have hnone : ∀ word ∈ quotes, Operator.ofSign? word = none ∧ isIncrement? word = none ∧
      Integral.ofWord? word = none ∧ combiner? word = none ∧
        word ∉ ["(", ")", ".", "=", ";", "return", "\x7b", "\x7d"] := by
    decide
  obtain ⟨hsign, hstep, htype, hcombiner, hmarks⟩ := hnone word hword
  simp only [List.mem_cons, List.not_mem_nil, or_false, not_or] at hmarks
  cases h with
  | binary left right ho =>
    obtain rfl : word = _ := by simpa using hm
    rw [hsign] at ho
    cases ho
  | stepFront h | stepBack h =>
    obtain rfl : word = _ := by simpa using hm
    rw [hstep] at h
    cases h
  | type ht =>
    obtain rfl : word = _ := by simpa using hm
    rw [htype] at ht
    cases ht
  | combine right hne hx ho =>
    obtain rfl : word = _ := by simpa using hm
    rw [hcombiner] at ho
    cases ho
  | line hp =>
    obtain rfl | hm := List.mem_cons.mp hm
    · cases hp
    · simp [hmarks] at hm
  | block hlines =>
    obtain heq | hm := List.mem_cons.mp hm
    · simp [hmarks] at heq
    · simp [Phrase.eq_of_lines? hlines hm] at hmarks
  | _ => simp [hmarks] at hm

theorem Node.Joined.isComment (h : n.Joined text) : n.isComment = false := by
  cases h with
  | leaf hcomment => exact hcomment
  | branch hcomment => exact hcomment

theorem Node.parts_of_joined (h : ∀ m ∈ ns, m.Joined text) :
    ns.filter (!·.isComment) = ns := by
  refine List.filter_eq_self.mpr fun m hm => ?_
  rw [(h m hm).isComment]
  rfl

-- What is read does not begin with a quote.
theorem Node.Joined.isQuoted_firstKind (h : n.Joined text) (hp : n.phrase? = some p)
    (hmark : ∀ word, p = .mark word → word ∉ quotes) : n.firstKind.isQuoted = false := by
  induction h generalizing p with
  | leaf =>
    cases isRead_of_phrase? hp with
    | leaf h =>
      cases h with
      | mark => exact Kind.isQuoted_token.mpr (hmark _ rfl)
      | self => rfl
      | name => rfl
      | literal hv => exact Kind.isQuoted_of_literal (isIntegerLiteralKind_of_literal? hv)
  | @branch kind role span children _ _ _ _ hjoined ih =>
    cases isRead_of_phrase? hp with
    | branch h hparts =>
      rw [parts_of_joined hjoined] at hparts
      cases hparts with
      | nil => cases h
      | @cons m q ms qs hm =>
        refine ih m List.mem_cons_self hm fun word hq => h.not_mem_quotes ?_
        rw [hq]
        exact List.mem_cons_self

end Quoted

section Comments

namespace Node

-- A node with the comments that lie in it.
def IsFilled (text : List Char) (n m : Node) : Prop :=
  ∃ inner, Comments text n.span.start n.span.stop inner ∧ m = n.withComments inner

theorem IsFilled.span (h : IsFilled text n m) : m.span = n.span := by
  obtain ⟨inner, -, rfl⟩ := h
  exact span_withComments inner n

@[simp] theorem isComment_withComments (inner : List Comment) (n : Node) :
    (n.withComments inner).isComment = n.isComment := by
  rw [isComment, isComment, kind_withComments]

theorem isComment_toNode {c : Comment} (h : c.Sound text) : c.toNode.isComment = true := h.kind

-- Without the comments that have been put in, there are the nodes that have been there.
theorem isFilled_mergeComments (hns : ∀ n ∈ ns, n.isComment = false)
    (hcs : Comments text lo hi comments) (hinOrder : Span.InOrder lo hi (ns.map (·.span))) :
    List.Forall₂ (IsFilled text) ns ((mergeComments comments ns).filter (!·.isComment)) := by
  have hnone : ∀ {cs : List Comment}, (∀ c ∈ cs, c.Sound text) →
      (cs.map (·.toNode)).filter (!·.isComment) = [] := by
    intro cs hcs
    refine List.filter_eq_nil_iff.mpr fun m hm => ?_
    obtain ⟨c, hc, rfl⟩ := List.mem_map.mp hm
    simp [isComment_toNode (hcs c hc)]
  induction ns generalizing comments lo with
  | nil =>
    rw [mergeComments, hnone hcs.sound]
    exact .nil
  | cons n ns ih =>
    obtain ⟨hlo, hlt, hrest⟩ := hinOrder
    have hinside : Comments text n.span.start n.span.stop
        (comments.filter (n.span.covers ·.span)) := by
      refine hcs.filter (Nat.le_of_lt hlt) ?_
      intro c hc hcovers
      simpa [Span.covers] using hcovers
    have hafter : Comments text n.span.stop hi
        (comments.filter (n.span.stop ≤ ·.span.start)) := by
      refine hcs.filter hrest.le ?_
      intro c hc hstart
      exact ⟨of_decide_eq_true hstart, (hcs.mem hc).right.right⟩
    have hfirst := hns n List.mem_cons_self
    rw [mergeComments, List.filter_append, hnone fun c hc => hcs.sound c (List.mem_filter.mp hc).left,
      List.nil_append, List.filter_cons_of_pos (by simp [hfirst])]
    exact .cons ⟨_, hinside, rfl⟩ (ih (fun m hm => hns m (List.mem_cons_of_mem _ hm)) hafter hrest)

-- Comments do not change what is read.
theorem phrases?_eq_of_isFilled (hns : ∀ n ∈ ns, n.isComment = false)
    (h : List.Forall₂ (IsFilled text) ns ms)
    (hphrase : ∀ n ∈ ns, ∀ {inner}, Comments text n.span.start n.span.stop inner →
      (n.withComments inner).phrase? = n.phrase?) : phrases? ms = phrases? ns := by
  induction h with
  | nil => rfl
  | @cons n m ns ms hnm _ ih =>
    obtain ⟨inner, hinner, rfl⟩ := hnm
    have hfirst := hns n List.mem_cons_self
    rw [phrases?_cons (by simpa using hfirst), phrases?_cons hfirst,
      hphrase n List.mem_cons_self hinner, ih (fun k hk => hns k (List.mem_cons_of_mem _ hk))
        fun k hk => hphrase k (List.mem_cons_of_mem _ hk)]

theorem phrase?_withComments (h : n.Joined text) (hsound : n.Sound text)
    (hcs : Comments text n.span.start n.span.stop comments) :
    (n.withComments comments).phrase? = n.phrase? := by
  induction h generalizing comments with
  | leaf => rfl
  | @branch kind role span children _ _ _ _ hjoined ih =>
    cases hsound with
    | branch _ _ _ _ inOrder _ _ sound =>
      have hns : ∀ n ∈ children, n.isComment = false := fun n hn => (hjoined n hn).isComment
      rw [withComments, phrase?, phrase?, ← phrases?_filter]
      rw [phrases?_eq_of_isFilled hns (isFilled_mergeComments hns hcs inOrder)
        fun n hn {_} hinner => ih n hn (sound n hn) hinner]

theorem adjoining_of_isFilled (h : List.Forall₂ (IsFilled text) ns ms)
    (hseams : ns.IsChain fun n m => Seam text n.span.stop m.span.start m.firstKind)
    (hquoted : ∀ n ∈ ns, n.firstKind.isQuoted = false) : Adjoining text ms := by
  have hspans : ms.map (·.span) = ns.map (·.span) := by
    clear hseams hquoted
    induction h with
    | nil => rfl
    | cons hnm _ ih => rw [List.map_cons, List.map_cons, hnm.span, ih]
  have hblank : ns.IsChain fun n m => Blank (slice text ⟨n.span.stop, m.span.start⟩) :=
    hseams.imp_of_mem_imp fun n m _ hm hseam => hseam.resolve_left (by simp [hquoted m hm])
  let R (s t : Span) : Prop := Blank (slice text ⟨s.stop, t.start⟩)
  exact (List.isChain_map (R := R) Node.span).mp
    (hspans ▸ (List.isChain_map (R := R) Node.span).mpr hblank)

-- Nothing is put in front of the first part or behind the last one.
theorem ends_of_isFilled {first last : Node} (hcs : Comments text lo hi comments)
    (hns : ∀ n ∈ ns, n.isComment = false) (hinOrder : Span.InOrder lo hi (ns.map (·.span)))
    (hfirst : ns.head? = some first) (hlast : ns.getLast? = some last)
    (hlo : first.span.start = lo) (hhi : last.span.stop = hi) :
    let all := mergeComments comments ns
    (all.filter (!·.isComment)).head? = all.head? ∧
      (all.filter (!·.isComment)).getLast? = all.getLast? := by
  have hhead : ∀ {ms : List Node}, (∀ m ∈ ms.head?, m.isComment = false) →
      (ms.filter (!·.isComment)).head? = ms.head? := by
    intro ms hms
    cases ms with
    | nil => rfl
    | cons m ms => simp [hms m rfl]
  obtain ⟨inner, hfirst'⟩ := head?_mergeComments hcs hfirst hlo
  obtain ⟨inner', hlast'⟩ := getLast?_mergeComments hcs hlast hhi hinOrder
  refine ⟨hhead ?_, ?_⟩
  · rw [hfirst']
    rintro m ⟨⟩
    simpa using hns first (List.mem_of_mem_head? hfirst)
  · rw [List.getLast?_eq_head?_reverse, List.getLast?_eq_head?_reverse, ← List.filter_reverse]
    refine hhead ?_
    rw [← List.getLast?_eq_head?_reverse, hlast']
    rintro m ⟨⟩
    simpa using hns last (List.mem_of_getLast? hlast)

theorem Joined.binds (h : n.Joined text) (hp : n.phrase? = some p) :
    n.Binds Grammar.operatorLevels := by
  cases h with
  | leaf =>
    refine .operand ?_
    rintro rfl
    cases hp
  | branch _ hbinds => exact hbinds

theorem kind_of_mark (h : n.phrase? = some (.mark word)) : n.kind ≠ .binaryExpression := by
  intro hkind
  cases isRead_of_phrase? h with
  | leaf h =>
    cases h
    all_goals cases hkind
  | branch h =>
    obtain rfl := hkind
    cases h

theorem Joined.written (h : n.Joined text) (hsound : n.Sound text)
    (hcs : Comments text n.span.start n.span.stop comments) (hp : n.phrase? = some p)
    (hbinds : n.Binds levels) : (n.withComments comments).Written text levels := by
  induction h generalizing comments p levels with
  | leaf _ hstands => exact (Written.leaf hstands).of_suffix List.nil_suffix
  | @branch kind role span children _ _ _ hseams hjoined ih =>
    cases hsound with
    | branch _ _ first last inOrder _ _ sound =>
      have hns : ∀ n ∈ children, n.isComment = false := fun n hn => (hjoined n hn).isComment
      have hfilled := isFilled_mergeComments hns hcs inOrder
      obtain ⟨a, ha, hstart⟩ := Option.map_eq_some_iff.mp first
      obtain ⟨b, hb, hstop⟩ := Option.map_eq_some_iff.mp last
      obtain ⟨hfirst, hlast⟩ := ends_of_isFilled hcs hns inOrder ha hb hstart hstop
      cases isRead_of_phrase? hp with
      | @branch _ _ _ _ ps _ hforms hread =>
        rw [parts_of_joined hjoined] at hread
        have hphrase : ∀ m ∈ children, ∃ q ∈ ps, m.phrase? = some q := fun m hm =>
          exists_of_mem_left hread hm
        have hadjoining : Adjoining text _ := adjoining_of_isFilled hfilled hseams fun m hm => by
          obtain ⟨q, hq, hmq⟩ := hphrase m hm
          exact (hjoined m hm).isQuoted_firstKind hmq fun word hword =>
            hforms.not_mem_quotes (hword ▸ hq)
        -- A part binds as tight as what has been there before.
        have hwritten : ∀ {m k levels}, m ∈ children → IsFilled text m k → m.Binds levels →
            k.Written text levels := by
          rintro m k levels hm ⟨inner, hinner, rfl⟩ hbinds
          obtain ⟨q, -, hmq⟩ := hphrase m hm
          exact ih m hm (sound m hm) hinner hmq hbinds
        rw [withComments]
        by_cases hkind : kind = .binaryExpression
        case neg =>
          refine (Written.branch (n := .branch kind role span _) hkind ?_ hfirst hlast hadjoining
            ?_).of_suffix List.nil_suffix
          · exact mergeComments_ne_nil comments (List.ne_nil_of_mem (List.mem_of_mem_head? ha))
          · intro k hk
            obtain ⟨m, hm, hmk⟩ := exists_of_mem_right hfilled hk
            obtain ⟨q, -, hmq⟩ := hphrase m hm
            exact hwritten hm hmk ((hjoined m hm).binds hmq)
        case pos =>
          subst hkind
          obtain ⟨operators, tighter, lefts, sign, rights, hsuffix, hchildren, hlefts, hrights, hmem,
            hleft, hright⟩ := hbinds.exists_operands rfl
          obtain ⟨e, word, e', rfl⟩ : ∃ e word e',
              ps = [.expression e, .mark word, .expression e'] := by
            cases hforms
            exact ⟨_, _, _, rfl⟩
          have hlength := hread.length_eq
          -- There is one node on either side of the sign.
          have hpos := List.length_pos_iff.mpr hlefts
          have hpos' := List.length_pos_iff.mpr hrights
          rw [Node.children] at hchildren
          simp only [hchildren, List.length_append, List.length_cons, List.length_nil] at hlength
          obtain ⟨left, rfl⟩ := List.length_eq_one_iff.mp (show lefts.length = 1 by omega)
          obtain ⟨right, rfl⟩ := List.length_eq_one_iff.mp (show rights.length = 1 by omega)
          obtain rfl : children = [left, sign, right] := hchildren
          generalize hall : mergeComments comments [left, sign, right] = all at *
          generalize hms : all.filter (!·.isComment) = ms at hfilled
          cases hfilled with
          | @cons _ left' _ _ hl hfilled =>
          cases hfilled with
          | @cons _ sign' _ _ hs hfilled =>
          cases hfilled with
          | @cons _ right' _ _ hr hfilled =>
          cases hfilled
          have hword : sign'.word ∈ operators := by
            obtain ⟨inner, -, rfl⟩ := hs
            simpa using hmem
          have hsign : sign.Binds [] := by
            cases hread with
            | cons _ hread =>
              cases hread with
              | cons h => exact .operand (kind_of_mark h)
          exact (Written.binary (n := .branch .binaryExpression role span all) rfl hfirst hlast hms
            hadjoining hword (hwritten (by simp) hs hsign)
            (hwritten (by simp) hl (hleft left (by simp)))
            (hwritten (by simp) hr (hright right (by simp)))).of_suffix hsuffix

-- A node of a tree with its comments: a comment, or a node that has been recognized.
inductive Composed (text : List Char) : Node → Prop
  | comment {c : Comment} (h : c.Sound text) : Composed text c.toNode
  | filled {n : Node} {inner : List Comment} (h : n.Joined text) (hsound : n.Sound text)
    (hinner : Comments text n.span.start n.span.stop inner) : Composed text (n.withComments inner)

theorem composed_mergeComments (hns : ∀ n ∈ ns, n.Joined text ∧ n.Sound text)
    (hcs : Comments text lo hi comments) (hinOrder : Span.InOrder lo hi (ns.map (·.span))) :
    ∀ m ∈ mergeComments comments ns, m.Composed text := by
  intro m hm
  have hfilled := isFilled_mergeComments (fun n hn => (hns n hn).left.isComment) hcs hinOrder
  obtain ⟨c, hc, rfl⟩ | ⟨n, hn, inner, rfl⟩ := mem_mergeComments hm
  · exact .comment (hcs.sound c hc)
  · have hpart : n.withComments inner ∈ (mergeComments comments ns).filter (!·.isComment) :=
      List.mem_filter.mpr ⟨hm, by simp [(hns n hn).left.isComment]⟩
    obtain ⟨k, hk, inner', hinner', heq⟩ := exists_of_mem_right hfilled hpart
    obtain ⟨hjoined, hsound⟩ := hns k hk
    exact heq ▸ .filled hjoined hsound hinner'

theorem Composed.of_mem_children (h : n.Composed text) (hm : m ∈ n.children) :
    m.Composed text := by
  cases h with
  | comment => cases hm
  | filled h hsound hinner =>
    cases h with
    | leaf => cases hm
    | branch _ _ _ _ hjoined =>
      cases hsound with
      | branch _ _ _ _ inOrder _ _ sound =>
        exact composed_mergeComments (fun n hn => ⟨hjoined n hn, sound n hn⟩) hinner inOrder m hm

-- Comments change nothing about the parts that the children of a construct play.
theorem Divided.of_isFilled {first second : Role} {between : Option Role}
    (h : Divided first between second ns) (hms : List.Forall₂ (IsFilled text) ns ms) :
    Divided first between second ms := by
  obtain ⟨front, sign, back, rfl, hmark, hrole, hfront, hback⟩ := h
  induction front generalizing ms with
  | nil =>
    cases hms with
    | cons hsign hrest =>
      obtain ⟨inner, -, rfl⟩ := hsign
      refine ⟨[], _, _, rfl, by simpa using hmark, by simpa using hrole, nofun, fun m hm => ?_⟩
      obtain ⟨n, hn, inner', -, rfl⟩ := exists_of_mem_right hrest hm
      simpa using hback n hn
  | cons n front ih =>
    cases hms with
    | cons hn hrest =>
      obtain ⟨inner, -, rfl⟩ := hn
      obtain ⟨front', sign', back', rfl, hmark', hrole', hfront', hback'⟩ :=
        ih hrest fun m hm => hfront m (List.mem_cons_of_mem _ hm)
      refine ⟨_ :: front', sign', back', rfl, hmark', hrole', fun m hm => ?_, hback'⟩
      obtain rfl | hm := List.mem_cons.mp hm
      · simpa using hfront n List.mem_cons_self
      · exact hfront' m hm

theorem Composed.arranged (h : n.Composed text) (hne : n.children ≠ []) :
    Arranged n.kind n.parts := by
  cases h with
  | comment => exact absurd rfl hne
  | @filled n inner h hsound hinner =>
    cases h with
    | leaf => exact absurd rfl hne
    | @branch kind role span children _ _ harranged _ hjoined =>
      cases hsound with
      | branch _ _ _ _ inOrder =>
        have hfilled := isFilled_mergeComments (fun m hm => (hjoined m hm).isComment) hinner inOrder
        rw [kind_withComments]
        cases kind
        case assignmentExpression | fieldAccess => exact harranged.of_isFilled hfilled
        case methodDeclaration =>
          change ∀ m ∈ ((mergeComments inner children).filter (!·.isComment)).head?, _
          generalize (mergeComments inner children).filter (!·.isComment) = ms at hfilled
          cases hfilled with
          | nil => nofun
          | cons hn =>
            obtain ⟨inner', -, rfl⟩ := hn
            rintro m ⟨⟩
            rw [role_withComments]
            exact harranged _ rfl
        all_goals trivial

theorem Composed.role_of_isComment (h : n.Composed text) (hcomment : n.isComment = true) :
    n.role = none := by
  cases h with
  | comment => rfl
  | filled h => rw [isComment_withComments, h.isComment] at hcomment; cases hcomment

-- What plays a part is found among the children that are no comments.
theorem Composed.child?_eq (h : n.Composed text) (r : Role) :
    n.child? r = n.parts.find? (·.role = some r) := by
  rw [child?, parts, ← List.head?_filter, ← List.head?_filter, List.filter_filter]
  refine congrArg List.head? (List.filter_congr fun m hm => ?_)
  cases hcomment : m.isComment with
  | false => simp
  | true => simp [(h.of_mem_children hm).role_of_isComment hcomment]

-- The parts that three nodes play, of which only the one in the middle is a mark.
theorem Divided.roles {first second : Role} {between : Option Role} {a sign b : Node}
    (h : Divided first between second [a, sign, b]) (ha : a.isMark = false)
    (hsuper : a.kind ≠ .superWord) (hb : b.isMark = false) :
    a.role = some first ∧ sign.role = between ∧ b.role = some second := by
  obtain ⟨front, mark, back, heq, hmark, hrole, hfront, hback⟩ := h
  obtain _ | ⟨c, _ | ⟨d, _ | ⟨e, front⟩⟩⟩ := front
  · cases heq
    rw [ha] at hmark
    cases hmark
  · cases heq
    refine ⟨?_, hrole, hback b List.mem_cons_self⟩
    simpa [ha, hsuper] using hfront a List.mem_cons_self
  · cases heq
    rw [hb] at hmark
    cases hmark
  · simp at heq

-- What is read of a tree stands in the text as it has been recognized.
theorem Composed.written (h : n.Composed text) (hp : n.phrase? = some p) :
    n.Written text Grammar.operatorLevels := by
  cases h with
  | comment h =>
    have hnone := isComment_of_phrase? hp
    rw [isComment_toNode h] at hnone
    cases hnone
  | filled h hsound hinner =>
    rw [phrase?_withComments h hsound hinner] at hp
    exact h.written hsound hinner hp (h.binds hp)

end Node

theorem composed_of_tree? {root : Node} (h : tree? text = some root) :
    ∀ n ∈ root.children, n.Composed text := by
  obtain ⟨ns, comments, hchildren, ⟨lo, stop, hrun⟩, hinOrder, hcs⟩ := exists_grown_of_tree? h
  rw [hchildren]
  exact Node.composed_mergeComments (fun n hn => ⟨hrun.joins.joined n hn, hrun.sound n hn⟩) hcs
    hinOrder

end Comments

end ClassSplit.Java
