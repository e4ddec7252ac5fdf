import ClassSplit.Proofs.Delegation.Simulation
import ClassSplit.Proofs.Java.Site
import ClassSplit.Proofs.Java.Spacing
import ClassSplit.Proofs.Java.Written
import ClassSplit.Proofs.Patch.Weaving

/-!
The text of an expression whose fields are reached through the helper. Where every reference to a
field that has moved is replaced by a call, and nothing else, the text that comes out is read as the
expression with these calls. Main statement: `Routing.Rerouted.spelt`.
-/

namespace ClassSplit

open Java Replacement

variable {text : List Char} {family : List Replacement} {levels : List (List String)}
  {n m : Node} {e : Expression} {word : String}

namespace Java

theorem Grammar.Spells.of_suffix {tighter : List (List String)} {ts : List Token}
    (h : Spells tighter ts e) (hsuffix : tighter <:+ levels) : Spells levels ts e := by
  obtain ⟨front, rfl⟩ := hsuffix
  induction front with
  | nil => exact h
  | cons operators front ih => exact .loosen ih

theorem Node.of_phrase?_mark (h : n.phrase? = some (.mark word)) :
    n.isMark = true ∧ n.kind = .token word := by
  cases isRead_of_phrase? h with
  | leaf h =>
    cases h
    exact ⟨rfl, rfl⟩
  | branch h => cases h

end Java

-- Every replacement in a construct lies in one of its parts that is no mark.
def Kept (family : List Replacement) (n : Node) : Prop :=
  ∀ r ∈ family, n.span.covers r.span = true →
    ∃ m ∈ n.parts, m.isMark = false ∧ m.span.covers r.span = true

namespace Kept

variable (h : Kept family n) (hneat : Neat family) (hn : n.Sound text)

include h hneat hn

-- A mark is left as it is.
theorem rendering_mark (hm : m ∈ n.parts) (hmark : m.phrase? = some (.mark word)) :
    rendering text family m.span = word.toList := by
  obtain ⟨hmark, hkind⟩ := Node.of_phrase?_mark hmark
  obtain ⟨hmem, -⟩ := Node.mem_parts.mp hm
  have hsound := hn.of_mem_children hmem
  rw [← hsound.slice_of_isMark hmark hkind]
  refine hneat.rendering_of_forall_not_covers hsound.fits fun r hr => ?_
  refine Bool.eq_false_iff.mpr fun hcovers => ?_
  obtain ⟨k, hk, hnot, hcovers'⟩ := h r hr (Span.covers_trans (hn.covers_child hmem) hcovers)
  obtain rfl | hbeside := hn.eq_or_beside hmem (Node.mem_parts.mp hk).left
  · rw [hmark] at hnot
    cases hnot
  · exact (hbeside.mono (Span.covers_refl _) hcovers').not_covers (hneat.nonempty r hr) hcovers

theorem rendering_leaf (hleaf : n.children = []) :
    rendering text family n.span = Text.slice text n.span := by
  refine hneat.rendering_of_forall_not_covers hn.fits fun r hr => ?_
  refine Bool.eq_false_iff.mpr fun hcovers => ?_
  obtain ⟨m, hm, -⟩ := h r hr hcovers
  rw [Node.parts, hleaf] at hm
  cases hm

theorem rendering_eq_woven (hfirst : n.parts.head? = n.children.head?)
    (hlast : n.parts.getLast? = n.children.getLast?) (hne : n.children ≠ []) :
    rendering text family n.span = woven text family (n.parts.map (·.span)) := by
  obtain ⟨first, hhead⟩ := Option.isSome_iff_exists.mp (List.isSome_head?.mpr hne)
  obtain ⟨last, hback⟩ := Option.isSome_iff_exists.mp (List.getLast?_isSome.mpr hne)
  change rendering text family ⟨n.span.start, n.span.stop⟩ = _
  refine hneat.rendering_eq_woven ?_ ((hn.inOrder hne).sublist (List.filter_sublist.map _)) ?_ ?_ ?_
  · intro s hs
    obtain ⟨m, hm, rfl⟩ := List.mem_map.mp hs
    exact (hn.of_mem_children (Node.mem_parts.mp hm).left).fits
  · rw [List.head?_map, hfirst, hhead, Option.map_some, Option.map_some, hn.start_of_head? hhead]
  · rw [List.getLast?_map, hlast, hback, Option.map_some, Option.map_some,
      hn.stop_of_getLast? hback]
  · intro r hr hcovers
    obtain ⟨m, hm, -, hcovers'⟩ := h r hr hcovers
    exact ⟨m.span, List.mem_map_of_mem hm, hcovers'⟩

end Kept

namespace Java.Node

-- What stands in the text behind one part, up to the next one.
theorem Sound.dropBytes_stop {k : Node} (hm : m.Sound text) (hk : k.Sound text)
    (hle : m.span.stop ≤ k.span.start) : Text.dropBytes m.span.stop text =
      Text.slice text ⟨m.span.stop, k.span.start⟩ ++ Text.dropBytes k.span.start text :=
  (Text.slice_append_dropBytes (s := ⟨m.span.stop, k.span.start⟩)
    ⟨hle, hm.fits.stop, hk.fits.start⟩).symm

theorem Sound.dropBytes_start (hm : m.Sound text) : Text.dropBytes m.span.start text =
    Text.slice text m.span ++ Text.dropBytes m.span.stop text :=
  (Text.slice_append_dropBytes hm.fits).symm

theorem Sound.slice_leaf {kind : Kind} {role : Option Role} {span : Span}
    (h : Sound text (.leaf kind role span word)) :
    Text.slice text (Node.leaf kind role span word).span = word.toList := by
  cases h with
  | leaf spelled => exact spelled.slice

theorem Sound.word_of_isMark (h : n.Sound text) (hmark : n.isMark = true)
    (hkind : n.kind = .token word) : n.word = word := by
  cases h with
  | leaf _ _ mark => exact mark word hkind
  | branch => cases hmark

theorem children_ne_nil_of_mem_parts (h : m ∈ n.parts) : n.children ≠ [] :=
  List.ne_nil_of_mem (mem_parts.mp h).left

-- The three parts of a construct that stands in the text.
structure Triple (text : List Char) (n left mid right : Node) : Prop where
  first : left.span.start = n.span.start
  last : right.span.stop = n.span.stop
  soundLeft : left.Sound text
  soundMid : mid.Sound text
  soundRight : right.Sound text
  before : left.span.stop ≤ mid.span.start
  behind : mid.span.stop ≤ right.span.start
  gap : Blank (Text.slice text ⟨left.span.stop, mid.span.start⟩)
  gap' : Blank (Text.slice text ⟨mid.span.stop, right.span.start⟩)

theorem Sound.triple {left mid right : Node} (hn : n.Sound text)
    (hparts : n.parts = [left, mid, right]) (hfirst : n.parts.head? = n.children.head?)
    (hlast : n.parts.getLast? = n.children.getLast?) (hadjoining : Adjoining text n.parts) :
    Triple text n left mid right := by
  have hsound : ∀ m ∈ n.parts, m ∈ n.children ∧ m.Sound text := fun m hm =>
    ⟨(mem_parts.mp hm).left, hn.of_mem_children (mem_parts.mp hm).left⟩
  rw [hparts] at hfirst hlast hadjoining hsound
  have hne : n.children ≠ [] := List.ne_nil_of_mem (hsound left (by simp)).left
  have hin := (hn.inOrder hne).sublist (List.filter_sublist (p := (!·.isComment)) |>.map _)
  rw [show n.children.filter (!·.isComment) = _ from hparts] at hin
  obtain ⟨-, -, hbefore, -, hbehind, -⟩ := hin
  cases hadjoining with
  | cons_cons hgap hrest =>
    cases hrest with
    | cons_cons hgap' =>
      exact ⟨hn.start_of_head? hfirst.symm, hn.stop_of_getLast? hlast.symm, (hsound _ (by simp)).right,
        (hsound _ (by simp)).right, (hsound _ (by simp)).right, hbefore, hbehind, hgap, hgap'⟩

-- A token that has to be found again has been found.
theorem Written.stands (h : n.Written text levels) (hleaf : n.children = [])
    (hkept : n.kind.isKept = true) : Stands text n.kind n.span := by
  induction h with
  | leaf h => exact h hkept
  | branch _ hne => exact absurd hleaf hne
  | loosen _ ih => exact ih hleaf hkept
  | binary _ _ _ hparts =>
    rw [parts, hleaf] at hparts
    cases hparts

-- A construct stands in the text with its parts.
theorem Written.adjoining (h : n.Written text levels) (hne : n.children ≠ []) :
    n.parts.head? = n.children.head? ∧ n.parts.getLast? = n.children.getLast? ∧
      Adjoining text n.parts := by
  induction h with
  | leaf => exact absurd rfl hne
  | branch _ _ hfirst hlast hparts => exact ⟨hfirst, hlast, hparts⟩
  | loosen _ ih => exact ih hne
  | binary _ hfirst hlast _ hadjoining => exact ⟨hfirst, hlast, hadjoining⟩

theorem Written.of_mem_parts (h : n.Written text levels) (hkind : n.kind ≠ .binaryExpression)
    (hm : m ∈ n.parts) : m.Written text Grammar.operatorLevels := by
  induction h with
  | leaf => cases hm
  | branch _ _ _ _ _ h => exact h m hm
  | loosen _ ih => exact ih hkind hm
  | binary hbinary => exact absurd hbinary hkind

-- The operands of an operation bind at least as tight as it does.
theorem Written.exists_levels {left sign right : Node} (h : n.Written text levels)
    (hkind : n.kind = .binaryExpression) (hparts : n.parts = [left, sign, right]) :
    ∃ operators tighter, operators :: tighter <:+ levels ∧ sign.word ∈ operators ∧
      sign.Written text [] ∧ left.Written text (operators :: tighter) ∧
        right.Written text tighter := by
  induction h with
  | leaf => cases hparts
  | branch hne => exact absurd hkind hne
  | loosen _ ih =>
    obtain ⟨operators, tighter, hsuffix, h⟩ := ih hkind hparts
    exact ⟨operators, tighter, hsuffix.trans (List.suffix_cons _ _), h⟩
  | binary _ _ _ hparts' _ hmem hsign hleft hright =>
    rw [hparts] at hparts'
    cases hparts'
    exact ⟨_, _, List.suffix_refl _, hmem, hsign, hleft, hright⟩

end Java.Node

-- In front of what can stand behind it, the text of a node is read as an expression.
structure Spelt (text : List Char) (family : List Replacement) (levels : List (List String))
    (n : Node) (e : Expression) : Prop where
  scans : ∀ {after : List Char}, GoesBefore (Text.dropBytes n.span.stop text) after →
    ∃ fs, Scans (rendering text family n.span) fs after ∧
      ∀ offset, Grammar.Spells levels (tokensFrom offset fs) e
  begins : ∀ {after : List Char}, GoesBefore (Text.dropBytes n.span.stop text) after →
    Begins (Text.dropBytes n.span.start text) (rendering text family n.span ++ after)

namespace Routing

variable {R : Routing}

-- The replacements in an expression whose fields are reached through the helper.
inductive Rerouted (R : Routing) (family : List Replacement) : Node → Expression → Prop
  | literal {n : Node} {v : Value} (h : n.phrase? = some (.expression (.literal v)))
    (hkept : Kept family n) : Rerouted R family n (.literal v)
  | name {n : Node} {x : String} (h : n.phrase? = some (.expression (.read (.name x))))
    (hroute : R.route? (.name x) = none) (hkept : Kept family n) :
    Rerouted R family n (.read (.name x))
  | call {n : Node} {e : Expression} {method : String} (hmethod : Nameable method)
    (he : R.delegated e = .call R.helper method)
    (hr : .ofText n.span (R.helper ++ "." ++ method ++ "()") ∈ family) : Rerouted R family n e
  | grouped {n opening inner closing : Node} {e : Expression}
    (hkind : n.kind = .parenthesizedExpression) (hparts : n.parts = [opening, inner, closing])
    (hopening : opening.phrase? = some (.mark "(")) (hclosing : closing.phrase? = some (.mark ")"))
    (hkept : Kept family n) (h : Rerouted R family inner e) : Rerouted R family n (.grouped e)
  | binary {n left sign right : Node} {o : Operator} {e e' : Expression}
    (hkind : n.kind = .binaryExpression) (hparts : n.parts = [left, sign, right])
    (hsign : sign.phrase? = some (.mark o.sign)) (hkept : Kept family n)
    (hleft : Rerouted R family left e) (hright : Rerouted R family right e') :
    Rerouted R family n (.binary o e e')

section Spelt

variable (hneat : Neat family) (hn : n.Sound text)

include hneat hn

theorem spelt_literal {v : Value} (hw : n.Written text levels)
    (h : n.phrase? = some (.expression (.literal v))) (hkept : Kept family n) :
    Spelt text family levels n (.literal v) := by
  cases Node.isRead_of_phrase? h with
  | branch h => cases h
  | leaf h =>
    cases h with
    | literal hvalue =>
      rename_i kind role span word
      have hrendering := hkept.rendering_leaf hneat hn rfl
      have hkind := isIntegerLiteralKind_of_literal? hvalue
      have hscan := (hw.stands rfl (by simp [Kind.isKept, Node.kind, hkind])).scan? hn.fits hkind
      have hnumeral := isNumeral_of_scan? hscan hkind
      have hword := hn.slice_leaf
      rw [hword] at hrendering hscan hnumeral
      refine ⟨fun {after} hafter => ?_, fun {after} hafter => ?_⟩
      · have hscan' := Number.scan?_append hscan hafter.number
        have hne : word.toList ≠ [] := by
          obtain ⟨d, v, hslice, -⟩ := hnumeral.begins
          rw [hslice]
          exact List.cons_ne_nil _ _
        rw [hrendering]
        refine ⟨_, .single hne (stepInCode_number hscan' hnumeral), fun offset => ?_⟩
        rw [tokensFrom_token, tokensFrom_nil, String.ofList_toList]
        exact Grammar.Spells.of_suffix (.literal hvalue) List.nil_suffix
      · rw [hrendering, hn.dropBytes_start, hword]
        exact .of_numeral hnumeral fun c hc => (hafter.apart c hc).left

theorem spelt_name {x : String} (hw : n.Written text levels)
    (h : n.phrase? = some (.expression (.read (.name x)))) (hkept : Kept family n) :
    Spelt text family levels n (.read (.name x)) := by
  cases Node.isRead_of_phrase? h with
  | branch h => cases h
  | leaf h =>
    cases h with
    | name hname =>
      have hrendering := hkept.rendering_leaf hneat hn rfl
      have hisWord := (hw.stands rfl rfl).isWord rfl
      have hword := hn.slice_leaf
      rw [hword] at hrendering hisWord
      refine ⟨fun {after} hafter => ?_, fun {after} hafter => ?_⟩
      · have hne : x.toList ≠ [] := by
          obtain ⟨d, v, hslice, -⟩ := hisWord
          rw [hslice]
          exact List.cons_ne_nil _ _
        rw [hrendering]
        refine ⟨_, .single hne (stepInCode_word hisWord fun c hc => (hafter.apart c hc).right),
          fun offset => ?_⟩
        rw [tokensFrom_token, tokensFrom_nil, String.ofList_toList]
        exact Grammar.Spells.of_suffix (.name ⟨rfl, hname⟩) List.nil_suffix
      · rw [hrendering]
        exact .of_word hisWord _ _

theorem spelt_call {method : String} (hhelper : Nameable R.helper)
    (hmethod : Nameable method)
    (hr : .ofText n.span (R.helper ++ "." ++ method ++ "()") ∈ family) :
    Spelt text family levels n (.call R.helper method) := by
  have hrendering : rendering text family n.span =
      (R.helper ++ "." ++ method ++ "()").toList := by
    have h := hneat.rendering_of_mem hr hn.fits
    simpa [shown, ofText] using h
  refine ⟨fun {after} _ => ?_, fun {after} _ => ?_⟩
  · rw [hrendering]
    obtain ⟨fs, hfs, hspells⟩ := scans_call hhelper hmethod after
    exact ⟨fs, hfs, fun offset => (hspells offset).of_suffix List.nil_suffix⟩
  · rw [hrendering]
    simp only [String.toList_append, List.append_assoc]
    exact .of_word hhelper.isWord _ _

theorem spelt_grouped {opening inner closing : Node} (hw : n.Written text levels)
    (hkind : n.kind = .parenthesizedExpression) (hparts : n.parts = [opening, inner, closing])
    (hopening : opening.phrase? = some (.mark "(")) (hclosing : closing.phrase? = some (.mark ")"))
    (hkept : Kept family n)
    (h : inner.Written text Grammar.operatorLevels →
      Spelt text family Grammar.operatorLevels inner e) :
    Spelt text family levels n (.grouped e) := by
  have hmem : ∀ {m : Node}, m ∈ [opening, inner, closing] → m ∈ n.parts := fun hm => hparts ▸ hm
  have hne := Node.children_ne_nil_of_mem_parts (hmem List.mem_cons_self)
  obtain ⟨hfirst, hlast, hadjoining⟩ := hw.adjoining hne
  have ht := hn.triple hparts hfirst hlast hadjoining
  have hrendering := hkept.rendering_eq_woven hneat hn hfirst hlast hne
  rw [hparts] at hrendering
  simp only [List.map_cons, List.map_nil, woven,
    hkept.rendering_mark hneat hn (hmem (by simp)) hopening,
    hkept.rendering_mark hneat hn (hmem (by simp)) hclosing] at hrendering
  obtain ⟨hscans, hbegins⟩ := h (hw.of_mem_parts (by simp [hkind]) (hmem (by simp)))
  -- Behind the inner expression the parenthesis is closed.
  have hbehind : ∀ after, GoesBefore (Text.dropBytes inner.span.stop text)
      (Text.slice text ⟨inner.span.stop, closing.span.start⟩ ++ ")".toList ++ after) := by
    intro after
    obtain ⟨hmark, hkind⟩ := Node.of_phrase?_mark hclosing
    rw [ht.soundMid.dropBytes_stop ht.soundRight ht.behind, ht.soundRight.dropBytes_start,
      ht.soundRight.slice_of_isMark hmark hkind, List.append_assoc]
    exact .of_closing ht.gap' (by decide) _ _
  refine ⟨fun {after} _ => ?_, fun {after} _ => ?_⟩
  · obtain ⟨fs, hfs, hspells⟩ := hscans (hbehind after)
    have hright := (hbegins (hbehind after)).isGap
    rw [← List.append_assoc] at hright
    obtain ⟨gs, hgs, hnone⟩ := ht.gap.scans hright
    obtain ⟨gs', hgs', hnone'⟩ := ht.gap'.scans <|
        show ∀ c ∈ ([')'] ++ after).head?, isGap c = false from fun c hc => by
      obtain rfl := Option.some.inj hc
      rfl
    have hall := (scans_parenthesis _).append
      (hgs.append (hfs.append (hgs'.append (scans_closing after))))
    refine ⟨_, by simpa [hrendering] using hall, fun offset => ?_⟩
    simp only [tokensFrom_append, tokensFrom_token, tokensFrom_nil, hnone, hnone', List.nil_append]
    exact Grammar.Spells.of_suffix (.grouped rfl (hspells _) rfl) List.nil_suffix
  · rw [hrendering]
    exact .of_parenthesis _ _

theorem spelt_binary {left sign right : Node} {o : Operator} {e' : Expression}
    (hw : n.Written text levels) (hkind : n.kind = .binaryExpression)
    (hparts : n.parts = [left, sign, right]) (hsign : sign.phrase? = some (.mark o.sign))
    (hkept : Kept family n)
    (hleft : ∀ {levels}, left.Written text levels → Spelt text family levels left e)
    (hright : ∀ {levels}, right.Written text levels → Spelt text family levels right e') :
    Spelt text family levels n (.binary o e e') := by
  have hmem : ∀ {m : Node}, m ∈ [left, sign, right] → m ∈ n.parts := fun hm => hparts ▸ hm
  have hne := Node.children_ne_nil_of_mem_parts (hmem List.mem_cons_self)
  obtain ⟨hfirst, hlast, hadjoining⟩ := hw.adjoining hne
  have ht := hn.triple hparts hfirst hlast hadjoining
  obtain ⟨operators, tighter, hsuffix, hoperator, hwsign, hwleft, hwright⟩ :=
    hw.exists_levels hkind hparts
  obtain ⟨hmark, hsignKind⟩ := Node.of_phrase?_mark hsign
  have hslice := ht.soundMid.slice_of_isMark hmark hsignKind
  rw [ht.soundMid.word_of_isMark hmark hsignKind] at hoperator
  have hrendering := hkept.rendering_eq_woven hneat hn hfirst hlast hne
  rw [hparts] at hrendering
  simp only [List.map_cons, List.map_nil, woven,
    hkept.rendering_mark hneat hn (hmem (by simp)) hsign] at hrendering
  obtain ⟨hscans, hbegins⟩ := hleft hwleft
  obtain ⟨hscans', hbegins'⟩ := hright hwright
  rw [ht.last] at hscans' hbegins'
  -- What stands behind the left operand is the operator and the right operand.
  have hbehind : ∀ {after}, GoesBefore (Text.dropBytes n.span.stop text) after →
      GoesBefore (Text.dropBytes left.span.stop text)
        (Text.slice text ⟨left.span.stop, sign.span.start⟩ ++ (o.sign.toList ++
          (Text.slice text ⟨sign.span.stop, right.span.start⟩ ++
            (rendering text family right.span ++ after)))) := by
    intro after hafter
    rw [ht.soundLeft.dropBytes_stop ht.soundMid ht.before, ht.soundMid.dropBytes_start, hslice,
      ht.soundMid.dropBytes_stop ht.soundRight ht.behind]
    exact .of_operator o ht.gap ht.gap' (hbegins' hafter)
  have hslash : o.sign = "/" → (Text.slice text ⟨sign.span.stop, right.span.start⟩ ++
      Text.dropBytes right.span.start text).head? ≠ some '/' := by
    intro ho
    rw [← ht.soundMid.dropBytes_stop ht.soundRight ht.behind]
    refine (hwsign.stands (Site.children_of_isMark hmark) ?_).not_slash ht.soundMid.fits ?_
    · rw [hsignKind, ho]
      rfl
    · rw [hslice, ho]
      rfl
  refine ⟨fun {after} hafter => ?_, fun {after} hafter => ?_⟩
  · obtain ⟨fl, hfl, hspells⟩ := hscans (hbehind hafter)
    obtain ⟨fr, hfr, hspells'⟩ := hscans' hafter
    obtain ⟨fo, hfo, ho⟩ := o.scans ht.gap' (hbegins' hafter) hslash
    have hsolid : ∀ c ∈ (o.sign.toList ++ Text.slice text ⟨sign.span.stop, right.span.start⟩ ++
        rendering text family right.span ++ after).head?, isGap c = false := by
      intro c hc
      have hsigns : ∀ o : Operator, o.sign.toList.head?.all (!isGap ·) = true ∧
          o.sign.toList ≠ [] := by
        intro o
        cases o <;> decide
      obtain ⟨hhead, hne⟩ := hsigns o
      rw [List.append_assoc, List.append_assoc, List.head?_append_of_ne_nil _ hne] at hc
      rw [Option.mem_def.mp hc] at hhead
      simpa using hhead
    obtain ⟨gs, hgs, hnone⟩ := ht.gap.scans hsolid
    have hfl' := Scans.append (by simpa using hfl) (hgs.append (hfo.append hfr))
    refine ⟨_, by simpa [hrendering] using hfl', fun offset => ?_⟩
    simp only [tokensFrom_append, hnone, List.nil_append]
    rw [← List.append_assoc]
    exact (Grammar.Spells.binary (hspells _) (ho _) hoperator (hspells' _)).of_suffix hsuffix
  · have h := hbegins (hbehind hafter)
    rw [ht.first] at h
    simpa [hrendering] using h

end Spelt

-- What comes out of the replacements is the expression with its fields reached through the helper.
theorem Rerouted.spelt (hneat : Neat family) (hhelper : Nameable R.helper)
    (h : Rerouted R family n e) (hn : n.Sound text) (hw : n.Written text levels) :
    Spelt text family levels n (R.delegated e) := by
  induction h generalizing levels with
  | literal h hkept => exact spelt_literal hneat hn hw h hkept
  | name h hroute hkept =>
    rw [delegated, hroute]
    exact spelt_name hneat hn hw h hkept
  | call hmethod he hr =>
    rw [he]
    exact spelt_call hneat hn hhelper hmethod hr
  | @grouped n opening inner closing e hkind hparts hopening hclosing hkept _ ih =>
    have hmem : inner ∈ n.children := (Node.mem_parts.mp (hparts ▸ by simp)).left
    exact spelt_grouped hneat hn hw hkind hparts hopening hclosing hkept
      (ih (hn.of_mem_children hmem))
  | @binary n left sign right o e e' hkind hparts hsign hkept _ _ ihl ihr =>
    have hleft : left ∈ n.children := (Node.mem_parts.mp (hparts ▸ by simp)).left
    have hright : right ∈ n.children := (Node.mem_parts.mp (hparts ▸ by simp)).left
    exact spelt_binary hneat hn hw hkind hparts hsign hkept (ihl (hn.of_mem_children hleft))
      (ihr (hn.of_mem_children hright))

end Routing

end ClassSplit
