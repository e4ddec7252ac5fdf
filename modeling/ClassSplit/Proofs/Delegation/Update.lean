import ClassSplit.Proofs.Delegation.Value

/-!
Increments and decrements of fields for which there are methods. The whole expression is replaced by
a call of the method that does the same, whatever parentheses and comments stand around the field.
Two things can go wrong: the sign is looked for in the whole text, so that a decrement with `++` in a
comment is taken for an increment, and behind a comment in front of its operand no field is found.
Main statements: `call_of_steps` and `not_forall_call_of_steps`.
-/

namespace ClassSplit

open Java

namespace Java.Node

variable {text : List Char} {n c : Node} {ns : List Node} {isIncrement isFront : Bool}

-- The text of a child is a part of the text of the construct.
theorem Sound.slice_infix (h : n.Sound text) (hc : c ∈ n.children) :
    Text.slice text c.span <:+: Text.slice text n.span := by
  have hfits := (h.of_mem_children hc).fits
  obtain ⟨hstart, hstop⟩ := Span.covers_iff.mp (h.covers_child hc)
  refine ⟨Text.slice text ⟨n.span.start, c.span.start⟩, Text.slice text ⟨c.span.stop, n.span.stop⟩, ?_⟩
  have hfront := Text.slice_append hstart hfits.ordered h.fits.start hfits.start hfits.stop
  have hwhole := Text.slice_append (Nat.le_trans hstart hfits.ordered) hstop h.fits.start hfits.stop
    h.fits.stop
  exact (congrArg (· ++ _) hfront).trans hwhole

namespace Signed

-- The side of the sign is told by the first child.
theorem any_head? (h : Signed ns isIncrement isFront) : ns.head?.any (!·.isNamed) = isFront := by
  obtain ⟨⟨sign, hsign, -, hkind⟩, operand, hoperand, hnamed⟩ := h
  cases isFront with
  | true =>
    have hhead : ns.head? = some sign := hsign
    rw [hhead, Option.any_some, isNamed, hkind]
    rfl
  | false =>
    have hhead : ns.head? = some operand := hoperand
    rw [hhead, Option.any_some, isNamed, Kind.isNamed_of_isOperand hnamed]
    rfl

theorem occursIn_slice (h : n.Sound text) (hsigned : Signed n.children true isFront) :
    Text.occursIn ['+', '+'] (Text.slice text n.span) = true := by
  obtain ⟨sign, hmem, hmark, hkind⟩ := hsigned.exists_mem
  have hslice : Text.slice text sign.span = ['+', '+'] :=
    (h.of_mem_children hmem).slice_of_isMark hmark hkind
  exact Text.occursIn_iff.mpr (hslice ▸ h.slice_infix hmem)

end Signed

end Java.Node

namespace Delegation

variable {d : Delegation} {source : String} {body site t : Site} {f : Field}
  {names : IncrementNames} {helper : String}

-- An increment or a decrement of an instance field that moves and for which there are methods.
structure Steps (d : Delegation) (site t : Site) (f : Field) (names : IncrementNames) : Prop where
  kind : site.kind = .updateExpression
  operand : operand? site = some t
  moved : ∃ accessors, d.movedInstance? t = some (f, accessors) ∧ accessors.increments = some names

-- The text of a decrement does not have the sign of an increment, which a comment can have.
def Legible (s : JavaSource) (site : Site) : Prop :=
  ∀ isFront, Node.Signed site.node.children false isFront →
    Text.occursIn ['+', '+'] (s.textAt site).toList = false

-- The call of the method for a sign and its side.
def stepCall (helper : String) (names : IncrementNames) (site : Site) (isIncrement isFront : Bool) :
    Replacement :=
  .ofText site.span (helper ++ "." ++ updateName names isIncrement isFront ++ "()")

theorem Steps.target_bind (h : d.Steps site t f names) (hfirst : BeginsWithOperand site) :
    ∃ accessors, (target? site).bind d.movedInstance? = some (f, accessors) ∧
      accessors.increments = some names := by
  obtain ⟨accessors, hmoved, hnames⟩ := h.moved
  exact ⟨accessors, by rw [target?_eq_operand? hfirst, h.operand, Option.bind_some, hmoved], hnames⟩

theorem Steps.exists_signed {text : List Char} (h : d.Steps site t f names)
    (hsound : site.node.Sound text) :
    ∃ isIncrement isFront, Node.Signed site.node.children isIncrement isFront := by
  have hkind : site.node.kind = .updateExpression := h.kind
  have hshape := hsound.shape (hsound.children_ne_nil (by rw [hkind]))
  rw [hkind] at hshape
  exact hshape

-- The sign that is read is the sign that stands there.
theorem occursIn_textAt {s : JavaSource} {isIncrement isFront : Bool} (h : site.node.Sound s.text)
    (hsigned : Node.Signed site.node.children isIncrement isFront) (hlegible : Legible s site) :
    Text.occursIn ['+', '+'] (s.textAt site).toList = isIncrement := by
  cases isIncrement with
  | false => exact hlegible isFront hsigned
  | true =>
    rw [JavaSource.textAt, JavaSource.toList_textOf h]
    exact hsigned.occursIn_slice h

-- The side of the sign is right in any case, the sign itself where it is legible.
theorem changeReplacements_of_steps {isIncrement isFront : Bool} (h : d.Steps site t f names)
    (hsigned : Node.Signed site.node.children isIncrement isFront)
    (hfirst : BeginsWithOperand site) (hhelper : d.helper = some helper) :
    d.changeReplacements site = .ok [stepCall helper names site
      (Text.occursIn ['+', '+'] (d.source.textAt site).toList) isFront] := by
  obtain ⟨accessors, htarget, hnames⟩ := h.target_bind hfirst
  have hneed : d.needHelper = .ok helper := by rw [needHelper, hhelper]
  rw [changeReplacements, htarget]
  dsimp only
  rw [if_neg (by simp [h.kind]), updateReplacements, hneed, hnames, hsigned.any_head?]
  rfl

-- In a patch the replacement of an expression that changes a field occurs once, and nothing else is
-- put in its place or in that of the field.
theorem exists_unique_of_changeReplacements {p : Patch} {r : Replacement} (hd : d.OfSource source)
    (hp : d.patch = .ok p) (hsite : d.Remains body site)
    (htarget : d.changedReference? site = some t) (hr : d.changeReplacements site = .ok [r]) :
    ∃ before after, p.replacements = before ++ r :: after ∧
      ∀ s ∈ before ++ after, ¬Concerns body t s := by
  obtain ⟨stubs, removals, shared, deleted, references, h, hsite⟩ := hsite.exists_assembled hd hp
  have hoperand := operand?_of_changedReference? htarget
  obtain ⟨before, r', after, hsplit, haccounts, hother⟩ :=
    h.exists_unique_accounts hd (h.operand_mem_remaining hd hsite hoperand)
      (isSome_movedField?_of_changedReference? htarget)
  cases haccounts with
  | read _ unchanged => exact absurd htarget (unchanged site (mem_remaining.mp hsite).left)
  | change mem target change =>
    obtain rfl := operand?_unique hoperand (operand?_of_changedReference? target)
    rw [hr] at change
    cases change
    exact ⟨before, after, hsplit, hother⟩

-- An increment or a decrement becomes a call of the method for its sign and the side on which the
-- sign stands, and in a patch nothing else is put in its place.
theorem call_of_steps (hd : d.OfSource source) (hequipped : d.Equipped)
    (hsite : d.Remains body site) (hsteps : d.Steps site t f names)
    (hfirst : BeginsWithOperand site) (hlegible : Legible d.source site) :
    ∃ helper isIncrement isFront, d.helper = some helper ∧
      Node.Signed site.node.children isIncrement isFront ∧
        d.changeReplacements site = .ok [stepCall helper names site isIncrement isFront] ∧
          ∀ p, d.patch = .ok p → ∃ before after,
            p.replacements = before ++ stepCall helper names site isIncrement isFront :: after ∧
              ∀ r ∈ before ++ after, ¬Concerns body t r := by
  obtain ⟨wanted, hparsed⟩ := hd.parsed
  obtain ⟨body', hprimary, -⟩ := JavaSource.exists_primaryBody_of_parse hparsed
  obtain rfl : body' = body := Option.some.inj (hprimary.found.symm.trans hsite.left)
  have hsound : site.node.Sound d.source.text := by
    obtain ⟨-, removals, -, hmem⟩ := hsite
    exact Site.sound_of_mem_preorder hprimary.sound (mem_remaining.mp hmem).left
  obtain ⟨accessors, hmoved, -⟩ := hsteps.moved
  obtain ⟨moved, hfield, -, haccessors⟩ := movedField?_of_movedInstance? hmoved
  obtain ⟨helper, hneed⟩ := hequipped.exists_needHelper hfield haccessors
  have hhelper := needHelper_eq_ok hneed
  obtain ⟨isIncrement, isFront, hsigned⟩ := hsteps.exists_signed hsound
  have hchange := changeReplacements_of_steps hsteps hsigned hfirst hhelper
  rw [occursIn_textAt hsound hsigned hlegible] at hchange
  have htarget : d.changedReference? site = some t :=
    changedReference?_eq_some.mpr
      ⟨by rw [target?_eq_operand? hfirst, hsteps.operand], by simp [hmoved]⟩
  exact ⟨helper, isIncrement, isFront, hhelper, hsigned, hchange, fun p hp =>
    exists_unique_of_changeReplacements hd hp hsite htarget hchange⟩

def stepNames : IncrementNames := ⟨"incX", "postIncX", "decX", "postDecX"⟩

-- The sign of a decrement stands behind the operand.
def isPostDecrement (ns : List Node) : Bool :=
  !ns.head?.any (!·.isNamed) && ns.getLast?.any (·.kind = .token "--")

theorem eq_false_of_isPostDecrement {ns : List Node} {isIncrement isFront : Bool}
    (h : isPostDecrement ns = true) (hsigned : Node.Signed ns isIncrement isFront) :
    isIncrement = false ∧ isFront = false := by
  rw [isPostDecrement, hsigned.any_head?, Bool.and_eq_true, Bool.not_eq_true', Option.any_eq_true]
    at h
  obtain ⟨rfl, last, hlast, hminus⟩ := h
  obtain ⟨sign, hsign, -, hkind⟩ := hsigned.exists_sign
  obtain rfl : last = sign := Option.some.inj (hlast.symm.trans hsign)
  rw [hkind, decide_eq_true_eq] at hminus
  cases isIncrement with
  | false => exact ⟨rfl, rfl⟩
  | true => exact absurd (Kind.token.inj hminus) (by decide)

-- A decrement of a field that moves and for which there are methods passes a test.
def decrementRemains (s : JavaSource) (test : Site → Bool) : Bool :=
  changeRemains (fieldsMoved (some stepNames) s) fun site accessors =>
    site.kind = .updateExpression && accessors.increments = some stepNames
      && isPostDecrement site.node.children && test site

theorem exists_decrement {s : JavaSource} {test : Site → Bool}
    (h : decrementRemains s test = true) :
    ∃ body site t f, (fieldsMoved (some stepNames) s).Remains body site ∧
      (fieldsMoved (some stepNames) s).Steps site t f stepNames ∧
        isPostDecrement site.node.children = true ∧ test site = true := by
  obtain ⟨body, site, t, f, accessors, hremains, hoperand, hmoved, htest⟩ :=
    exists_change_of_changeRemains h
  simp only [Bool.and_eq_true, decide_eq_true_eq] at htest
  obtain ⟨⟨⟨hkind, hnames⟩, hdecrement⟩, htest⟩ := htest
  exact ⟨body, site, t, f, hremains, ⟨hkind, hoperand, accessors, hmoved, hnames⟩, hdecrement, htest⟩

def parenthesizedSource : String := "class A\x7bint x;void m()\x7b(/*c*/x)--;\x7d\x7d"

theorem call_of_steps_parenthesized : ∃ s body site t f p before after,
    JavaSource.parse parenthesizedSource none = .ok s ∧
      (fieldsMoved (some stepNames) s).Remains body site ∧
        (fieldsMoved (some stepNames) s).Steps site t f stepNames ∧
          (fieldsMoved (some stepNames) s).patch = .ok p ∧
            p.replacements = before ++ .ofText site.span "b.postDecX()" :: after ∧
              ∀ r ∈ before ++ after, ¬Concerns body t r := by
  obtain ⟨s, hparse, hcheck⟩ := JavaSource.exists_parse_of_check parenthesizedSource
    (fun s => decrementRemains s (fun site =>
        site.node.namedChildren.head?.all (!·.isComment) &&
          !Text.occursIn ['+', '+'] (s.textAt site).toList)
      && (fieldsMoved (some stepNames) s).patch.toOption.isSome) (by decide +kernel)
  rw [Bool.and_eq_true] at hcheck
  obtain ⟨hremains, hpatched⟩ := hcheck
  obtain ⟨p, hp⟩ : ∃ p, (fieldsMoved (some stepNames) s).patch = .ok p := by
    cases hresult : (fieldsMoved (some stepNames) s).patch with
    | error e => rw [hresult] at hpatched; cases hpatched
    | ok p => exact ⟨p, rfl⟩
  obtain ⟨body, site, t, f, hremains, hsteps, hdecrement, htest⟩ := exists_decrement hremains
  simp only [Bool.and_eq_true, Bool.not_eq_true', Option.all_eq_true] at htest
  obtain ⟨helper, isIncrement, isFront, hhelper, hsigned, -, honce⟩ :=
    call_of_steps (ofSource_fieldsMoved hparse) equipped_fieldsMoved hremains hsteps
      (fun _ => htest.left) (fun _ _ => htest.right)
  obtain ⟨rfl, rfl⟩ := eq_false_of_isPostDecrement hdecrement hsigned
  obtain rfl : "b" = helper := Option.some.inj hhelper
  obtain ⟨before, after, hsplit, hother⟩ := honce p hp
  exact ⟨s, body, site, t, f, p, before, after, hparse, hremains, hsteps, hp, hsplit, hother⟩

def commentedSource : String := "class A\x7bint x;void m()\x7bx/*++*/--;\x7d\x7d"

-- The decrement becomes a call of the method for increments.
theorem not_forall_call_of_steps :
    ¬∀ (source : String) (d : Delegation) (body site t : Site) (f : Field) (names : IncrementNames),
      d.OfSource source → d.Equipped → d.Remains body site → d.Steps site t f names →
        ∃ helper isIncrement isFront, d.helper = some helper ∧
          Node.Signed site.node.children isIncrement isFront ∧
            d.changeReplacements site = .ok [stepCall helper names site isIncrement isFront] := by
  intro h
  obtain ⟨s, hparse, hcheck⟩ := JavaSource.exists_parse_of_check commentedSource
    (fun s => decrementRemains s fun site =>
      ((fieldsMoved (some stepNames) s).changeReplacements site).toOption ≠
        some [stepCall "b" stepNames site false false]) (by decide +kernel)
  obtain ⟨body, site, t, f, hremains, hsteps, hdecrement, htest⟩ := exists_decrement hcheck
  obtain ⟨helper, isIncrement, isFront, hhelper, hsigned, hchange⟩ :=
    h commentedSource _ body site t f stepNames (ofSource_fieldsMoved hparse) equipped_fieldsMoved
      hremains hsteps
  obtain ⟨rfl, rfl⟩ := eq_false_of_isPostDecrement hdecrement hsigned
  obtain rfl : "b" = helper := Option.some.inj hhelper
  rw [decide_eq_true_eq, hchange] at htest
  exact htest rfl

end Delegation

end ClassSplit
