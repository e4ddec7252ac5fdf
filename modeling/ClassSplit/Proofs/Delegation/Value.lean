import ClassSplit.Proofs.Delegation.Accounts
import ClassSplit.Proofs.Delegation.Failure

/-!
Assignments whose value is used. A call of a setter has no value, so that it must not take the place
of an assignment, an increment or a decrement whose value is used. Whether it is, is judged by the
construct next to the expression. That is enough except for the cases of a switch with an arrow,
which look like statements even where the value of the switch is used, for a lambda whose target is
judged by its name, and for a comment in front of an operand, behind which the field is not found.
Main statements: `fails_of_used` and `not_forall_fails_of_used`.
-/

namespace ClassSplit

open Java

namespace Java.Site

-- Whether a construct of a kind has a statement at a role.
def holdsStatement (kind : Kind) (role : Option Role) : Bool :=
  match kind with
  | .program | .block | .constructorBody | .switchBlockStatementGroup | .labeledStatement => true
  | .ifStatement => role = some .consequence || role = some .alternative
  | .whileStatement | .doStatement | .forStatement | .enhancedForStatement => role = some .body
  | _ => false

-- The expression statement is that of a case of a switch with an arrow.
inductive IsRule (statement : Site) : Site → Prop
  | intro {rule block switch : Site} (rule_eq : statement.parent? = some rule)
      (isRule : rule.kind = .switchRule) (block_eq : rule.parent? = some block)
      (switch_eq : block.parent? = some switch) : IsRule statement switch

-- Where the value of an expression is not used:
-- 1. in an expression statement by itself
-- 2. in a case with an arrow of a switch whose value is not used
-- 3. as a switch that is a statement
-- 4. in the head of a loop, before the first and after each pass
-- 5. as the body of a lambda whose target has no result, which the tree does not show
inductive Discarded (void : Site → Prop) : Site → Prop
  | statement {site around : Site} (parent : site.parent? = some around)
      (kind : around.kind = .expressionStatement)
      (noRule : ∀ rule, around.parent? = some rule → rule.kind ≠ .switchRule) :
      Discarded void site
  | rule {site around switch : Site} (parent : site.parent? = some around)
      (kind : around.kind = .expressionStatement) (isRule : IsRule around switch)
      (discarded : Discarded void switch) : Discarded void site
  | switch {site around : Site} (isSwitch : site.kind = .switchExpression)
      (parent : site.parent? = some around)
      (holds : holdsStatement around.kind site.role = true) : Discarded void site
  | loop {site around : Site} (parent : site.parent? = some around)
      (kind : around.kind = .forStatement)
      (role : site.role = some .init ∨ site.role = some .update) : Discarded void site
  | lambda {site around : Site} (parent : site.parent? = some around)
      (kind : around.kind = .lambdaExpression) (role : site.role = some .body)
      (isVoid : void around) : Discarded void site

theorem Discarded.kind_of_parent {void : Site → Prop} {site around : Site}
    (h : site.Discarded void) (hparent : site.parent? = some around) :
    around.kind = .expressionStatement ∨ holdsStatement around.kind site.role = true ∨
      around.kind = .forStatement ∨ around.kind = .lambdaExpression := by
  cases h with
  | statement parent kind =>
    cases hparent.symm.trans parent
    exact .inl kind
  | rule parent kind =>
    cases hparent.symm.trans parent
    exact .inl kind
  | switch _ parent holds =>
    cases hparent.symm.trans parent
    exact .inr (.inl holds)
  | loop parent kind =>
    cases hparent.symm.trans parent
    exact .inr (.inr (.inl kind))
  | lambda parent kind =>
    cases hparent.symm.trans parent
    exact .inr (.inr (.inr kind))

end Java.Site

namespace JavaSource

variable {s : JavaSource} {void : Site → Prop} {site : Site}

-- Where the construct next to an expression tells whether its value is used.
structure Judged (s : JavaSource) (void : Site → Prop) (site : Site) : Prop where
  noRule : ∀ statement rule, site.parent? = some statement →
    statement.kind = .expressionStatement → statement.parent? = some rule → rule.kind ≠ .switchRule
  lambda : ∀ lambda, site.parent? = some lambda → s.discardsResult lambda = true → void lambda

theorem discardsValue_eq_false (hjudged : s.Judged void site) (hused : ¬site.Discarded void) :
    s.discardsValue site = false := by
  rw [← Bool.not_eq_true]
  intro hdiscards
  rw [discardsValue] at hdiscards
  split at hdiscards
  case h_1 => cases hdiscards
  case h_2 around hparent =>
    split at hdiscards
    case h_1 hkind =>
      exact hused (.statement hparent hkind fun rule => hjudged.noRule around rule hparent hkind)
    case h_2 hkind =>
      rw [Bool.or_eq_true, decide_eq_true_eq, decide_eq_true_eq] at hdiscards
      exact hused (.loop hparent hkind hdiscards.symm)
    case h_3 hkind =>
      rw [Bool.and_eq_true, decide_eq_true_eq] at hdiscards
      exact hused (.lambda hparent hkind hdiscards.left (hjudged.lambda around hparent hdiscards.right))
    case h_4 => cases hdiscards

end JavaSource

namespace Delegation

variable {d : Delegation} {source : String} {void : Site → Prop} {body site t : Site} {f : Field}
  {accessors : Accessors} {e : ExtractionError}

-- A site of the class that is still there when bodies of methods and declarations of fields are
-- gone.
def Remains (d : Delegation) (body site : Site) : Prop :=
  d.source.classBody? = some body ∧ ∃ removals, d.fieldRemovals = .ok removals ∧
    site ∈ remaining body (d.methods.filterMap (·.body) ++ removals.gone)

-- No comment stands in front of the operand of an increment or a decrement.
def BeginsWithOperand (site : Site) : Prop :=
  site.kind = .updateExpression → ∀ n, site.node.namedChildren.head? = some n → n.isComment = false

-- An assignment, or an increment or a decrement for which there are no methods, of an instance field
-- that moves.
structure Stores (d : Delegation) (site t : Site) (f : Field) (accessors : Accessors) : Prop where
  operand : operand? site = some t
  moved : d.movedInstance? t = some (f, accessors)
  noMethods : site.kind = .assignmentExpression ∨ accessors.increments = none

theorem target?_eq_operand? (h : BeginsWithOperand site) : target? site = operand? site := by
  cases hkind : site.kind
  case updateExpression =>
    rw [target?, operand?, hkind]
    refine congrArg (Option.map insideParentheses) ?_
    cases hnamed : site.node.namedChildren with
    | nil => simp [Site.namedChildren, hnamed]
    | cons n ns =>
      have hplain : n.isComment = false := h hkind n (by rw [hnamed]; rfl)
      simp [Site.namedChildren, hnamed, Site.below, hplain]
  all_goals rw [target?, operand?, hkind]

theorem exists_error_of_stores (h : d.Stores site t f accessors) (hfirst : BeginsWithOperand site)
    (hused : d.source.discardsValue site = false) : ∃ e, d.changeReplacements site = .error e := by
  have htarget : (target? site).bind d.movedInstance? = some (f, accessors) := by
    rw [target?_eq_operand? hfirst, h.operand, Option.bind_some, h.moved]
  rw [changeReplacements, htarget]
  dsimp only
  split
  case isTrue =>
    rw [assignmentReplacements, hused]
    exact ⟨_, rfl⟩
  case isFalse hkind =>
    rw [updateReplacements, h.noMethods.resolve_left hkind]
    cases d.needHelper with
    | error e => exact ⟨e, rfl⟩
    | ok helper =>
      cases accessors.setter with
      | none => exact ⟨_, rfl⟩
      | some setter =>
        simp only [hused]
        exact ⟨_, rfl⟩

theorem Remains.exists_assembled {p : Patch} (hsite : d.Remains body site) (hd : d.OfSource source)
    (hp : d.patch = .ok p) : ∃ stubs removals shared deleted references,
      d.Assembled body p stubs removals shared deleted references ∧
        site ∈ remaining body (stubs.map (·.span) ++ removals.gone) := by
  obtain ⟨hbody, removals, hremovals, hsite⟩ := hsite
  obtain ⟨-, body', stubs, removals', shared, deleted, references, h⟩ :=
    Delegation.exists_assembled hd hp
  obtain rfl : body' = body := Option.some.inj (h.primary.found.symm.trans hbody)
  obtain rfl : removals' = removals := Except.ok.inj (h.found.symm.trans hremovals)
  rw [← map_span_eq_of_forall₂ h.bodies] at hsite
  exact ⟨stubs, removals', shared, deleted, references, h, hsite⟩

-- A patch needs the replacements of everything that remains.
theorem exists_error_of_remains (hd : d.OfSource source) (hsite : d.Remains body site)
    (he : d.changeReplacements site = .error e) : ∃ e, d.patch = .error e := by
  cases hpatch : d.patch with
  | error e => exact ⟨e, rfl⟩
  | ok p =>
    exfalso
    obtain ⟨stubs, removals, shared, deleted, references, h, hsite⟩ :=
      hsite.exists_assembled hd hpatch
    obtain ⟨rss, -, hrss⟩ := rewriting_of_referenceReplacements h.primary h.referred
    obtain ⟨-, rs, -, -, -, -, -, hrs, -⟩ := exists_of_mem_forall₂ hrss hsite
    rw [siteReplacements, he] at hrs
    cases hrs

-- Where the value of a change is used, there is no patch. Apart from that, a helper field may be
-- missing or a method may have no body.
theorem fails_of_used (hd : d.OfSource source) (hsite : d.Remains body site)
    (hstores : d.Stores site t f accessors) (hused : ¬site.Discarded void)
    (hjudged : d.source.Judged void site) (hfirst : BeginsWithOperand site) :
    ∃ e, d.patch = .error e ∧ (d.Equipped →
      e.isUnsupported = true ∨ ∃ m ∈ d.methods, m.body = none ∧ e = .missingBody m.signature) := by
  have hdiscards := JavaSource.discardsValue_eq_false hjudged hused
  obtain ⟨e, he⟩ := exists_error_of_stores hstores hfirst hdiscards
  obtain ⟨e, hpatch⟩ := exists_error_of_remains hd hsite he
  refine ⟨e, hpatch, fun hequipped => failure_of_patchedSource hd hequipped ?_⟩
  rw [patchedSource, hpatch]
  rfl

-- A class of which all fields move.
def fieldsMoved (increments : Option IncrementNames) (s : JavaSource) : Delegation where
  source := s
  newClass := "B"
  helper := some "b"
  methods := []
  fields := fieldsOfList (s.model.fields.map fun f => ⟨f, some ⟨"getX", some "setX", increments⟩⟩)
  indent := "    "

theorem ofSource_fieldsMoved {increments : Option IncrementNames} {s : JavaSource}
    (h : JavaSource.parse source none = .ok s) : (fieldsMoved increments s).OfSource source := by
  refine ⟨⟨none, h⟩, by simp [fieldsMoved], _, ?_, rfl⟩
  intro f hf
  obtain ⟨field, hfield, rfl⟩ := List.mem_map.mp hf
  exact hfield

theorem equipped_fieldsMoved {increments : Option IncrementNames} {s : JavaSource} :
    (fieldsMoved increments s).Equipped :=
  ⟨fun _ _ _ => rfl, fun _ _ _ => rfl⟩

-- A change that remains passes a test together with the methods of the field.
def changeRemains (d : Delegation) (test : Site → Accessors → Bool) : Bool :=
  d.source.classBody?.any fun body => d.fieldRemovals.toOption.any fun removals =>
    (remaining body (d.methods.filterMap (·.body) ++ removals.gone)).any fun site =>
      (operand? site).any fun t => (d.movedInstance? t).any fun moved => test site moved.2

theorem exists_change_of_changeRemains {test : Site → Accessors → Bool}
    (h : changeRemains d test = true) :
    ∃ body site t f accessors, d.Remains body site ∧ operand? site = some t ∧
      d.movedInstance? t = some (f, accessors) ∧ test site accessors = true := by
  simp only [changeRemains, Option.any_eq_true, List.any_eq_true] at h
  obtain ⟨body, hbody, removals, hremovals, site, hsite, t, hoperand, ⟨f, accessors⟩, hmoved,
    htest⟩ := h
  have hremovals : d.fieldRemovals = .ok removals := by
    cases hresult : d.fieldRemovals with
    | error e => rw [hresult] at hremovals; cases hremovals
    | ok found => rw [hresult] at hremovals; exact congrArg _ (Option.some.inj hremovals)
  exact ⟨body, site, t, f, accessors, ⟨hbody, removals, hremovals, hsite⟩, hoperand, hmoved, htest⟩

-- An assignment has a construct of a kind around it.
def assignsBelow (test : Site → Bool) (site : Site) : Bool :=
  site.kind = .assignmentExpression && site.parent?.any test

theorem exists_stores {increments : Option IncrementNames} {s : JavaSource} {test : Site → Bool}
    (h : changeRemains (fieldsMoved increments s) (fun site _ => assignsBelow test site) = true) :
    ∃ body site around t f accessors, (fieldsMoved increments s).Remains body site ∧
      (fieldsMoved increments s).Stores site t f accessors ∧ site.kind = .assignmentExpression ∧
        site.parent? = some around ∧ test around = true := by
  obtain ⟨body, site, t, f, accessors, hremains, hoperand, hmoved, htest⟩ :=
    exists_change_of_changeRemains h
  simp only [assignsBelow, Bool.and_eq_true, decide_eq_true_eq, Option.any_eq_true] at htest
  obtain ⟨hkind, around, haround, htest⟩ := htest
  exact ⟨body, site, around, t, f, accessors, hremains, ⟨hoperand, hmoved, .inl hkind⟩, hkind,
    haround, htest⟩

def returnSource : String := "class A\x7bint x;int m()\x7breturn x=1;\x7d\x7d"

theorem fails_of_used_return : ∃ s body site t f accessors,
    JavaSource.parse returnSource none = .ok s ∧ (fieldsMoved none s).Remains body site ∧
      (fieldsMoved none s).Stores site t f accessors ∧ ¬site.Discarded (fun _ => True) ∧
        ∃ e, (fieldsMoved none s).patch = .error e ∧ e.isUnsupported = true := by
  obtain ⟨s, hparse, hcheck⟩ := JavaSource.exists_parse_of_check returnSource
    (fun s => changeRemains (fieldsMoved none s) fun site _ =>
      assignsBelow (·.kind = .returnStatement) site) (by decide +kernel)
  obtain ⟨body, site, around, t, f, accessors, hremains, hstores, hkind, hparent, hreturn⟩ :=
    exists_stores hcheck
  rw [decide_eq_true_eq] at hreturn
  have hused : ¬site.Discarded (fun _ => True) := by
    intro h
    have := h.kind_of_parent hparent
    simp [hreturn, Site.holdsStatement] at this
  have hjudged : (fieldsMoved none s).source.Judged (fun _ => True) site := by
    refine ⟨?_, fun _ _ _ => trivial⟩
    rintro statement rule hstatement hexpression
    cases hparent.symm.trans hstatement
    rw [hreturn] at hexpression
    cases hexpression
  have hfirst : BeginsWithOperand site := by
    intro hupdate
    rw [hkind] at hupdate
    cases hupdate
  obtain ⟨e, hpatch, hcause⟩ :=
    fails_of_used (ofSource_fieldsMoved hparse) hremains hstores hused hjudged hfirst
  obtain hunsupported | ⟨m, hm, -⟩ := hcause equipped_fieldsMoved
  · exact ⟨s, body, site, t, f, accessors, hparse, hremains, hstores, hused, e, hpatch,
      hunsupported⟩
  · cases hm

def ruleSource : String :=
  "class A\x7bboolean x;boolean m(int k)\x7bboolean y=switch(k)\x7bcase 1->x=true;default->false;"
    ++ "\x7d;return y;\x7d\x7d"

-- Whether a statement is that of a case of a switch whose value initializes a variable.
def isRuleOfInitializer (statement : Site) : Bool :=
  statement.kind = .expressionStatement && statement.parent?.any fun rule =>
    rule.kind = .switchRule && rule.parent?.any fun block => block.parent?.any fun switch =>
      switch.kind = .switchExpression && switch.parent?.any (·.kind = .variableDeclarator)

theorem not_discarded_of_isRuleOfInitializer {around : Site} (hparent : site.parent? = some around)
    (hkind : site.kind = .assignmentExpression) (h : isRuleOfInitializer around = true) :
    ¬site.Discarded void := by
  simp only [isRuleOfInitializer, Option.any_eq_true, Bool.and_eq_true, decide_eq_true_eq] at h
  obtain ⟨hstatement, rule, hrule, hisRule, block, hblock, switch, hswitch, hisSwitch, declarator,
    hdeclarator, hvariable⟩ := h
  intro hdiscarded
  cases hdiscarded with
  | statement parent kind noRule =>
    cases hparent.symm.trans parent
    exact noRule rule hrule hisRule
  | rule parent kind isRule discarded =>
    cases hparent.symm.trans parent
    obtain ⟨rule_eq, -, block_eq, switch_eq⟩ := isRule
    cases hrule.symm.trans rule_eq
    cases hblock.symm.trans block_eq
    cases hswitch.symm.trans switch_eq
    have := discarded.kind_of_parent hdeclarator
    simp [hvariable, Site.holdsStatement] at this
  | switch isSwitch =>
    rw [hkind] at isSwitch
    cases isSwitch
  | loop parent kind =>
    cases hparent.symm.trans parent
    rw [hstatement] at kind
    cases kind
  | lambda parent kind =>
    cases hparent.symm.trans parent
    rw [hstatement] at kind
    cases kind

-- The value of the switch is used, and with it that of the assignment.
theorem not_forall_fails_of_used :
    ¬∀ (source : String) (d : Delegation) (void : Site → Prop) (body site t : Site) (f : Field)
      (accessors : Accessors), d.OfSource source → d.Remains body site →
        d.Stores site t f accessors → ¬site.Discarded void → ∃ e, d.patch = .error e := by
  intro h
  obtain ⟨s, hparse, hcheck⟩ := JavaSource.exists_parse_of_check ruleSource
    (fun s => changeRemains (fieldsMoved none s) (fun site _ => assignsBelow isRuleOfInitializer site)
      && (fieldsMoved none s).patch.toOption.isSome) (by decide +kernel)
  rw [Bool.and_eq_true] at hcheck
  obtain ⟨body, site, around, t, f, accessors, hremains, hstores, hkind, hparent, hrule⟩ :=
    exists_stores hcheck.left
  obtain ⟨e, he⟩ := h ruleSource (fieldsMoved none s) (fun _ => True) body site t f accessors
    (ofSource_fieldsMoved hparse) hremains hstores
    (not_discarded_of_isRuleOfInitializer hparent hkind hrule)
  rw [he] at hcheck
  cases hcheck.right

end Delegation

end ClassSplit
