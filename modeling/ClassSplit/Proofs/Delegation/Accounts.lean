import ClassSplit.Proofs.Delegation.Patch

/-!
Which replacement stands for which reference. Every reference to a moved field that remains has
exactly one replacement in the patch, that of the reference itself or that of the assignment, the
increment or the decrement that changes it, and every other character of the source is kept.
-/

namespace ClassSplit

open Java

theorem Java.Site.ancestors_below (s : Site) (n : Node) :
    (s.below n).ancestors = s :: s.ancestors := rfl

-- Parentheses do not change what is the innermost other construct around an expression.
theorem find?_ancestors_insideParentheses (site : Site) :
    (insideParentheses site).ancestors.find? (·.kind ≠ .parenthesizedExpression) =
      site.ancestors.find? (·.kind ≠ .parenthesizedExpression) := by
  induction site using Site.below_induction with
  | step site ih =>
    rw [insideParentheses]
    split
    case isFalse => rfl
    case isTrue hkind =>
      split
      case h_2 => rfl
      case h_1 inner hinner =>
        have hchild : site.below inner ∈ site.children :=
          Site.mem_children.mpr
            ⟨inner, (List.mem_filter.mp (List.mem_of_find?_eq_some hinner)).left, rfl⟩
        rw [ih _ hchild, Site.ancestors_below, List.find?_cons_of_neg (by simp [hkind])]

namespace Delegation

variable {d : Delegation} {body site c t : Site} {gone deleted : List Span} {r s : Replacement}

-- The left side of an assignment, or the operand of an increment or a decrement, without the
-- parentheses around it. Comments are no operands.
def operand? (site : Site) : Option Site :=
  match site.kind with
  | .assignmentExpression => (site.child? .left).map insideParentheses
  | .updateExpression => (site.namedChildren.find? (!·.node.isComment)).map insideParentheses
  | _ => none

theorem exists_child_of_operand? (h : operand? c = some t) :
    (c.kind = .assignmentExpression ∨ c.kind = .updateExpression) ∧
      ∃ x ∈ c.children, t = insideParentheses x := by
  rw [operand?] at h
  split at h
  case h_1 hkind =>
    obtain ⟨x, hx, rfl⟩ := Option.map_eq_some_iff.mp h
    exact ⟨.inl hkind, x, Site.mem_children_of_child? hx, rfl⟩
  case h_2 hkind =>
    obtain ⟨x, hx, rfl⟩ := Option.map_eq_some_iff.mp h
    have hnamed := List.mem_of_find?_eq_some hx
    exact ⟨.inr hkind, x, Site.mem_children_of_namedChildren hnamed, rfl⟩
  case h_3 => cases h

theorem insideParentheses_of_kind_ne (h : site.kind ≠ .parenthesizedExpression) :
    insideParentheses site = site := by
  rw [insideParentheses, if_neg h]

-- What is changed is an operand, because no comment refers to a field.
theorem operand?_of_changedReference? (h : d.changedReference? c = some t) :
    operand? c = some t := by
  have hkind := kind_of_changedReference? h
  have htarget := (changedReference?_eq_some.mp h).left
  obtain ⟨hc | hc, -⟩ := exists_child_of_target? htarget
  · rw [target?, hc] at htarget
    rw [operand?, hc]
    exact htarget
  · rw [target?, hc] at htarget
    rw [operand?, hc]
    obtain ⟨x, hx, rfl⟩ := Option.map_eq_some_iff.mp htarget
    have hcomment : x.node.isComment = false := by
      refine Bool.eq_false_iff.mpr ?_
      intro hcomment
      have hne : x.kind ≠ .parenthesizedExpression := by
        intro hparen
        rw [Node.isComment, show x.node.kind = _ from hparen] at hcomment
        cases hcomment
      rw [insideParentheses_of_kind_ne hne] at hkind
      obtain hkind | hkind := hkind
      all_goals
        rw [Node.isComment, show x.node.kind = _ from hkind] at hcomment
        cases hcomment
    cases hnamed : c.namedChildren with
    | nil =>
      rw [hnamed] at hx
      cases hx
    | cons y ys =>
      obtain rfl : y = x := by simpa [hnamed] using hx
      simp [hcomment]

theorem find?_ancestors_of_operand? (h : operand? c = some t) :
    t.ancestors.find? (·.kind ≠ .parenthesizedExpression) = some c := by
  obtain ⟨hkind, x, hx, rfl⟩ := exists_child_of_operand? h
  obtain ⟨n, -, rfl⟩ := Site.mem_children.mp hx
  rw [find?_ancestors_insideParentheses, Site.ancestors_below, List.find?_cons_of_pos]
  obtain hkind | hkind := hkind
  all_goals simp [hkind]

-- An expression is the operand of at most one other.
theorem operand?_unique {c' : Site} (h : operand? c = some t) (h' : operand? c' = some t) :
    c = c' := by
  have hc := find?_ancestors_of_operand? h
  rw [find?_ancestors_of_operand? h'] at hc
  exact (Option.some.inj hc).symm

theorem operand_mem_preorder (h : operand? c = some t) : t ∈ c.preorder := by
  obtain ⟨-, x, hx, rfl⟩ := exists_child_of_operand? h
  exact Site.mem_preorder.mpr (.inr ⟨x, hx, insideParentheses_mem_preorder x⟩)

theorem isSubject_of_operand? (h : operand? c = some t) : c.kind.isSubject = true := by
  obtain ⟨hkind, -⟩ := exists_child_of_operand? h
  obtain hkind | hkind := hkind
  all_goals rw [hkind]

-- What is around a reference that remains, remains.
theorem mem_remaining_of_operand? (hbody : body.node.Sound d.source.text)
    (hsite : site ∈ remaining body gone) (hc : c ∈ body.preorder) (h : operand? c = some site) :
    c ∈ remaining body gone := by
  refine mem_remaining.mpr ⟨hc, ?_⟩
  intro s hs
  have hremains := (mem_remaining.mp hsite).right s hs
  have hcovers := Site.covers_of_mem_preorder (Site.sound_of_mem_preorder hbody hc)
    (operand_mem_preorder h)
  refine Bool.eq_false_iff.mpr ?_
  intro hgone
  rw [Span.covers_trans hgone hcovers] at hremains
  cases hremains

theorem isSubject_of_movedField? (h : (d.movedField? site).isSome = true) :
    site.kind.isSubject = true := by
  obtain ⟨moved, hmoved⟩ := Option.isSome_iff_exists.mp h
  obtain hkind | hkind := kind_of_movedField? hmoved
  all_goals rw [hkind]

theorem isSome_movedField?_of_changedReference? (h : d.changedReference? c = some t) :
    (d.movedField? t).isSome = true := by
  obtain ⟨-, hmoved⟩ := changedReference?_eq_some.mp h
  obtain ⟨⟨f, accessors⟩, hinstance⟩ := Option.isSome_iff_exists.mp hmoved
  obtain ⟨moved, hmoved, -⟩ := movedField?_of_movedInstance? hinstance
  simp [hmoved]

-- The spans that are changed single out the references that are changed.
theorem span_mem_changedSpans (hbody : body.node.Sound d.source.text)
    (hsite : site ∈ remaining body gone) (hsubject : site.kind.isSubject = true) :
    site.span ∈ d.changedSpans (remaining body gone) ↔
      ∃ c ∈ body.preorder, d.changedReference? c = some site := by
  constructor
  case mp =>
    intro h
    obtain ⟨t, ht, hspan⟩ := List.mem_map.mp h
    obtain ⟨c, hc, htarget⟩ := List.mem_filterMap.mp ht
    have hmem := (mem_remaining.mp hc).left
    have htmem := Site.mem_preorder_trans hmem
      (operand_mem_preorder (operand?_of_changedReference? htarget))
    have htsubject := isSubject_of_movedField? (isSome_movedField?_of_changedReference? htarget)
    obtain rfl := Site.eq_of_span_eq hbody htmem (mem_remaining.mp hsite).left hspan htsubject
      hsubject
    exact ⟨c, hmem, htarget⟩
  case mpr =>
    rintro ⟨c, hc, htarget⟩
    have hremains := mem_remaining_of_operand? hbody hsite hc (operand?_of_changedReference? htarget)
    exact List.mem_map_of_mem (List.mem_filterMap.mpr ⟨c, hremains, htarget⟩)

-- A replacement of the reference, or of an expression that changes it.
def Concerns (body site : Site) (r : Replacement) : Prop :=
  r.span = site.span ∨ ∃ c ∈ body.preorder, operand? c = some site ∧ r.span = c.span

-- The replacement that a reference has: as a read, or that of the change of which it is the target.
inductive Accounts (d : Delegation) (body site : Site) : Replacement → Prop
  | read {moved : DelegatedField} {r : Replacement} (reference : d.movedField? site = some moved)
      (unchanged : ∀ c ∈ body.preorder, d.changedReference? c ≠ some site)
      (read : d.readReplacement site moved = .ok r) (span : r.span = site.span) :
      Accounts d body site r
  | change {c : Site} {r : Replacement} (mem : c ∈ body.preorder)
      (target : d.changedReference? c = some site) (change : d.changeReplacements c = .ok [r])
      (span : r.span = c.span) : Accounts d body site r

theorem accounts_of_changed (hc : c ∈ body.preorder) (htarget : d.changedReference? c = some site)
    {rs : List Replacement}
    (hrs : d.Rewriting (d.changedSpans (remaining body gone)) c rs) :
    ∃ r, rs = [r] ∧ d.Accounts body site r := by
  cases hrs with
  | change _ hchange hreplaces => exact ⟨_, rfl, .change hc htarget hchange hreplaces.span⟩
  | read reference =>
    rw [changedReference?_of_movedField? reference] at htarget
    cases htarget
  | silent noTarget =>
    rw [noTarget] at htarget
    cases htarget

section Rewriting

variable {rs : List Replacement} (hbody : body.node.Sound d.source.text)
  (hsite : site ∈ remaining body gone) (hmoved : (d.movedField? site).isSome = true)

include hbody hsite hmoved

-- The site that has the replacement of a reference is a change of it, or the reference itself if
-- there is none, and no other site has a replacement that concerns the reference.
theorem eq_of_concerns_of_changed (hc : c ∈ body.preorder)
    (htarget : d.changedReference? c = some site) (ht : t ∈ remaining body gone)
    (hrs : d.Rewriting (d.changedSpans (remaining body gone)) t rs) (hs : s ∈ rs)
    (hconcerns : Concerns body site s) : t = c := by
  have hsubject := isSubject_of_movedField? hmoved
  obtain ⟨htsubject, hreplaces, -⟩ := hrs.isSubject hs
  have htmem := (mem_remaining.mp ht).left
  have hcsite := operand?_of_changedReference? htarget
  rw [Concerns, hreplaces.span] at hconcerns
  obtain hspan | ⟨c', hc', htarget', hspan⟩ := hconcerns
  · obtain rfl := Site.eq_of_span_eq hbody htmem (mem_remaining.mp hsite).left hspan htsubject
      hsubject
    have hchanged := (span_mem_changedSpans hbody hsite hsubject).mpr ⟨c, hc, htarget⟩
    cases hrs with
    | change target =>
      obtain ⟨moved, hmoved⟩ := Option.isSome_iff_exists.mp hmoved
      rw [changedReference?_of_movedField? hmoved] at target
      cases target
    | read _ unchanged => exact absurd hchanged unchanged
    | silent => cases hs
  · rw [operand?_unique hcsite htarget']
    exact Site.eq_of_span_eq hbody htmem hc' hspan htsubject (isSubject_of_operand? htarget')

theorem accounts_of_unchanged (hnone : ∀ c ∈ body.preorder, d.changedReference? c ≠ some site)
    (hrs : d.Rewriting (d.changedSpans (remaining body gone)) site rs) :
    ∃ r, rs = [r] ∧ d.Accounts body site r := by
  cases hrs with
  | change target =>
    obtain ⟨moved, hmoved⟩ := Option.isSome_iff_exists.mp hmoved
    rw [changedReference?_of_movedField? hmoved] at target
    cases target
  | read reference _ read hreplaces => exact ⟨_, rfl, .read reference hnone read hreplaces.span⟩
  | silent _ noRead =>
    obtain hchanged | hnoField := noRead
    · obtain ⟨c, hc, htarget⟩ :=
        (span_mem_changedSpans hbody hsite (isSubject_of_movedField? hmoved)).mp hchanged
      exact absurd htarget (hnone c hc)
    · rw [hnoField] at hmoved
      cases hmoved

theorem eq_of_concerns_of_unchanged
    (hnone : ∀ c ∈ body.preorder, d.changedReference? c ≠ some site)
    (ht : t ∈ remaining body gone)
    (hrs : d.Rewriting (d.changedSpans (remaining body gone)) t rs) (hs : s ∈ rs)
    (hconcerns : Concerns body site s) : t = site := by
  have hsubject := isSubject_of_movedField? hmoved
  obtain ⟨htsubject, hreplaces, -⟩ := hrs.isSubject hs
  have htmem := (mem_remaining.mp ht).left
  rw [Concerns, hreplaces.span] at hconcerns
  obtain hspan | ⟨c', hc', htarget', hspan⟩ := hconcerns
  · exact Site.eq_of_span_eq hbody htmem (mem_remaining.mp hsite).left hspan htsubject hsubject
  · obtain rfl :=
      Site.eq_of_span_eq hbody htmem hc' hspan htsubject (isSubject_of_operand? htarget')
    cases hrs with
    | change target =>
      have htarget := operand?_of_changedReference? target
      rw [htarget', Option.some.injEq] at htarget
      exact absurd (htarget ▸ target) (hnone t htmem)
    | read reference =>
      obtain ⟨hkind, -⟩ := exists_child_of_operand? htarget'
      obtain hname | hname := kind_of_movedField? reference
      all_goals
        rw [hname] at hkind
        obtain hkind | hkind := hkind
        all_goals cases hkind
    | silent => cases hs

end Rewriting

-- A child of a member takes the whole of an expression that it takes a part of.
theorem covers_of_covers_below {member n : Node} (h : d.source.PrimaryBody body)
    (hmember : member ∈ body.node.children) (hn : n ∈ member.children)
    (hkind : member.kind.isSubject = false) (hc : c ∈ body.preorder)
    (hsubject : c.kind.isSubject = true) (ht : t ∈ c.preorder)
    (hcovers : n.span.covers t.span = true) : n.span.covers c.span = true := by
  have htlt := (Site.sound_of_mem_preorder h.sound (Site.mem_preorder_trans hc ht)).nonempty
  have hct := Site.covers_of_mem_preorder (Site.sound_of_mem_preorder h.sound hc) ht
  have hsound := (h.of_mem_children hmember).left
  -- Nothing that stands beside the child has a part in it.
  have hnot : ∀ span : Span, span.covers c.span = true → ¬n.span.Beside span := by
    intro span hspan hbeside
    have hself := hbeside.mono hcovers (Span.covers_trans hspan hct)
    exact absurd rfl (hself.ne htlt)
  obtain rfl | ⟨x, hx, hcx⟩ := Site.mem_preorder.mp hc
  · unfold Site.kind at hsubject
    rw [h.isClassBody.kind] at hsubject
    cases hsubject
  obtain ⟨k, hk, rfl⟩ := Site.mem_children.mp hx
  have hkc := Site.covers_of_mem_preorder (h.of_mem_children hk).left hcx
  obtain rfl | hbeside := h.sound.eq_or_beside hmember hk
  · obtain rfl | ⟨y, hy, hcy⟩ := Site.mem_preorder.mp hcx
    · unfold Site.kind Site.below at hsubject
      rw [hkind] at hsubject
      cases hsubject
    obtain ⟨l, hl, rfl⟩ := Site.mem_children.mp hy
    have hlc := Site.covers_of_mem_preorder (hsound.of_mem_children hl) hcy
    obtain rfl | hbeside := hsound.eq_or_beside hn hl
    · exact hlc
    · exact absurd hbeside (hnot l.span hlc)
  · exact absurd (hbeside.mono (hsound.covers_child hn) (Span.covers_refl _)) (hnot k.span hkc)

namespace Assembled

variable {source : String} {p : Patch} {stubs references : List Replacement}
  {removals : FieldRemovals} {shared : List Nat}

-- A stub, a removal or the declaration of the helper field has the span of no expression that
-- remains.
theorem span_ne (hd : d.OfSource source)
    (h : d.Assembled body p stubs removals shared deleted references)
    (hr : r ∈ stubs ++ removals.replacements ++ (d.helper.map d.helperInsertion).toList)
    (hsite : site ∈ remaining body (stubs.map (·.span) ++ removals.gone))
    (hsubject : site.kind.isSubject = true) : r.span ≠ site.span := by
  obtain ⟨hmem, hremains⟩ := mem_remaining.mp hsite
  have hgone : ∀ span ∈ stubs.map (·.span) ++ removals.gone, span ≠ site.span := by
    rintro span hspan rfl
    have hkept := hremains _ hspan
    rw [Span.covers_refl] at hkept
    cases hkept
  simp only [List.mem_append, Option.mem_toList, Option.map_eq_some_iff] at hr
  obtain (hstub | hremoval) | ⟨helper, -, rfl⟩ := hr
  · exact hgone _ (List.mem_append_left _ (List.mem_map_of_mem (f := (·.span)) hstub))
  · obtain ⟨group, declaration, hat, -, hhull, -⟩ | ⟨span, hspan, rfl⟩ :=
      h.hull_or_deletion hd hremoval
    · exact (h.assembly.nested_hull hat hhull hmem hsubject).right
    · exact hgone _ (h.assembly.gone span hspan)
  · intro heq
    have hlt : site.span.start < site.span.stop :=
      (Site.sound_of_mem_preorder h.primary.sound hmem).nonempty
    rw [← heq] at hlt
    exact Nat.lt_irrefl _ hlt

theorem not_concerns (hd : d.OfSource source)
    (h : d.Assembled body p stubs removals shared deleted references)
    (hr : r ∈ stubs ++ removals.replacements ++ (d.helper.map d.helperInsertion).toList)
    (hsite : site ∈ remaining body (stubs.map (·.span) ++ removals.gone))
    (hmoved : (d.movedField? site).isSome = true) : ¬Concerns body site r := by
  rintro (hspan | ⟨c, hc, htarget, hspan⟩)
  · exact h.span_ne hd hr hsite (isSubject_of_movedField? hmoved) hspan
  · exact h.span_ne hd hr (mem_remaining_of_operand? h.primary.sound hsite hc htarget)
      (isSubject_of_operand? htarget) hspan

-- The site whose replacement is that of a reference.
theorem exists_accounting_site
    (h : d.Assembled body p stubs removals shared deleted references)
    (hsite : site ∈ remaining body gone) (hmoved : (d.movedField? site).isSome = true) :
    ∃ k ∈ remaining body gone,
      (∀ rs, d.Rewriting (d.changedSpans (remaining body gone)) k rs →
        ∃ r, rs = [r] ∧ d.Accounts body site r) ∧
      ∀ t ∈ remaining body gone, ∀ rs, d.Rewriting (d.changedSpans (remaining body gone)) t rs →
        ∀ s ∈ rs, Concerns body site s → t = k := by
  have hbody := h.primary.sound
  by_cases hchange : ∃ c ∈ body.preorder, d.changedReference? c = some site
  case pos =>
    obtain ⟨c, hc, htarget⟩ := hchange
    refine ⟨c, mem_remaining_of_operand? hbody hsite hc (operand?_of_changedReference? htarget),
      fun _ => accounts_of_changed hc htarget, ?_⟩
    intro t ht rs hrs s hs hconcerns
    exact eq_of_concerns_of_changed hbody hsite hmoved hc htarget ht hrs hs hconcerns
  case neg =>
    have hnone : ∀ c ∈ body.preorder, d.changedReference? c ≠ some site :=
      fun c hc htarget => hchange ⟨c, hc, htarget⟩
    refine ⟨site, hsite, fun _ => accounts_of_unchanged hbody hsite hmoved hnone, ?_⟩
    intro t ht rs hrs s hs hconcerns
    exact eq_of_concerns_of_unchanged hbody hsite hmoved hnone ht hrs hs hconcerns

theorem exists_unique_accounts (hd : d.OfSource source)
    (h : d.Assembled body p stubs removals shared deleted references)
    (hsite : site ∈ remaining body (stubs.map (·.span) ++ removals.gone))
    (hmoved : (d.movedField? site).isSome = true) :
    ∃ before r after, p.replacements = before ++ r :: after ∧ d.Accounts body site r ∧
      ∀ s ∈ before ++ after, ¬Concerns body site s := by
  obtain ⟨rss, hreferences, hrss⟩ := rewriting_of_referenceReplacements h.primary h.referred
  obtain ⟨k, hk, haccounts, honly⟩ := h.exists_accounting_site hsite hmoved
  have hsound : ∀ t ∈ remaining body (stubs.map (·.span) ++ removals.gone),
      t.node.Sound d.source.text := fun t ht =>
    Site.sound_of_mem_preorder h.primary.sound (mem_remaining.mp ht).left
  obtain ⟨us, rs, vs, before, after, rfl, hsplit, hkrs, hbefore, hafter⟩ :=
    exists_of_mem_forall₂ hrss hk
  obtain ⟨r, rfl, hr⟩ := haccounts rs (rewriting_of_siteReplacements (hsound k hk) hkrs)
  -- The site occurs once among those that remain.
  have hnodup : (before ++ k :: after).Nodup :=
    hsplit ▸ (Site.nodup_preorder h.primary.sound).filter _
  obtain ⟨-, hnodupAfter, hdisjoint⟩ := List.nodup_append.mp hnodup
  have hother : ∀ t ∈ before ++ after, t ∈ remaining body (stubs.map (·.span) ++ removals.gone) ∧
      t ≠ k := by
    intro t ht
    rw [hsplit]
    cases List.mem_append.mp ht with
    | inl hmem => exact ⟨List.mem_append_left _ hmem, hdisjoint t hmem k List.mem_cons_self⟩
    | inr hmem =>
      refine ⟨List.mem_append_right _ (List.mem_cons_of_mem _ hmem), ?_⟩
      rintro rfl
      exact (List.nodup_cons.mp hnodupAfter).left hmem
  have hreference : ∀ s ∈ (us ++ vs).flatten, ¬Concerns body site s := by
    intro s hs hconcerns
    obtain ⟨rs, hrs, hs⟩ := List.mem_flatten.mp hs
    have hboth := List.rel_append hbefore hafter
    obtain ⟨t, ht, htrs⟩ := exists_mem_of_forall₂ hboth hrs
    obtain ⟨htmem, hne⟩ := hother t ht
    exact hne (honly t htmem rs (rewriting_of_siteReplacements (hsound t htmem) htrs) s hs
      hconcerns)
  refine ⟨stubs ++ removals.replacements ++ (d.helper.map d.helperInsertion).toList ++ us.flatten,
    r, vs.flatten, ?_, hr, ?_⟩
  · rw [h.patch, hreferences]
    simp
  · intro s hs
    rw [List.append_assoc, List.mem_append] at hs
    cases hs with
    | inl hmem => exact h.not_concerns hd hmem hsite hmoved
    | inr hmem => exact hreference s (by simpa using hmem)

-- What is gone is not a part of an expression: it takes the whole expression.
theorem covers_of_gone {span : Span} (hd : d.OfSource source)
    (h : d.Assembled body p stubs removals shared deleted references)
    (hspan : span ∈ stubs.map (·.span) ++ removals.gone) (hc : c ∈ body.preorder)
    (hsubject : c.kind.isSubject = true) (ht : t ∈ c.preorder)
    (hcovers : span.covers t.span = true) : span.covers c.span = true := by
  have hbody := h.primary.sound
  rw [h.removed.gone, List.mem_append, List.mem_append] at hspan
  obtain hspan | hspan | hspan := hspan
  · obtain ⟨r, hr, rfl⟩ := List.mem_map.mp hspan
    obtain ⟨m, hm, hstub⟩ := exists_mem_of_forall₂ h.bodies hr
    obtain ⟨member, hmember, hkind, -, n, text, hn, rfl⟩ :=
      exists_member_of_stub h.primary (hd.methods m hm) hstub
    obtain ⟨hmem, hnmem, -, -⟩ := h.assembly.stub_inside hmember hkind hn
    refine covers_of_covers_below h.primary hmem hnmem ?_ hc hsubject ht hcovers
    obtain hkind | hkind := hkind
    all_goals rw [hkind]
  · obtain ⟨group, hgroup, hspan⟩ := List.mem_flatMap.mp hspan
    obtain ⟨f, hf, rfl⟩ := List.mem_map.mp hspan
    obtain ⟨entry, hentry, rfl⟩ := List.mem_map.mp (List.mem_filter.mp hf).left
    obtain ⟨fields, hfields, heq⟩ := hd.fields
    obtain ⟨declaration, hat, hkind, hread⟩ :=
      h.primary.exists_declaration (mem_fields_of_fieldsOfList hfields (heq ▸ hentry))
    obtain ⟨-, -, n, hn, -, hdeclarator⟩ := JavaSource.of_mem_readFields hread
    have hmem := (List.mem_filter.mp (List.mem_of_getElem? hat)).left
    rw [hdeclarator] at hcovers ⊢
    refine covers_of_covers_below h.primary hmem hn ?_ hc hsubject ht hcovers
    rw [hkind]
  · obtain ⟨n, hn, hbelow⟩ := h.assembly.below_of_mem_preorder hc hsubject
    have hinside := (h.assembly.inside_of_mem_preorder hn hbelow).covers
    obtain hmember | hbeside := h.removed.clear span hspan n hn
    · exact Span.covers_trans hmember hinside
    · have hct := Site.covers_of_mem_preorder (Site.sound_of_mem_preorder hbody hc) ht
      have hself := hbeside.mono hcovers (Span.covers_trans hinside hct)
      exact absurd rfl (hself.ne
        (Site.sound_of_mem_preorder hbody (Site.mem_preorder_trans hc ht)).nonempty)

-- With an expression, its operand remains.
theorem operand_mem_remaining (hd : d.OfSource source)
    (h : d.Assembled body p stubs removals shared deleted references)
    (hc : c ∈ remaining body (stubs.map (·.span) ++ removals.gone)) (ht : operand? c = some t) :
    t ∈ remaining body (stubs.map (·.span) ++ removals.gone) := by
  obtain ⟨hmem, hremains⟩ := mem_remaining.mp hc
  have hinner := operand_mem_preorder ht
  refine mem_remaining.mpr ⟨Site.mem_preorder_trans hmem hinner, ?_⟩
  intro span hspan
  refine Bool.eq_false_iff.mpr ?_
  intro hcovers
  have hwhole := h.covers_of_gone hd hspan hmem (isSubject_of_operand? ht) hinner hcovers
  rw [hremains span hspan] at hwhole
  cases hwhole

end Assembled

end Delegation

end ClassSplit
