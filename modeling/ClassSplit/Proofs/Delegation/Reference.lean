import ClassSplit.Delegation.Reference
import ClassSplit.Proofs.Delegation.Basic

/-!
What becomes of the references to moved fields. A site has at most one replacement, of exactly its
own span: that of a change if it changes a moved instance field, that of a read if it refers to a
moved field and no site around it changes that, and otherwise none.
-/

namespace ClassSplit

open Java

theorem insideParentheses_mem_preorder (site : Site) : insideParentheses site ∈ site.preorder := by
  induction site using Site.below_induction with
  | step site ih =>
    rw [insideParentheses]
    split
    case isFalse => exact Site.self_mem_preorder site
    case isTrue =>
      split
      case h_2 => exact Site.self_mem_preorder site
      case h_1 inner hinner =>
        have hchild : site.below inner ∈ site.children :=
          Site.mem_children.mpr
            ⟨inner, (List.mem_filter.mp (List.mem_of_find?_eq_some hinner)).left, rfl⟩
        exact Site.mem_preorder.mpr (.inr ⟨_, hchild, ih _ hchild⟩)

namespace Delegation

variable {d : Delegation} {changed : List Span} {site t : Site} {f : Field}
  {accessors : Accessors} {rs : List Replacement}

theorem exists_child_of_target? (h : target? site = some t) :
    (site.kind = .assignmentExpression ∨ site.kind = .updateExpression) ∧
      ∃ c ∈ site.children, t = insideParentheses c := by
  rw [target?] at h
  split at h
  case h_1 hkind =>
    obtain ⟨c, hc, rfl⟩ := Option.map_eq_some_iff.mp h
    exact ⟨.inl hkind, c, Site.mem_children_of_child? hc, rfl⟩
  case h_2 hkind =>
    obtain ⟨c, hc, rfl⟩ := Option.map_eq_some_iff.mp h
    exact ⟨.inr hkind, c, Site.mem_children_of_namedChildren (List.mem_of_head? hc), rfl⟩
  case h_3 => cases h

-- Only names and field accesses refer to a field.
theorem kind_of_movedField? {moved : DelegatedField} (h : d.movedField? site = some moved) :
    site.kind = .identifier ∨ site.kind = .fieldAccess := by
  obtain ⟨reference, href, -⟩ := Option.bind_eq_some_iff.mp h
  rw [JavaSource.fieldReference?] at href
  split at href
  case h_1 hkind => exact .inl hkind
  case h_2 hkind => exact .inr hkind
  case h_3 => cases href

theorem movedField?_of_movedInstance? (h : d.movedInstance? site = some (f, accessors)) :
    ∃ moved, d.movedField? site = some moved ∧ moved.field = f ∧
      moved.accessors = some accessors := by
  obtain ⟨moved, hmoved, hinstance⟩ := Option.bind_eq_some_iff.mp h
  obtain ⟨accessors', haccessors, heq⟩ := Option.map_eq_some_iff.mp hinstance
  cases heq
  exact ⟨moved, hmoved, rfl, haccessors⟩

theorem changedReference?_eq_some :
    d.changedReference? site = some t ↔
      target? site = some t ∧ (d.movedInstance? t).isSome = true := by
  rw [changedReference?, Option.filter_eq_some_iff]

theorem kind_of_changedReference? (h : d.changedReference? site = some t) :
    t.kind = .identifier ∨ t.kind = .fieldAccess := by
  obtain ⟨⟨f, accessors⟩, hinstance⟩ :=
    Option.isSome_iff_exists.mp (changedReference?_eq_some.mp h).right
  obtain ⟨moved, hmoved, -⟩ := movedField?_of_movedInstance? hinstance
  exact kind_of_movedField? hmoved

-- A replacement of a whole site.
structure Replaces (d : Delegation) (site : Site) (r : Replacement) : Prop where
  span : r.span = site.span
  fits : r.Fits d.source.text

theorem replaces_ofText (h : site.node.Sound d.source.text) (text : String) :
    d.Replaces site (.ofText site.span text) where
  span := rfl
  fits := Replacement.fits_ofText h.fits text

theorem replaces_of_read {moved : DelegatedField} {r : Replacement}
    (h : site.node.Sound d.source.text) (hr : d.readReplacement site moved = .ok r) :
    d.Replaces site r := by
  rw [readReplacement] at hr
  split at hr
  case h_1 =>
    cases hr
    exact replaces_ofText h _
  case h_2 =>
    obtain ⟨helper, -, heq⟩ := bind_eq_ok.mp hr
    cases heq
    exact replaces_ofText h _

theorem mem_combined {piece : Piece} {getCall operator : String} {right : Node}
    (h : piece ∈ d.combined f getCall operator right) :
    (∃ text, piece = .text text) ∨ piece = .source right.span := by
  simp only [combined] at h
  have hoperand : ∀ piece ∈ (if isOperandKind right.kind then [Piece.source right.span]
      else [.text "(", .source right.span, .text ")"]),
      (∃ text, piece = .text text) ∨ piece = .source right.span := by
    intro piece hpiece
    split at hpiece
    all_goals
      simp only [List.mem_cons, List.not_mem_nil, or_false] at hpiece
      grind
  split at h
  case isTrue =>
    simp only [List.mem_cons, List.mem_append, List.not_mem_nil, or_false] at h
    obtain (rfl | rfl | hmem) | rfl := h
    · exact .inl ⟨_, rfl⟩
    · exact .inl ⟨_, rfl⟩
    · exact hoperand piece hmem
    · exact .inl ⟨_, rfl⟩
  case isFalse =>
    obtain rfl | hmem := List.mem_cons.mp h
    · exact .inl ⟨_, rfl⟩
    · exact hoperand piece hmem

theorem replaces_of_assignment (h : site.node.Sound d.source.text)
    (hkind : site.kind = .assignmentExpression) (hne : site.node.children ≠ [])
    (hrs : d.assignmentReplacements site f accessors = .ok rs) :
    ∃ r, rs = [r] ∧ d.Replaces site r := by
  have hshape := h.shape hne
  rw [show site.node.kind = .assignmentExpression from hkind] at hshape
  obtain ⟨-, hoperator, hright⟩ := hshape
  obtain ⟨operator, hoperator⟩ := Node.exists_child? hoperator
  obtain ⟨right, hright⟩ := Node.exists_child? hright
  rw [assignmentReplacements] at hrs
  split at hrs
  case isTrue => cases hrs
  case isFalse =>
    rw [hoperator, hright] at hrs
    cases hsetter : accessors.setter with
    | none =>
      rw [hsetter] at hrs
      cases hrs
    | some setter =>
      rw [hsetter] at hrs
      obtain ⟨helper, -, heq⟩ := bind_eq_ok.mp hrs
      cases heq
      refine ⟨_, rfl, rfl, h.fits, ?_⟩
      have hrightMem := List.mem_of_find?_eq_some hright
      have hsource : Piece.FitsIn d.source.text site.span (.source right.span) :=
        ⟨(h.of_mem_children hrightMem).fits, h.covers_child hrightMem⟩
      have hvalue : ∀ piece : Piece, (∃ text, piece = .text text) ∨ piece = .source right.span →
          piece.FitsIn d.source.text site.span := by
        rintro piece (⟨text, rfl⟩ | rfl)
        · trivial
        · exact hsource
      intro piece hpiece
      simp only [List.cons_append, List.mem_cons, List.mem_append, List.not_mem_nil,
        or_false] at hpiece
      obtain rfl | hmem | rfl := hpiece
      · trivial
      · split at hmem
        case isTrue => exact hvalue piece (.inr (List.mem_singleton.mp hmem))
        case isFalse => exact hvalue piece (mem_combined hmem)
      · trivial

theorem replaces_of_update (h : site.node.Sound d.source.text)
    (hrs : d.updateReplacements site f accessors = .ok rs) :
    ∃ r, rs = [r] ∧ d.Replaces site r := by
  simp only [updateReplacements] at hrs
  obtain ⟨helper, -, hrest⟩ := bind_eq_ok.mp hrs
  split at hrest
  case h_1 =>
    cases hrest
    exact ⟨_, rfl, replaces_ofText h _⟩
  case h_2 => cases hrest
  case h_3 =>
    split at hrest
    case isTrue =>
      cases hrest
      exact ⟨_, rfl, replaces_ofText h _⟩
    case isFalse => cases hrest

-- The replacements of a site, given the spans that are changed.
inductive Rewriting (d : Delegation) (changed : List Span) (site : Site) :
    List Replacement → Prop
  | change {t : Site} {r : Replacement} (target : d.changedReference? site = some t)
      (change : d.changeReplacements site = .ok [r]) (replaces : d.Replaces site r) :
      Rewriting d changed site [r]
  | read {moved : DelegatedField} {r : Replacement} (reference : d.movedField? site = some moved)
      (unchanged : site.span ∉ changed) (read : d.readReplacement site moved = .ok r)
      (replaces : d.Replaces site r) : Rewriting d changed site [r]
  | silent (noTarget : d.changedReference? site = none)
      (noRead : site.span ∈ changed ∨ d.movedField? site = none) : Rewriting d changed site []

theorem changeReplacements_spec (h : site.node.Sound d.source.text)
    (hrs : d.changeReplacements site = .ok rs) :
    d.changedReference? site = none ∧ rs = [] ∨
      ∃ t r, d.changedReference? site = some t ∧ rs = [r] ∧ d.Replaces site r := by
  rw [changeReplacements] at hrs
  split at hrs
  case h_1 hnone =>
    cases hrs
    refine .inl ⟨?_, rfl⟩
    refine Option.eq_none_iff_forall_ne_some.mpr ?_
    intro t ht
    obtain ⟨htarget, hmoved⟩ := changedReference?_eq_some.mp ht
    rw [htarget, Option.bind_some] at hnone
    rw [hnone] at hmoved
    cases hmoved
  case h_2 f accessors hsome =>
    obtain ⟨t, ht, hmoved⟩ := Option.bind_eq_some_iff.mp hsome
    obtain ⟨hkind, c, hc, -⟩ := exists_child_of_target? ht
    obtain ⟨n, hn, -⟩ := Site.mem_children.mp hc
    have htarget : d.changedReference? site = some t :=
      changedReference?_eq_some.mpr ⟨ht, by simp [hmoved]⟩
    refine .inr ?_
    split at hrs
    case isTrue hassign =>
      obtain ⟨r, hr, hreplaces⟩ := replaces_of_assignment h hassign (List.ne_nil_of_mem hn) hrs
      exact ⟨t, r, htarget, hr, hreplaces⟩
    case isFalse =>
      obtain ⟨r, hr, hreplaces⟩ := replaces_of_update h hrs
      exact ⟨t, r, htarget, hr, hreplaces⟩

-- What is changed does not change anything itself.
theorem changedReference?_of_movedField? {moved : DelegatedField}
    (h : d.movedField? site = some moved) : d.changedReference? site = none := by
  refine Option.eq_none_iff_forall_ne_some.mpr ?_
  intro t ht
  obtain ⟨htarget, -⟩ := changedReference?_eq_some.mp ht
  obtain ⟨hkind, -⟩ := exists_child_of_target? htarget
  obtain hsite | hsite := kind_of_movedField? h
  all_goals
    rw [hsite] at hkind
    obtain hkind | hkind := hkind
    all_goals cases hkind

theorem rewriting_of_siteReplacements (h : site.node.Sound d.source.text)
    (hrs : d.siteReplacements changed site = .ok rs) : d.Rewriting changed site rs := by
  rw [siteReplacements] at hrs
  obtain ⟨changes, hchanges, hrest⟩ := bind_eq_ok.mp hrs
  have hspec := changeReplacements_spec h hchanges
  split at hrest
  case isTrue hchanged =>
    cases hrest
    obtain ⟨hnone, rfl⟩ | ⟨t, r, ht, rfl, hreplaces⟩ := hspec
    · exact .silent hnone (.inl (by simpa using hchanged))
    · exact .change ht hchanges hreplaces
  case isFalse hchanged =>
    split at hrest
    case h_1 hnone =>
      cases hrest
      obtain ⟨hnone', rfl⟩ | ⟨t, r, ht, rfl, hreplaces⟩ := hspec
      · exact .silent hnone' (.inr hnone)
      · exact .change ht hchanges hreplaces
    case h_2 moved hmoved =>
      obtain ⟨read, hread, heq⟩ := bind_eq_ok.mp hrest
      cases heq
      obtain ⟨-, rfl⟩ | ⟨t, r, ht, -, -⟩ := hspec
      · exact .read hmoved (by simpa using hchanged) hread (replaces_of_read h hread)
      · rw [changedReference?_of_movedField? hmoved] at ht
        cases ht

namespace Rewriting

theorem isSubject {r : Replacement} (h : d.Rewriting changed site rs) (hr : r ∈ rs) :
    site.kind.isSubject = true ∧ d.Replaces site r ∧ rs = [r] := by
  cases h with
  | change target _ replaces =>
    obtain rfl := List.mem_singleton.mp hr
    obtain ⟨hkind, -⟩ := exists_child_of_target? (changedReference?_eq_some.mp target).left
    refine ⟨?_, replaces, rfl⟩
    obtain hkind | hkind := hkind
    all_goals rw [hkind]
  | read reference _ _ replaces =>
    obtain rfl := List.mem_singleton.mp hr
    refine ⟨?_, replaces, rfl⟩
    obtain hkind | hkind := kind_of_movedField? reference
    all_goals rw [hkind]
  | silent => cases hr

end Rewriting

-- The sites that are still there after some spans are gone.
def remaining (body : Site) (gone : List Span) : List Site :=
  body.preorder.filter fun site => !gone.any (·.covers site.span)

def changedSpans (d : Delegation) (sites : List Site) : List Span :=
  (sites.filterMap d.changedReference?).map (·.span)

theorem mem_remaining {body : Site} {gone : List Span} :
    site ∈ remaining body gone ↔ site ∈ body.preorder ∧ ∀ s ∈ gone, s.covers site.span = false := by
  simp [remaining]

theorem rewriting_of_referenceReplacements {body : Site} {gone : List Span}
    (h : d.source.PrimaryBody body) (hrs : d.referenceReplacements gone = .ok rs) :
    ∃ rss, rs = rss.flatten ∧
      List.Forall₂ (fun site rs =>
          d.siteReplacements (d.changedSpans (remaining body gone)) site = .ok rs)
        (remaining body gone) rss := by
  rw [referenceReplacements, h.found] at hrs
  obtain ⟨rss, hrss, heq⟩ := bind_eq_ok.mp hrs
  cases heq
  exact ⟨rss, rfl, forall₂_of_mapM_eq_ok hrss⟩

end Delegation

end ClassSplit
