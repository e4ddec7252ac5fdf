import ClassSplit.Delegation.Patch
import ClassSplit.Proofs.Delegation.Reference
import ClassSplit.Proofs.Delegation.Removal

/-!
The patch of the class that stays can always be carried out. Its replacements are of four kinds
besides the declaration of the helper field: of a method body, of the variables of a declaration, of
a deleted span and of a reference. Two of them never cut each other and never have the same span.
-/

namespace ClassSplit

open Java

theorem Java.Node.Sound.span_ne_of_mem {text : List Char} {n m k : Node} (h : n.Sound text)
    (hm : m ∈ n.children) (hk : k ∈ n.children) (hne : m ≠ k) : m.span ≠ n.span := by
  intro heq
  have hbeside := (h.eq_or_beside hk hm).resolve_left (Ne.symm hne)
  have hcovers : m.span.covers k.span = true := heq ▸ h.covers_child hk
  have hself := hbeside.mono (Span.covers_refl _) hcovers
  exact absurd rfl (hself.ne (h.of_mem_children hk).nonempty)

namespace Delegation

variable {d : Delegation} {body : Site} {gone deleted : List Span} {r s : Replacement}

-- Where a replacement other than the declaration of the helper field comes from.
inductive Placed (d : Delegation) (body : Site) (gone deleted : List Span) : Replacement → Prop
  | stub {m : Method} {member n : Node} {text : String}
      (mem : member ∈ body.node.namedChildren)
      (kind : member.kind = .methodDeclaration ∨ member.kind = .constructorDeclaration)
      (read : m = JavaSource.readMethod d.source.text
        (decide (member.kind = .constructorDeclaration)) member)
      (isBody : member.child? .body = some n)
      (stub : d.stub m = .ok (.ofText n.span text))
      (isGone : n.span ∈ gone) : Placed d body gone deleted (.ofText n.span text)
  | hull {r : Replacement} {group : Nat} {declaration : Node}
      (declaration_at : body.node.namedChildren[group]? = some declaration)
      (kind : declaration.kind = .fieldDeclaration)
      (hull : Hull d.source.text declaration r.span)
      (fits : r.Fits d.source.text)
      (mem : r ∈ d.shrinkGroup group) : Placed d body gone deleted r
  | deletion {span : Span} (mem : span ∈ deleted) :
      Placed d body gone deleted (.deletion span)
  | reference {site : Site} {r : Replacement} (mem : site ∈ remaining body gone)
      (subject : site.kind.isSubject = true) (replaces : d.Replaces site r)
      (only : d.siteReplacements (d.changedSpans (remaining body gone)) site = .ok [r]) :
      Placed d body gone deleted r

-- What is known of the parts that replacements stand in.
structure Assembly (d : Delegation) (body : Site) (gone deleted : List Span) : Prop where
  primary : d.source.PrimaryBody body
  gone : ∀ s ∈ deleted, s ∈ gone
  inOrder : Span.InOrder 0 (Text.byteLength d.source.text) deleted
  fits : ∀ s ∈ deleted, s.FitsIn d.source.text
  clear : ∀ s ∈ deleted, s.Clear body.node.children
  light : ∀ s ∈ deleted, s.Light body.node.children

-- A span within a member of the class.
structure Inside (c : Node) (span : Span) : Prop where
  covers : c.span.covers span = true
  nonempty : span.start < span.stop

-- They do not cut each other, and are one if they have the same span.
def Compatible (r s : Replacement) : Prop := r = s ∨ r.span.Nested s.span ∧ r.span ≠ s.span

theorem Compatible.symm (h : Compatible r s) : Compatible s r := by
  obtain heq | ⟨hnested, hne⟩ := h
  · exact .inl heq.symm
  · exact .inr ⟨hnested.symm, hne.symm⟩

theorem shrinkGroup_unique {group : Nat} (hr : r ∈ d.shrinkGroup group)
    (hs : s ∈ d.shrinkGroup group) : r = s := by
  have hlength : (d.shrinkGroup group).length ≤ 1 := by
    rw [shrinkGroup]
    split
    all_goals simp
  obtain hnil | ⟨t, hone⟩ := Nat.le_one_iff_eq_zero_or_eq_one.mp hlength |>.imp
    List.eq_nil_of_length_eq_zero List.length_eq_one_iff.mp
  · rw [hnil] at hr
    cases hr
  · rw [hone] at hr hs
    rw [List.mem_singleton.mp hr, List.mem_singleton.mp hs]

theorem span_ne_of_covers {c : Node} {a b : Span} (hcovers : a.covers c.span = true)
    (hc : c.span.covers b = true) (hne : b ≠ c.span) : a ≠ b := by
  rintro rfl
  rw [Span.covers_iff] at hcovers hc
  exact hne (Span.eq_iff.mpr ⟨by omega, by omega⟩)

theorem hull_inside {declaration : Node} {group : Nat} {hull : Span}
    (hdeclaration : body.node.namedChildren[group]? = some declaration)
    (hhull : Hull d.source.text declaration hull) :
    declaration ∈ body.node.children ∧ Inside declaration hull ∧ hull ≠ declaration.span := by
  have hmem := (List.mem_filter.mp (List.mem_of_getElem? hdeclaration)).left
  refine ⟨hmem, ⟨hhull.covers, ?_⟩, ?_⟩
  · obtain ⟨a, ha, b, hb, hab, rfl⟩ := hhull.ends
    have := (hhull.sound.of_mem_children ha).nonempty
    have := (hhull.sound.of_mem_children hb).nonempty
    simp only
    omega
  · rintro rfl
    exact Nat.lt_irrefl _ hhull.lt

section Assembly

variable (h : d.Assembly body gone deleted)

include h

theorem Assembly.below_of_mem_preorder {site : Site} (hsite : site ∈ body.preorder)
    (hsubject : site.kind.isSubject = true) :
    ∃ c ∈ body.node.children, site ∈ (body.below c).preorder := by
  obtain rfl | ⟨c, hc, hmem⟩ := Site.mem_preorder.mp hsite
  · unfold Site.kind at hsubject
    rw [h.primary.isClassBody.kind] at hsubject
    cases hsubject
  · obtain ⟨n, hn, rfl⟩ := Site.mem_children.mp hc
    exact ⟨n, hn, hmem⟩

theorem Assembly.inside_of_mem_preorder {c : Node} {site : Site} (hc : c ∈ body.node.children)
    (hsite : site ∈ (body.below c).preorder) : Inside c site.span := by
  have hsound := (h.primary.of_mem_children hc).left
  exact ⟨Site.covers_of_mem_preorder hsound hsite,
    (Site.sound_of_mem_preorder hsound hsite).nonempty⟩

theorem Assembly.compatible_of_ne {b c : Node} (hb : b ∈ body.node.children)
    (hc : c ∈ body.node.children) (hne : b ≠ c) (hr : Inside b r.span)
    (hs : Inside c s.span) : Compatible r s := by
  have hbeside := (h.primary.sound.eq_or_beside hb hc).resolve_left hne
  have hspans := hbeside.mono hr.covers hs.covers
  exact .inr ⟨.inl hspans, hspans.ne hr.nonempty⟩

-- A deleted span takes a member as a whole or leaves it alone.
theorem Assembly.compatible_deletion {c : Node} {span : Span} (hspan : span ∈ deleted)
    (hc : c ∈ body.node.children) (hs : Inside c s.span)
    (hne : span.covers c.span = true → span ≠ s.span) : Compatible (.deletion span) s := by
  refine .inr ?_
  obtain hcovers | hbeside := h.clear span hspan c hc
  · exact ⟨.inr (.inl (Span.covers_trans hcovers hs.covers)), hne hcovers⟩
  · have hspans := hbeside.mono (Span.covers_refl span) hs.covers
    exact ⟨.inl hspans, hspans.ne (h.inOrder.mem hspan).right.left⟩

-- Stubs stand below methods, at a child beside the name.
theorem Assembly.stub_inside {member n : Node} (hmember : member ∈ body.node.namedChildren)
    (hkind : member.kind = .methodDeclaration ∨ member.kind = .constructorDeclaration)
    (hn : member.child? .body = some n) :
    member ∈ body.node.children ∧ n ∈ member.children ∧ Inside member n.span ∧
      n.span ≠ member.span := by
  have hmem := (List.mem_filter.mp hmember).left
  have hsound := (h.primary.of_mem_children hmem).left
  have hnmem := List.mem_of_find?_eq_some hn
  refine ⟨hmem, hnmem, ⟨hsound.covers_child hnmem, (hsound.of_mem_children hnmem).nonempty⟩, ?_⟩
  have hshape := hsound.shape (List.ne_nil_of_mem hnmem)
  have hname : ∃ k ∈ member.children, k.role = some .name := by
    obtain hkind | hkind := hkind
    · rw [hkind] at hshape
      exact hshape.left
    · rw [hkind] at hshape
      exact hshape.left
  obtain ⟨k, hk, hrole⟩ := hname
  refine hsound.span_ne_of_mem hnmem hk ?_
  rintro rfl
  have hbody := List.find?_some hn
  rw [hrole] at hbody
  simp at hbody

theorem Assembly.nested_hull {declaration : Node} {group : Nat} {hull : Span} {site : Site}
    (hdeclaration : body.node.namedChildren[group]? = some declaration)
    (hhull : Hull d.source.text declaration hull) (hsite : site ∈ body.preorder)
    (hsubject : site.kind.isSubject = true) : hull.Nested site.span ∧ hull ≠ site.span := by
  obtain ⟨hmem, hinside, -⟩ := hull_inside hdeclaration hhull
  obtain ⟨c, hc, hbelow⟩ := h.below_of_mem_preorder hsite hsubject
  obtain rfl | hbeside := h.primary.sound.eq_or_beside hmem hc
  · exact hhull.nested hbelow
  · have hspans := hbeside.mono hinside.covers (h.inside_of_mem_preorder hc hbelow).covers
    exact ⟨.inl hspans, hspans.ne hinside.nonempty⟩

-- A place in the tree with a span that is gone is not among the references.
theorem Assembly.compatible_reference {t site : Site} (ht : t ∈ body.preorder)
    (hgone : t.span ∈ gone) (hspan : r.span = t.span) (hsite : site ∈ remaining body gone)
    (hs : d.Replaces site s) : Compatible r s := by
  obtain ⟨hmem, hremains⟩ := mem_remaining.mp hsite
  refine .inr ?_
  rw [hspan, hs.span]
  refine ⟨Site.nested h.primary.sound ht hmem, ?_⟩
  intro heq
  have := hremains t.span hgone
  rw [heq, Span.covers_refl] at this
  cases this

theorem Assembly.compatible_stub {m : Method} {member n : Node} {text : String}
    (hmember : member ∈ body.node.namedChildren)
    (hkind : member.kind = .methodDeclaration ∨ member.kind = .constructorDeclaration)
    (hread : m = JavaSource.readMethod d.source.text
      (decide (member.kind = .constructorDeclaration)) member)
    (hn : member.child? .body = some n) (hstub : d.stub m = .ok (.ofText n.span text))
    (hgone : n.span ∈ gone) (hs : d.Placed body gone deleted s) :
    Compatible (.ofText n.span text) s := by
  obtain ⟨hmem, hnmem, hinside, hne⟩ := h.stub_inside hmember hkind hn
  cases hs with
  | @stub m' member' n' text' hmember' hkind' hread' hn' hstub' =>
    obtain ⟨hmem', -, hinside', -⟩ := h.stub_inside hmember' hkind' hn'
    by_cases hsame : member = member'
    case pos =>
      subst hsame
      rw [← hread] at hread'
      rw [hread', hstub] at hstub'
      exact .inl (Except.ok.inj hstub')
    case neg => exact h.compatible_of_ne hmem hmem' hsame hinside hinside'
  | @hull _ group declaration hat hkind' hhull =>
    obtain ⟨hmem', hinside', -⟩ := hull_inside hat hhull
    refine h.compatible_of_ne hmem hmem' ?_ hinside hinside'
    rintro rfl
    obtain hkind | hkind := hkind
    all_goals
      rw [hkind] at hkind'
      cases hkind'
  | deletion hspan =>
    exact (h.compatible_deletion hspan hmem hinside fun hcovers =>
      span_ne_of_covers hcovers hinside.covers hne).symm
  | reference hsite _ hreplaces =>
    have hmemBody : (body.below member).below n ∈ body.preorder :=
      Site.mem_preorder.mpr (.inr ⟨_, Site.mem_children.mpr ⟨_, hmem, rfl⟩,
        Site.mem_preorder_of_mem_children (Site.mem_children.mpr ⟨_, hnmem, rfl⟩)⟩)
    exact h.compatible_reference hmemBody hgone rfl hsite hreplaces

theorem Assembly.compatible_hull {group : Nat} {declaration : Node}
    (hat : body.node.namedChildren[group]? = some declaration)
    (hkind : declaration.kind = .fieldDeclaration)
    (hhull : Hull d.source.text declaration r.span) (hfits : r.Fits d.source.text)
    (hr : r ∈ d.shrinkGroup group)
    (hs : d.Placed body gone deleted s) : Compatible r s := by
  obtain ⟨hmem, hinside, hne⟩ := hull_inside hat hhull
  cases hs with
  | stub hmember' hkind' hread' hn' hstub' hgone' =>
    exact (h.compatible_stub hmember' hkind' hread' hn' hstub' hgone'
      (.hull hat hkind hhull hfits hr)).symm
  | @hull _ group' declaration' hat' hkind' hhull' _ hs =>
    by_cases hsame : group = group'
    case pos =>
      subst hsame
      exact .inl (shrinkGroup_unique hr hs)
    case neg =>
      obtain ⟨hmem', hinside', -⟩ := hull_inside hat' hhull'
      refine h.compatible_of_ne hmem hmem' ?_ hinside hinside'
      rintro rfl
      exact hsame (h.primary.index_unique hat hat')
  | deletion hspan =>
    exact (h.compatible_deletion hspan hmem hinside fun hcovers =>
      span_ne_of_covers hcovers hinside.covers hne).symm
  | reference hsite hsubject hreplaces =>
    rw [Compatible, hreplaces.span]
    exact .inr (h.nested_hull hat hhull (mem_remaining.mp hsite).left hsubject)

-- Deleted spans follow each other.
theorem Assembly.compatible_deleted {span : Span} (hspan : span ∈ deleted)
    (hs : d.Placed body gone deleted s) : Compatible (.deletion span) s := by
  cases hs with
  | stub hmember' hkind' hread' hn' hstub' hgone' =>
    exact (h.compatible_stub hmember' hkind' hread' hn' hstub' hgone' (.deletion hspan)).symm
  | hull hat' hkind' hhull' hfits' hs =>
    exact (h.compatible_hull hat' hkind' hhull' hfits' hs (.deletion hspan)).symm
  | @deletion span' hspan' =>
    have hdeleted : Span.InOrder 0 (Text.byteLength d.source.text) (deleted.map id) := by
      rw [List.map_id]
      exact h.inOrder
    obtain rfl | hbeside := hdeleted.eq_or_beside hspan hspan'
    · exact .inl rfl
    · exact .inr ⟨.inl hbeside, hbeside.ne (h.inOrder.mem hspan).right.left⟩
  | @reference site _ hsite hsubject hreplaces =>
    obtain ⟨hmem, hremains⟩ := mem_remaining.mp hsite
    obtain ⟨c, hc, hbelow⟩ := h.below_of_mem_preorder hmem hsubject
    have hinside : Inside c s.span := hreplaces.span ▸ h.inside_of_mem_preorder hc hbelow
    refine h.compatible_deletion hspan hc hinside ?_
    rintro - rfl
    have hkept := hremains _ (h.gone _ hspan)
    rw [hreplaces.span, Span.covers_refl] at hkept
    cases hkept

theorem Placed.compatible (hr : d.Placed body gone deleted r)
    (hs : d.Placed body gone deleted s) : Compatible r s := by
  cases hr with
  | stub hmember hkind hread hn hstub hgone =>
    exact h.compatible_stub hmember hkind hread hn hstub hgone hs
  | hull hat hkind hhull hfits hr => exact h.compatible_hull hat hkind hhull hfits hr hs
  | deletion hspan => exact h.compatible_deleted hspan hs
  | @reference site _ hsite hsubject hreplaces honly =>
    have hr : d.Placed body gone deleted r := .reference hsite hsubject hreplaces honly
    cases hs with
    | stub hmember' hkind' hread' hn' hstub' hgone' =>
      exact (h.compatible_stub hmember' hkind' hread' hn' hstub' hgone' hr).symm
    | hull hat' hkind' hhull' hfits' hs =>
      exact (h.compatible_hull hat' hkind' hhull' hfits' hs hr).symm
    | deletion hspan => exact (h.compatible_deleted hspan hr).symm
    | @reference site' _ hsite' hsubject' hreplaces' honly' =>
      have hmem := (mem_remaining.mp hsite).left
      have hmem' := (mem_remaining.mp hsite').left
      by_cases hspan : site.span = site'.span
      case pos =>
        obtain rfl := Site.eq_of_span_eq h.primary.sound hmem hmem' hspan hsubject hsubject'
        rw [honly] at honly'
        exact .inl (by simpa using honly')
      case neg =>
        refine .inr ?_
        rw [hreplaces.span, hreplaces'.span]
        exact ⟨Site.nested h.primary.sound hmem hmem', hspan⟩

theorem Placed.fits (hr : d.Placed body gone deleted r) : r.Fits d.source.text := by
  cases hr with
  | stub hmember hkind _ hn =>
    obtain ⟨hmem, hnmem, -, -⟩ := h.stub_inside hmember hkind hn
    have hsound := (h.primary.of_mem_children hmem).left
    exact Replacement.fits_ofText (hsound.of_mem_children hnmem).fits _
  | hull _ _ _ hfits => exact hfits
  | deletion hspan => exact ⟨h.fits _ hspan, by simp [Replacement.deletion]⟩
  | reference _ _ hreplaces => exact hreplaces.fits

theorem Placed.nonempty (hr : d.Placed body gone deleted r) : r.span.start < r.span.stop := by
  cases hr with
  | stub hmember hkind _ hn =>
    obtain ⟨-, -, hinside, -⟩ := h.stub_inside hmember hkind hn
    exact hinside.nonempty
  | hull hat _ hhull => exact (hull_inside hat hhull).right.left.nonempty
  | deletion hspan => exact (h.inOrder.mem hspan).right.left
  | reference hsite _ hreplaces =>
    rw [hreplaces.span]
    exact (Site.sound_of_mem_preorder h.primary.sound (mem_remaining.mp hsite).left).nonempty

end Assembly

section Laminar

open Replacement

theorem Compatible.laminar (h : Compatible r s) (hr : r.span.start < r.span.stop)
    (hs : s.span.start < s.span.stop) (hne : r ≠ s) :
    r.beside s = true ∨ r.encloses s = true ∨ s.encloses r = true := by
  obtain ⟨hnested, hspan⟩ := h.resolve_left hne
  rw [ne_eq, Span.eq_iff] at hspan
  simp only [encloses_iff, beside, Bool.or_eq_true, decide_eq_true_eq, Span.Nested, Span.Beside,
    Span.covers_iff] at hnested ⊢
  omega

-- An insertion never cuts a replacement.
theorem laminar_insertion {offset : Nat} (text : String) (hs : s.span.start < s.span.stop) :
    (insertion offset text).beside s = true ∨ s.encloses (insertion offset text) = true := by
  have hstart : (insertion offset text).span.start = offset := rfl
  have hstop : (insertion offset text).span.stop = offset := rfl
  simp only [encloses_iff, beside, Bool.or_eq_true, decide_eq_true_eq, hstart, hstop]
  omega

theorem beside_comm (r s : Replacement) : r.beside s = s.beside r := Bool.or_comm ..

theorem laminar_of_placed {rs : List Replacement} (h : d.Assembly body gone deleted)
    (hrs : ∀ r ∈ rs, d.Placed body gone deleted r ∨
      ∃ helper, d.helper = some helper ∧ r = d.helperInsertion helper) : Laminar rs where
  nested := by
    intro r hr s hs hne
    obtain hr | ⟨helper, hhelper, rfl⟩ := hrs r hr
    · obtain hs | ⟨helper, -, rfl⟩ := hrs s hs
      · exact (hr.compatible h hs).laminar (hr.nonempty h) (hs.nonempty h) hne
      · obtain hbeside | hencloses := laminar_insertion _ (hr.nonempty h)
        · exact .inl (beside_comm .. ▸ hbeside)
        · exact .inr (.inl hencloses)
    · obtain hs | ⟨helper', hhelper', rfl⟩ := hrs s hs
      · obtain hbeside | hencloses := laminar_insertion _ (hs.nonempty h)
        · exact .inl hbeside
        · exact .inr (.inr hencloses)
      · rw [hhelper, Option.some.injEq] at hhelper'
        exact absurd (hhelper' ▸ rfl) hne
  distinct := by
    intro r hr s hs heq
    obtain hr | ⟨helper, hhelper, rfl⟩ := hrs r hr
    · obtain hs | ⟨helper, -, rfl⟩ := hrs s hs
      · exact (hr.compatible h hs).resolve_right fun hspan => hspan.right heq
      · have hlt := hr.nonempty h
        rw [heq] at hlt
        exact absurd hlt (Nat.lt_irrefl _)
    · obtain hs | ⟨helper', hhelper', rfl⟩ := hrs s hs
      · have hlt := hs.nonempty h
        rw [← heq] at hlt
        exact absurd hlt (Nat.lt_irrefl _)
      · rw [hhelper, Option.some.injEq] at hhelper'
        rw [hhelper']

end Laminar

theorem fits_of_placed {rs : List Replacement} (h : d.Assembly body gone deleted)
    (hrs : ∀ r ∈ rs, d.Placed body gone deleted r ∨
      ∃ helper, d.helper = some helper ∧ r = d.helperInsertion helper) :
    ∀ r ∈ rs, r.Fits d.source.text := by
  intro r hr
  obtain hr | ⟨helper, -, rfl⟩ := hrs r hr
  · exact hr.fits h
  · exact fits_helperInsertion h.primary helper

-- A delegation of members that have been read from a source.
structure OfSource (d : Delegation) (source : String) : Prop where
  parsed : ∃ wanted, JavaSource.parse source wanted = .ok d.source
  methods : ∀ m ∈ d.methods, m ∈ d.source.model.methods
  fields : ∃ fields, (∀ f ∈ fields, f.field ∈ d.source.model.fields) ∧
    d.fields = fieldsOfList fields

-- A patch and what it has been put together from.
structure Assembled (d : Delegation) (body : Site) (p : Patch) (stubs : List Replacement)
    (removals : FieldRemovals) (shared : List Nat) (deleted : List Span)
    (references : List Replacement) : Prop where
  primary : d.source.PrimaryBody body
  stubbed : d.methods.mapM d.stub = .ok stubs
  found : d.fieldRemovals = .ok removals
  removed : d.Removals body removals shared deleted
  referred : d.referenceReplacements (stubs.map (·.span) ++ removals.gone) = .ok references
  patch : p.replacements = stubs ++ removals.replacements ++
    (d.helper.map d.helperInsertion).toList ++ references

theorem exists_assembled {source : String} {p : Patch} (hd : d.OfSource source)
    (hp : d.patch = .ok p) :
    d.source.text = source.toList ∧ ∃ body stubs removals shared deleted references,
      d.Assembled body p stubs removals shared deleted references := by
  rw [patch] at hp
  obtain ⟨stubs, hstubs, hp⟩ := bind_eq_ok.mp hp
  obtain ⟨removals, hremovals, hp⟩ := bind_eq_ok.mp hp
  obtain ⟨references, hreferences, hp⟩ := bind_eq_ok.mp hp
  cases hp
  obtain ⟨wanted, hparsed⟩ := hd.parsed
  obtain ⟨body, hprimary, htext⟩ := JavaSource.exists_primaryBody_of_parse hparsed
  obtain ⟨shared, deleted, hparts⟩ := exists_removals hprimary hremovals
  exact ⟨htext, body, stubs, removals, shared, deleted, references, hprimary, hstubs, hremovals,
    hparts, hreferences, rfl⟩

namespace Assembled

variable {source : String} {p : Patch} {stubs references : List Replacement}
  {removals : FieldRemovals} {shared : List Nat}

theorem bodies (h : d.Assembled body p stubs removals shared deleted references) :
    List.Forall₂ (fun m r => d.stub m = .ok r) d.methods stubs :=
  forall₂_of_mapM_eq_ok h.stubbed

theorem assembly (h : d.Assembled body p stubs removals shared deleted references) :
    d.Assembly body (stubs.map (·.span) ++ removals.gone) deleted where
  primary := h.primary
  gone := by
    intro s hs
    rw [h.removed.gone]
    exact List.mem_append_right _ (List.mem_append_right _ hs)
  inOrder := h.removed.inOrder
  fits := h.removed.fits
  clear := h.removed.clear
  light := h.removed.light

theorem placed_stub (hd : d.OfSource source)
    (h : d.Assembled body p stubs removals shared deleted references) (hr : r ∈ stubs) :
    d.Placed body (stubs.map (·.span) ++ removals.gone) deleted r := by
  obtain ⟨m, hm, hstub⟩ := exists_mem_of_forall₂ h.bodies hr
  obtain ⟨member, hmember, hkind, hread, n, text, hn, rfl⟩ :=
    exists_member_of_stub h.primary (hd.methods m hm) hstub
  exact .stub hmember hkind hread hn hstub
    (List.mem_append_left _ (List.mem_map_of_mem (f := (·.span)) hr))

-- A declaration is put together again from its hull, or it is deleted with others.
theorem hull_or_deletion (hd : d.OfSource source)
    (h : d.Assembled body p stubs removals shared deleted references)
    (hr : r ∈ removals.replacements) :
    (∃ group declaration, body.node.namedChildren[group]? = some declaration ∧
      declaration.kind = .fieldDeclaration ∧ Hull d.source.text declaration r.span ∧
        r.Fits d.source.text ∧ r ∈ d.shrinkGroup group) ∨
      ∃ span ∈ deleted, r = .deletion span := by
  rw [h.removed.replacements, List.mem_append] at hr
  obtain hr | hr := hr
  · obtain ⟨group, hgroup, hr⟩ := List.mem_flatMap.mp hr
    obtain ⟨fields, hfields, heq⟩ := hd.fields
    have hmoved := exists_moved_of_mem_movedGroups
      (fun entry hentry => mem_fields_of_fieldsOfList hfields (heq ▸ hentry))
      (h.removed.moved group hgroup)
    obtain ⟨declaration, hat, hkind, hhull, hfits⟩ :=
      hull_of_shrinkGroup h.primary hmoved (h.removed.stays group hgroup) hr
    exact .inl ⟨group, declaration, hat, hkind, hhull, hfits, hr⟩
  · obtain ⟨span, hspan, rfl⟩ := List.mem_map.mp hr
    exact .inr ⟨span, hspan, rfl⟩

theorem placed_removal (hd : d.OfSource source)
    (h : d.Assembled body p stubs removals shared deleted references)
    (hr : r ∈ removals.replacements) :
    d.Placed body (stubs.map (·.span) ++ removals.gone) deleted r := by
  obtain ⟨group, declaration, hat, hkind, hhull, hfits, hmem⟩ | ⟨span, hspan, rfl⟩ :=
    h.hull_or_deletion hd hr
  · exact .hull hat hkind hhull hfits hmem
  · exact .deletion hspan

theorem exists_site (h : d.Assembled body p stubs removals shared deleted references)
    (hr : r ∈ references) :
    ∃ site ∈ remaining body (stubs.map (·.span) ++ removals.gone), site.kind.isSubject = true ∧
      d.Replaces site r ∧ d.siteReplacements (d.changedSpans (remaining body
        (stubs.map (·.span) ++ removals.gone))) site = .ok [r] := by
  obtain ⟨rss, rfl, hrss⟩ := rewriting_of_referenceReplacements h.primary h.referred
  obtain ⟨rs, hrs, hr⟩ := List.mem_flatten.mp hr
  obtain ⟨site, hsite, hsiteRs⟩ := exists_mem_of_forall₂ hrss hrs
  have hsound := Site.sound_of_mem_preorder h.primary.sound (mem_remaining.mp hsite).left
  obtain ⟨hsubject, hreplaces, rfl⟩ := (rewriting_of_siteReplacements hsound hsiteRs).isSubject hr
  exact ⟨site, hsite, hsubject, hreplaces, hsiteRs⟩

theorem placed_reference (h : d.Assembled body p stubs removals shared deleted references)
    (hr : r ∈ references) :
    d.Placed body (stubs.map (·.span) ++ removals.gone) deleted r := by
  obtain ⟨site, hsite, hsubject, hreplaces, honly⟩ := h.exists_site hr
  exact .reference hsite hsubject hreplaces honly

theorem placed (hd : d.OfSource source)
    (h : d.Assembled body p stubs removals shared deleted references)
    (hr : r ∈ p.replacements) :
    d.Placed body (stubs.map (·.span) ++ removals.gone) deleted r ∨
      ∃ helper, d.helper = some helper ∧ r = d.helperInsertion helper := by
  rw [h.patch] at hr
  simp only [List.mem_append, Option.mem_toList, Option.map_eq_some_iff] at hr
  obtain ((hstub | hremoval) | ⟨helper, hhelper, rfl⟩) | hreference := hr
  · exact .inl (h.placed_stub hd hstub)
  · exact .inl (h.placed_removal hd hremoval)
  · exact .inr ⟨helper, hhelper, rfl⟩
  · exact .inl (h.placed_reference hreference)

end Assembled

theorem OfSource.exists_apply {source : String} {p : Patch} (hd : d.OfSource source)
    (hp : d.patch = .ok p) : ∃ text, p.apply source = .ok text := by
  obtain ⟨htext, body, stubs, removals, shared, deleted, references, h⟩ := exists_assembled hd hp
  have hplaced := fun r (hr : r ∈ p.replacements) => h.placed hd hr
  exact ⟨_, Patch.apply_eq_of_laminar (htext ▸ fits_of_placed h.assembly hplaced)
    (laminar_of_placed h.assembly hplaced)⟩

-- The patch of a source that has been read can be carried out.
theorem exists_apply_patch {source : String} {wanted : Option String}
    {fields : List DelegatedField} {p : Patch}
    (hsource : JavaSource.parse source wanted = .ok d.source)
    (hmethods : ∀ m ∈ d.methods, m ∈ d.source.model.methods)
    (hfields : ∀ f ∈ fields, f.field ∈ d.source.model.fields)
    (hmap : d.fields = fieldsOfList fields) (hp : d.patch = .ok p) :
    ∃ text, p.apply source = .ok text :=
  OfSource.exists_apply ⟨⟨wanted, hsource⟩, hmethods, fields, hfields, hmap⟩ hp

-- A class of which one method and one variable of a shared declaration move.
def counterSource : String :=
  "class A\x7bint x,y;void m()\x7b\x7dint n()\x7bx=1;\x7d\x7d"

def counterFields (s : JavaSource) : List DelegatedField :=
  (s.model.fields.filter (·.name != "y")).map fun f => ⟨f, some ⟨"get", some "set", none⟩⟩

def counter (s : JavaSource) : Delegation where
  source := s
  newClass := "B"
  helper := some "b"
  methods := s.model.methods.take 1
  fields := fieldsOfList (counterFields s)
  indent := "  "

theorem field_mem_of_mem_counterFields {s : JavaSource} {f : DelegatedField}
    (h : f ∈ counterFields s) : f.field ∈ s.model.fields := by
  obtain ⟨field, hfield, rfl⟩ := List.mem_map.mp h
  exact (List.mem_filter.mp hfield).left

theorem exists_patch_counter : ∃ s p,
    JavaSource.parse counterSource none = .ok s ∧ (counter s).patch = .ok p := by
  obtain ⟨s, hparse, hsome⟩ := JavaSource.exists_parse_of_check counterSource
    (fun s => (counter s).patch.toOption.isSome) (by decide +kernel)
  cases hpatch : (counter s).patch with
  | error e =>
    rw [hpatch] at hsome
    cases hsome
  | ok p => exact ⟨s, p, hparse, hpatch⟩

theorem exists_apply_patch_counter : ∃ s p,
    JavaSource.parse counterSource none = .ok s ∧ (counter s).patch = .ok p ∧
      ∃ text, p.apply counterSource = .ok text := by
  obtain ⟨s, p, hparse, hpatch⟩ := exists_patch_counter
  exact ⟨s, p, hparse, hpatch,
    exists_apply_patch hparse (fun _ => List.mem_of_mem_take)
      (fun _ => field_mem_of_mem_counterFields) rfl hpatch⟩

end Delegation

end ClassSplit
