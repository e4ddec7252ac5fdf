import ClassSplit.Proofs.Delegation.Accounts
import ClassSplit.Proofs.Delegation.Rerouted
import ClassSplit.Proofs.Scope.Statement

/-!
The body of a method that stays. What is done to the class besides rewriting references is done
beside it, so that all replacements in it are those of references. Main statements:
`Stays.exists_site_of_covers` and `Stays.kept`.
-/

namespace ClassSplit

open Java Replacement

theorem Java.Kind.isComment_of_isSubject {kind : Kind} (h : kind.isSubject = true) :
    kind.isComment = false := by
  cases kind
  all_goals first | rfl | cases h

theorem Java.Site.composed_of_mem_preorder {text : List Char} {s t : Site}
    (h : s.node.Composed text) (ht : t ∈ s.preorder) : t.node.Composed text := by
  induction s using Site.below_induction with
  | step s ih =>
    obtain rfl | ⟨c, hc, htc⟩ := mem_preorder.mp ht
    · exact h
    · obtain ⟨n, hn, rfl⟩ := mem_children.mp hc
      exact ih _ hc (h.of_mem_children hn) htc

-- A construct around an expression that is no larger is the expression itself.
theorem Java.Site.eq_of_covers {text : List Char} {s t : Site} (h : s.node.Sound text)
    (ht : t ∈ s.preorder) (hcovers : t.span.covers s.span = true) (hs : s.kind.isSubject = true)
    (hmark : t.node.isMark = false) : t = s := by
  have hspan : t.span = s.span := by
    have hback := Span.covers_iff.mp (covers_of_mem_preorder h ht)
    have hcovers := Span.covers_iff.mp hcovers
    exact Span.eq_iff.mpr ⟨by omega, by omega⟩
  cases hchildren : s.node.children with
  | nil =>
    obtain heq | ⟨c, hc, -⟩ := mem_preorder.mp ht
    · exact heq
    · obtain ⟨n, hn, -⟩ := mem_children.mp hc
      rw [hchildren] at hn
      cases hn
  | cons n ns =>
    obtain ⟨sign, hsign, hsignMark⟩ := exists_mark h hs (by simp [hchildren])
    exact eq_of_span_eq_of_isMark h ht hspan hsign hsignMark hmark

-- The class that has been read is put together from what the grammar has recognized.
theorem JavaSource.PrimaryBody.composed {source : String} {wanted : Option String} {s : JavaSource}
    {body : Site} (h : JavaSource.parse source wanted = .ok s) (hbody : s.PrimaryBody body) :
    body.node.Composed s.text := by
  obtain ⟨-, declaration, hdeclaration, hsite, -⟩ := JavaSource.exists_classSite_of_parse h
  have htree : tree? s.text = some s.tree := by
    simp only [JavaSource.parse] at h
    split at h
    case h_1 => cases h
    case h_2 root hroot =>
      split at h
      case h_1 => cases h
      case h_2 =>
        cases h
        exact hroot
  have hfound := hbody.found
  rw [JavaSource.classBody?, hsite, Option.bind_some] at hfound
  obtain ⟨n, hn, rfl⟩ := Option.map_eq_some_iff.mp hfound
  exact (composed_of_tree? htree _ (List.mem_filter.mp hdeclaration).left).of_mem_children
    (List.mem_of_find?_eq_some hn)

namespace Java.Node

variable {text : List Char} {declaration n : Node}

theorem isMark_of_kind_ne (h : ∀ word, n.kind ≠ .token word) : n.isMark = false := by
  cases n with
  | branch => rfl
  | leaf kind =>
    cases kind
    case token word => exact absurd rfl (h word)
    all_goals rfl

theorem Composed.children_of_isComment (h : n.Composed text) (hcomment : n.isComment = true) :
    n.children = [] := by
  cases h with
  | comment => rfl
  | filled h => rw [isComment_withComments, h.isComment] at hcomment; cases hcomment

-- What refers to a field or changes one lies in a part of what is around it that is no mark.
theorem Composed.exists_part {s t : Site} (h : t.node.Composed text) (hs : s ∈ t.preorder)
    (hne : s ≠ t) (hsubject : s.kind.isSubject = true) :
    ∃ k ∈ t.node.parts, k.isMark = false ∧ s ∈ (t.below k).preorder := by
  obtain heq | ⟨c, hc, hin⟩ := Site.mem_preorder.mp hs
  · exact absurd heq hne
  obtain ⟨k, hk, rfl⟩ := Site.mem_children.mp hc
  -- A mark or a comment has no parts.
  have hwhole : k.children = [] → s = t.below k := by
    intro hleaf
    obtain heq | ⟨c, hc, -⟩ := Site.mem_preorder.mp hin
    · exact heq
    · obtain ⟨m, hm, -⟩ := Site.mem_children.mp hc
      rw [show (t.below k).node = k from rfl, hleaf] at hm
      cases hm
  refine ⟨k, mem_parts.mpr ⟨hk, Bool.eq_false_iff.mpr fun hcomment => ?_⟩,
    Bool.eq_false_iff.mpr fun hmark => ?_, hin⟩
  · obtain rfl := hwhole ((h.of_mem_children hk).children_of_isComment hcomment)
    have hno : k.kind.isComment = false := Kind.isComment_of_isSubject hsubject
    rw [isComment, hno] at hcomment
    cases hcomment
  · obtain rfl := hwhole (Site.children_of_isMark hmark)
    have hno : k.isMark = false := Site.isMark_eq_false_of_isSubject hsubject
    rw [hmark] at hno
    cases hno

-- A method begins in front of its body.
theorem Composed.start_lt_of_body (h : declaration.Composed text) (hsound : declaration.Sound text)
    (hkind : declaration.kind = .methodDeclaration) (hn : declaration.child? .body = some n) :
    declaration.span.start < n.span.start := by
  have hmem := List.mem_of_find?_eq_some hn
  have hrole : n.role = some .body := by simpa using List.find?_some hn
  have hne := List.ne_nil_of_mem hmem
  have harranged := h.arranged hne
  rw [hkind] at harranged
  have hparts : n ∈ declaration.parts := by
    refine mem_parts.mpr ⟨hmem, Bool.eq_false_iff.mpr fun hcomment => ?_⟩
    rw [(h.of_mem_children hmem).role_of_isComment hcomment] at hrole
    cases hrole
  obtain ⟨first, hfirst⟩ := Option.isSome_iff_exists.mp
    (List.isSome_head?.mpr (List.ne_nil_of_mem hparts))
  have hfirstMem := (mem_parts.mp (List.mem_of_head? hfirst)).left
  have hne' : first ≠ n := by
    rintro rfl
    exact harranged first hfirst hrole
  have hpairwise := (hsound.inOrder hne).sublist (List.filter_sublist (p := (!·.isComment)) |>.map _)
  have hlt := (hsound.of_mem_children hfirstMem).nonempty
  have hcovers := (Span.covers_iff.mp (hsound.covers_child hfirstMem)).left
  cases hlist : declaration.parts with
  | nil =>
    rw [hlist] at hparts
    cases hparts
  | cons k rest =>
    rw [hlist] at hfirst hparts
    obtain rfl := Option.some.inj hfirst
    rw [show declaration.children.filter (!·.isComment) = _ from hlist] at hpairwise
    obtain hmem | hmem := List.mem_cons.mp hparts
    · exact absurd hmem.symm hne'
    · have hle : k.span.stop ≤ n.span.start :=
        (List.pairwise_cons.mp hpairwise.pairwise).left _ (List.mem_map_of_mem hmem)
      omega

end Java.Node

namespace Delegation

variable {d : Delegation} {source : String} {body site t : Site} {declaration n m : Node}
  {p : Patch} {stubs references : List Replacement} {removals : FieldRemovals} {shared : List Nat}
  {deleted : List Span} {r : Replacement} {span : Span}

-- A method that stays, with a body in which no variable is declared.
structure Stays (d : Delegation) (body : Site) (declaration n : Node) : Prop where
  quiet : d.source.QuietBody body declaration n
  isMethod : declaration.kind = .methodDeclaration
  stays : JavaSource.readMethod d.source.text false declaration ∉ d.methods

namespace Stays

section Beside

variable (hstays : d.Stays body declaration n) (hd : d.OfSource source)
  (h : d.Assembled body p stubs removals shared deleted references)

include hstays

theorem mem_children : declaration ∈ body.node.children :=
  (List.mem_filter.mp hstays.quiet.member).left

theorem mem_block : n ∈ declaration.children := List.mem_of_find?_eq_some hstays.quiet.isBody

theorem sound : declaration.Sound d.source.text :=
  (hstays.quiet.primary.of_mem_children hstays.mem_children).left

theorem covers_block : declaration.span.covers n.span = true :=
  hstays.sound.covers_child hstays.mem_block

-- What lies in another member of the class stands beside the body.
theorem beside_of_ne (hm : m ∈ body.node.children) (hne : m ≠ declaration)
    (hcovers : m.span.covers span = true) : span.Beside n.span :=
  ((hstays.quiet.primary.sound.eq_or_beside hm hstays.mem_children).resolve_left hne).mono hcovers
    hstays.covers_block

include hd h

theorem beside_stub (hr : r ∈ stubs) : r.span.Beside n.span := by
  obtain ⟨m, hm, hstub⟩ := exists_mem_of_forall₂ h.bodies hr
  obtain ⟨member, hmember, hkind, hread, k, text, hk, rfl⟩ :=
    exists_member_of_stub h.primary (hd.methods m hm) hstub
  obtain ⟨hmem, -, hinside, -⟩ := h.assembly.stub_inside hmember hkind hk
  refine hstays.beside_of_ne hmem ?_ hinside.covers
  rintro rfl
  rw [hstays.isMethod] at hread
  exact hstays.stays (hread ▸ hm)

omit hd in
theorem beside_deleted (hspan : span ∈ deleted) : span.Beside n.span := by
  obtain hcovers | hbeside := h.assembly.clear span hspan declaration hstays.mem_children
  · have hlight := h.assembly.light span hspan declaration hstays.mem_children hcovers
    rw [Node.isComment, hstays.isMethod] at hlight
    obtain hlight | hlight := hlight
    all_goals cases hlight
  · exact hbeside.mono (Span.covers_refl span) hstays.covers_block

theorem beside_of_gone (hspan : span ∈ stubs.map (·.span) ++ removals.gone) :
    span.Beside n.span := by
  rw [h.removed.gone, List.mem_append, List.mem_append] at hspan
  obtain hspan | hspan | hspan := hspan
  · obtain ⟨r, hr, rfl⟩ := List.mem_map.mp hspan
    exact hstays.beside_stub hd h hr
  · obtain ⟨group, -, hspan⟩ := List.mem_flatMap.mp hspan
    obtain ⟨f, hf, rfl⟩ := List.mem_map.mp hspan
    obtain ⟨entry, hentry, rfl⟩ := List.mem_map.mp (List.mem_filter.mp hf).left
    obtain ⟨fields, hfields, heq⟩ := hd.fields
    obtain ⟨other, hat, hkind, hread⟩ :=
      h.primary.exists_declaration (mem_fields_of_fieldsOfList hfields (heq ▸ hentry))
    obtain ⟨-, -, k, hk, -, hdeclarator⟩ := JavaSource.of_mem_readFields hread
    have hmem := (List.mem_filter.mp (List.mem_of_getElem? hat)).left
    rw [hdeclarator]
    refine hstays.beside_of_ne hmem ?_ ((h.primary.of_mem_children hmem).left.covers_child hk)
    rintro rfl
    rw [hstays.isMethod] at hkind
    cases hkind
  · exact hstays.beside_deleted h hspan

theorem beside_removal (hr : r ∈ removals.replacements) : r.span.Beside n.span := by
  obtain ⟨group, other, hat, hkind, hhull, -⟩ | ⟨span, hspan, rfl⟩ := h.hull_or_deletion hd hr
  · obtain ⟨hmem, hinside, -⟩ := hull_inside hat hhull
    refine hstays.beside_of_ne hmem ?_ hinside.covers
    rintro rfl
    rw [hstays.isMethod] at hkind
    cases hkind
  · exact hstays.beside_deleted h hspan

-- All that stands in the body remains.
theorem mem_remaining (hsite : site ∈ ((body.below declaration).below n).preorder) :
    site ∈ remaining body (stubs.map (·.span) ++ removals.gone) := by
  have hmem := Site.mem_preorder_trans hstays.quiet.mem_preorder hsite
  have hcovers := Site.covers_of_mem_preorder (hstays.sound.of_mem_children hstays.mem_block) hsite
  refine Delegation.mem_remaining.mpr ⟨hmem, fun span hspan => Bool.eq_false_iff.mpr fun hgone => ?_⟩
  exact ((hstays.beside_of_gone hd h hspan).mono (Span.covers_refl span) hcovers).not_covers
    (Site.sound_of_mem_preorder h.primary.sound hmem).nonempty hgone

-- All replacements in the body are those of references.
theorem mem_references (hr : r ∈ p.replacements) (hcovers : n.span.covers r.span = true) :
    r ∈ references := by
  have hnot : ∀ {r : Replacement}, r ∈ stubs ∨ r ∈ removals.replacements →
      n.span.covers r.span = false := by
    intro r hr
    refine Bool.eq_false_iff.mpr fun hcovers => ?_
    obtain hr | hr := hr
    · exact (hstays.beside_stub hd h hr).symm.not_covers
        ((h.placed_stub hd hr).nonempty h.assembly) hcovers
    · exact (hstays.beside_removal hd h hr).symm.not_covers
        ((h.placed_removal hd hr).nonempty h.assembly) hcovers
  rw [h.patch] at hr
  simp only [List.mem_append, Option.mem_toList, Option.map_eq_some_iff] at hr
  obtain (hr | ⟨helper, -, rfl⟩) | hr := hr
  · rw [hnot hr] at hcovers
    cases hcovers
  · -- The helper field is declared in front of all members.
    exfalso
    obtain ⟨wanted, hparsed⟩ := hd.parsed
    have hcomposed := (h.primary.composed hparsed).of_mem_children hstays.mem_children
    have hlt := hcomposed.start_lt_of_body hstays.sound hstays.isMethod hstays.quiet.isBody
    have hmark : declaration.isMark = false :=
      Node.isMark_of_kind_ne fun word => by simp [hstays.isMethod]
    have hbehind := h.primary.start_lt_of_isMark hstays.mem_children hmark
    have hstart : n.span.start ≤ d.source.model.body.start + 1 := (Span.covers_iff.mp hcovers).left
    rw [h.primary.span] at hstart
    have : body.span.start < declaration.span.start := hbehind
    omega
  · exact hr

-- Every replacement in the body is that of an expression there.
theorem exists_site_of_covers (hr : r ∈ p.replacements) (hcovers : n.span.covers r.span = true) :
    ∃ site ∈ ((body.below declaration).below n).preorder, site.kind.isSubject = true ∧
      r.span = site.span ∧ d.Rewriting (d.changedSpans (remaining body
        (stubs.map (·.span) ++ removals.gone))) site [r] := by
  obtain ⟨site, hsite, hsubject, hreplaces, hrewriting⟩ :=
    h.exists_site (hstays.mem_references hd h hr hcovers)
  have hmem := (Delegation.mem_remaining.mp hsite).left
  have hsound := Site.sound_of_mem_preorder h.primary.sound hmem
  refine ⟨site, ?_, hsubject, hreplaces.span, rewriting_of_siteReplacements hsound hrewriting⟩
  rw [hreplaces.span] at hcovers
  have hblock := hstays.quiet.mem_preorder
  obtain hbelow | hbelow | hbeside := Site.below_or_beside h.primary.sound hblock hmem
  · have hne : site ≠ (body.below declaration).below n := by
      rintro rfl
      rw [show ((body.below declaration).below n).kind = n.kind from rfl, hstays.quiet.isBlock]
        at hsubject
      cases hsubject
    exact absurd (Site.eq_of_covers hsound hbelow hcovers hsubject
      (Node.isMark_of_kind_ne fun word => by simp [Site.below, hstays.quiet.isBlock])).symm hne
  · exact hbelow
  · exact absurd hcovers (hbeside.not_covers hsound.nonempty)

-- A construct that refers to no field and changes none is kept apart from what is done in its parts.
theorem kept (ht : t ∈ ((body.below declaration).below n).preorder) (hmark : t.node.isMark = false)
    (hmoved : d.movedField? t = none) (hchanged : d.changedReference? t = none) :
    Kept (p.replacements.filter (n.span.covers ·.span)) t.node := by
  intro r hr hcovers
  obtain ⟨hr, hin⟩ := List.mem_filter.mp hr
  obtain ⟨site, hsite, hsubject, hspan, hrewriting⟩ := hstays.exists_site_of_covers hd h hr hin
  have hsound : ((body.below declaration).below n).node.Sound d.source.text :=
    hstays.sound.of_mem_children hstays.mem_block
  have hne : site ≠ t := by
    rintro rfl
    cases hrewriting with
    | change target =>
      rw [hchanged] at target
      cases target
    | read reference =>
      rw [hmoved] at reference
      cases reference
  rw [hspan] at hcovers
  obtain ⟨wanted, hparsed⟩ := hd.parsed
  have hcomposed := h.primary.composed hparsed
  have hsiteSound := Site.sound_of_mem_preorder hsound hsite
  obtain hbelow | hbelow | hbeside := Site.below_or_beside hsound hsite ht
  · obtain ⟨k, hk, hmark, hin⟩ := (Site.composed_of_mem_preorder hcomposed
      (Site.mem_preorder_trans hstays.quiet.mem_preorder ht)).exists_part hbelow hne hsubject
    have hmem := (Node.mem_parts.mp hk).left
    refine ⟨k, hk, hmark, ?_⟩
    rw [hspan]
    exact Site.covers_of_mem_preorder
      ((Site.sound_of_mem_preorder hsound ht).of_mem_children hmem) hin
  · exact absurd (Site.eq_of_covers hsiteSound hbelow hcovers hsubject hmark).symm hne
  · exact absurd hcovers (hbeside.symm.not_covers hsiteSound.nonempty)

end Beside

end Stays

end Delegation

end ClassSplit
