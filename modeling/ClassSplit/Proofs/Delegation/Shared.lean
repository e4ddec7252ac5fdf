import ClassSplit.Proofs.Delegation.Deletion
import ClassSplit.Proofs.Patch.Outermost
import Mathlib

/-!
What is left of a declaration of which some variables move and some stay. The text up to the first
variable stays, with the references in it replaced, then the variables that stay, separated by
commas, each with the references in it replaced, and the text behind the last variable as it is.
Main statement: `Delegation.exists_shared_of_patchedSource`.
-/

namespace ClassSplit

open Java Replacement

namespace Delegation

-- A declaration in the class and its variables, in the order in which they stand in the text.
structure Shares (d : Delegation) (body : Site) (group : Nat) (declaration : Node)
    (first last : Field) : Prop where
  found : body.node.namedChildren[group]? = some declaration
  kind : declaration.kind = .fieldDeclaration
  declared : (d.source.model.fieldGroup group).map (·.declarator) =
    (declaration.children.filter (·.kind = .variableDeclarator)).map (·.span)
  inOrder : Span.InOrder declaration.span.start declaration.span.stop
    ((d.source.model.fieldGroup group).map (·.declarator))
  first : (d.source.model.fieldGroup group).head? = some first
  last : (d.source.model.fieldGroup group).getLast? = some last

-- Where a replacement lies, seen from a declaration of which the variables are replaced.
inductive Seen (declaration : Span) (hull : Replacement) (references : List Replacement) :
    Replacement → Prop
  | before {r : Replacement} (stop : r.span.stop ≤ declaration.start) :
      Seen declaration hull references r
  | behind {r : Replacement} (start : declaration.stop ≤ r.span.start)
      (nonempty : r.span.start < r.span.stop) : Seen declaration hull references r
  | hull : Seen declaration hull references hull
  | front {r : Replacement} (mem : r ∈ references) (start : declaration.start ≤ r.span.start)
      (nonempty : r.span.start < r.span.stop) (stop : r.span.stop ≤ hull.span.start) :
      Seen declaration hull references r
  | inside {r : Replacement} (mem : r ∈ references) (nonempty : r.span.start < r.span.stop)
      (encloses : hull.encloses r = true) : Seen declaration hull references r

theorem Seen.of_beside {declaration : Span} {hull r : Replacement} {references : List Replacement}
    (h : r.span.Beside declaration) (hr : r.span.start < r.span.stop) :
    Seen declaration hull references r := by
  obtain h | h := h
  · exact .before h
  · exact .behind h hr

variable {d : Delegation} {body : Site} {group : Nat} {declaration : Node} {first last : Field}
  {source out : String} {p : Patch} {stubs references : List Replacement}
  {removals : FieldRemovals} {shared : List Nat} {gone deleted : List Span} {r : Replacement}

-- What takes the place of the variables.
def shrunk (d : Delegation) (group : Nat) (first last : Field) : Replacement :=
  ⟨⟨first.declarator.start, last.declarator.stop⟩,
    survivors ((d.source.model.fieldGroup group).filter (!d.movesField ·))⟩

-- The declaration with the variables that stay, and with references replaced.
def remade (d : Delegation) (group : Nat) (references : List Replacement) (declaration : Span)
    (first last : Field) : List Char :=
  rendering d.source.text references ⟨declaration.start, first.declarator.start⟩ ++
    [',', ' '].intercalate (((d.source.model.fieldGroup group).filter (!d.movesField ·)).map
      fun f => rendering d.source.text references f.declarator) ++
      Text.slice d.source.text ⟨last.declarator.stop, declaration.stop⟩

theorem flatMap_survivors (fs : List Field) (shows : Span → List Char) :
    (survivors fs).flatMap (fun
        | .text new => new.toList
        | .source part => shows part) =
      [',', ' '].intercalate (fs.map fun f => shows f.declarator) := by
  induction fs using survivors.induct with
  | case1 => rfl
  | case2 f => simp [survivors]
  | case3 f g rest ih =>
    rw [survivors, List.flatMap_cons, List.flatMap_cons, ih]
    simp [List.intercalate]

section Shares

variable (h : d.source.PrimaryBody body)

include h

theorem exists_shares (hne : d.source.model.fieldGroup group ≠ []) :
    ∃ declaration first last, d.Shares body group declaration first last := by
  obtain ⟨first, hfirst⟩ := Option.isSome_iff_exists.mp (List.isSome_head?.mpr hne)
  obtain ⟨last, hlast⟩ := Option.isSome_iff_exists.mp (List.getLast?_isSome.mpr hne)
  obtain ⟨hmem, hgroup⟩ := List.mem_filter.mp (List.mem_of_head? hfirst)
  obtain ⟨declaration, hat, hkind, -⟩ := h.exists_declaration hmem
  rw [beq_iff_eq.mp hgroup] at hat
  have hall := h.fieldGroup_eq hat hkind
  have hsound := (h.of_mem_children (List.mem_filter.mp (List.mem_of_getElem? hat)).left).left
  have hchildren := hsound.children_ne_nil (by rw [hkind])
  refine ⟨declaration, first, last, hat, hkind, ?_, ?_, hfirst, hlast⟩
  · rw [hall]
    exact JavaSource.map_declarator_readFields hsound group
  · rw [hall]
    exact (hsound.inOrder hchildren).sublist (JavaSource.map_declarator_readFields_sublist _ _ _)

variable (hs : d.Shares body group declaration first last)

include hs

omit h in
theorem Shares.shrinkGroup_eq : d.shrinkGroup group = [d.shrunk group first last] := by
  simp only [shrinkGroup, hs.first, hs.last, shrunk]

theorem Shares.sound : declaration ∈ body.node.children ∧ declaration.Sound d.source.text := by
  have hmem := (List.mem_filter.mp (List.mem_of_getElem? hs.found)).left
  exact ⟨hmem, (h.of_mem_children hmem).left⟩

-- The variables lie in the declaration, the first one begins them and the last one ends them.
omit h in
theorem Shares.mem {f : Field} (hf : f ∈ d.source.model.fieldGroup group) :
    declaration.span.start ≤ first.declarator.start ∧
      first.declarator.start ≤ f.declarator.start ∧ f.declarator.start < f.declarator.stop ∧
        f.declarator.stop ≤ last.declarator.stop ∧
          last.declarator.stop ≤ declaration.span.stop := by
  have hfirst := hs.inOrder.mem (List.mem_map_of_mem (List.mem_of_head? hs.first))
  have hlast := hs.inOrder.mem (List.mem_map_of_mem (List.mem_of_getLast? hs.last))
  have hhead : ((d.source.model.fieldGroup group).map (·.declarator)).head? =
      some first.declarator := by
    simp [hs.first]
  have hend : ((d.source.model.fieldGroup group).map (·.declarator)).getLast? =
      some last.declarator := by
    simp [hs.last]
  have hin := (hs.inOrder.shrink hhead hend).mem (List.mem_map_of_mem hf)
  exact ⟨hfirst.left, hin.left, hin.right.left, hin.right.right, hlast.right.right⟩

-- The last variable and the children behind it, none of which refers to anything.
theorem Shares.exists_back : ∃ front node back, declaration.children = front ++ node :: back ∧
    node.span = last.declarator ∧ ∀ n ∈ back, n.isSeparator = true := by
  obtain ⟨-, hsound⟩ := hs.sound h
  have hshape := hsound.shape (hsound.children_ne_nil (by rw [hs.kind]))
  rw [hs.kind] at hshape
  obtain ⟨front, node, back, hsplit, hnode, hback⟩ := hshape.exists_last
  refine ⟨front, node, back, hsplit, ?_, hback⟩
  have hnone : back.filter (·.kind = .variableDeclarator) = [] := by
    refine List.filter_eq_nil_iff.mpr fun n hn hkind => ?_
    have hoperand := (Node.of_isSeparator (hback n hn)).left
    rw [of_decide_eq_true hkind] at hoperand
    cases hoperand
  have hlast : (d.source.model.fieldGroup group).getLast?.map (·.declarator) = some node.span := by
    rw [← List.getLast?_map, hs.declared, hsplit, List.filter_append,
      List.filter_cons_of_pos (by simp [hnode]), hnone]
    simp
  rw [hs.last, Option.map_some, Option.some.injEq] at hlast
  exact hlast.symm

-- What refers to a variable in the declaration stands in the last variable or in front of it.
theorem Shares.le_of_subject {above : List Node} {site : Site}
    (hsite : site ∈ Site.preorder ⟨declaration, above⟩) (hsubject : site.kind.isSubject = true) :
    site.span.stop ≤ last.declarator.start ∨ last.declarator.covers site.span = true := by
  obtain ⟨-, hsound⟩ := hs.sound h
  obtain ⟨front, node, back, hsplit, hnode, hback⟩ := hs.exists_back h
  obtain rfl | ⟨t, ht, hbelow⟩ := Site.mem_preorder.mp hsite
  · simp only [Site.kind, hs.kind] at hsubject
    cases hsubject
  obtain ⟨k, hk, rfl⟩ := Site.mem_children.mp ht
  have hcovers : k.span.covers site.span = true :=
    Site.covers_of_mem_preorder (hsound.of_mem_children hk) hbelow
  have horder := List.pairwise_map.mp (hsound.inOrder (List.ne_nil_of_mem hk)).pairwise
  have hkmem : k ∈ front ++ node :: back := hsplit ▸ hk
  rw [hsplit] at horder
  rw [← hnode]
  obtain hfront | hrest := List.mem_append.mp hkmem
  · have := (List.pairwise_append.mp horder).right.right k hfront node List.mem_cons_self
    rw [Span.covers_iff] at hcovers
    exact .inl (by omega)
  · obtain rfl | hbehind := List.mem_cons.mp hrest
    · exact .inr hcovers
    · -- A separator is no reference and has nothing below it.
      obtain ⟨hoperand, hleaf⟩ := Node.of_isSeparator (hback k hbehind)
      obtain rfl | ⟨c, hc, -⟩ := Site.mem_preorder.mp hbelow
      · have hoperand' : k.kind.isOperand = true := Kind.isOperand_of_isSubject hsubject
        rw [hoperand'] at hoperand
        cases hoperand
      · obtain ⟨n, hn, -⟩ := Site.mem_children.mp hc
        rw [show (Site.below ⟨declaration, above⟩ k).node.children = [] from hleaf] at hn
        cases hn

-- A reference lies beside the declaration, in front of its variables or among them.
theorem Shares.place_of_reference {site : Site} (hd : d.Assembly body gone deleted)
    (hhull : Hull d.source.text declaration (d.shrunk group first last).span)
    (hsite : site ∈ body.preorder) (hsubject : site.kind.isSubject = true) :
    site.span.Beside declaration.span ∨
      declaration.span.start ≤ site.span.start ∧ site.span.stop ≤ first.declarator.start ∨
        (d.shrunk group first last).span.covers site.span = true ∧
          (d.shrunk group first last).span ≠ site.span := by
  obtain ⟨hmem, -⟩ := hs.sound h
  obtain ⟨c, hc, hbelow⟩ := hd.below_of_mem_preorder hsite hsubject
  have hinside := hd.inside_of_mem_preorder hc hbelow
  obtain rfl | hbeside := h.sound.eq_or_beside hc hmem
  case inr => exact .inl (hbeside.mono hinside.covers (Span.covers_refl _))
  obtain ⟨hnested, hne⟩ := hhull.nested hbelow
  have hlast := hs.le_of_subject h hbelow hsubject
  have hmembers := hs.mem (List.mem_of_getLast? hs.last)
  have hlt := hinside.nonempty
  have hstart := (Span.covers_iff.mp hinside.covers).left
  simp only [Span.Nested, Span.Beside, Span.covers_iff, shrunk, ne_eq, Span.eq_iff] at *
  omega

end Shares

-- A patch of a class with a declaration of which some variables move and some stay.
structure Splits (d : Delegation) (body : Site) (p : Patch) (stubs : List Replacement)
    (removals : FieldRemovals) (shared : List Nat) (deleted : List Span)
    (references : List Replacement) (group : Nat) (declaration : Node) (first last : Field) :
    Prop where
  read : ∃ source, d.OfSource source
  assembled : d.Assembled body p stubs removals shared deleted references
  shares : d.Shares body group declaration first last
  moves : ∃ f ∈ d.source.model.fieldGroup group, d.movesField f = true
  stays : ∃ f ∈ d.source.model.fieldGroup group, d.movesField f = false

namespace Splits

variable (h : d.Splits body p stubs removals shared deleted references group declaration first last)

include h

theorem laminar : Laminar p.replacements ∧ ∀ r ∈ p.replacements, r.Fits d.source.text := by
  obtain ⟨source, hd⟩ := h.read
  have hplaced := fun r (hr : r ∈ p.replacements) => h.assembled.placed hd hr
  exact ⟨laminar_of_placed h.assembled.assembly hplaced,
    fits_of_placed h.assembled.assembly hplaced⟩

theorem of_mem_references (hr : r ∈ references) :
    r ∈ p.replacements ∧ r.span.start < r.span.stop := by
  obtain ⟨site, hsite, -, hreplaces, -⟩ := h.assembled.exists_site hr
  rw [h.assembled.patch, hreplaces.span]
  exact ⟨List.mem_append_right _ hr, (Site.sound_of_mem_preorder h.assembled.primary.sound
    (mem_remaining.mp hsite).left).nonempty⟩

theorem mem_removals : d.shrunk group first last ∈ removals.replacements := by
  obtain ⟨shared', whole, rs, hg⟩ := exists_gathered h.assembled.found
  obtain ⟨f, hf, hfmoves⟩ := h.moves
  have hgroup : f.group = group := beq_iff_eq.mp (List.mem_filter.mp hf).right
  have hshared : group ∈ shared' :=
    (hg.shared_iff group).mpr ⟨hgroup ▸ mem_movedGroups_of_movesField hfmoves, h.stays⟩
  rw [hg.replacements]
  refine List.mem_append_left _ (List.mem_flatMap.mpr ⟨group, hshared, ?_⟩)
  rw [h.shares.shrinkGroup_eq]
  exact List.mem_singleton_self _

theorem hull : Hull d.source.text declaration (d.shrunk group first last).span := by
  have hmem : d.shrunk group first last ∈ d.shrinkGroup group := by simp [h.shares.shrinkGroup_eq]
  obtain ⟨other, hat, -, hhull, -⟩ := hull_of_shrinkGroup h.assembled.primary h.moves h.stays hmem
  rw [h.shares.found, Option.some.injEq] at hat
  exact hat ▸ hhull

theorem beside {f g : Field} (hf : f ∈ d.source.model.fieldGroup group)
    (hg : g ∈ d.source.model.fieldGroup group) (hne : d.movesField f ≠ d.movesField g) :
    f.declarator.Beside g.declarator :=
  (h.shares.inOrder.eq_or_beside hf hg).resolve_left fun heq => hne (heq ▸ rfl)

-- One variable does not hold all of them.
theorem not_covers_shrunk {f : Field} (hf : f ∈ d.source.model.fieldGroup group) :
    ¬f.declarator.covers (d.shrunk group first last).span = true := by
  have hother : ∃ g ∈ d.source.model.fieldGroup group, d.movesField f ≠ d.movesField g := by
    obtain ⟨a, ha, hamoves⟩ := h.moves
    obtain ⟨b, hb, hbstays⟩ := h.stays
    cases hmoved : d.movesField f with
    | true => exact ⟨b, hb, by simp [hbstays]⟩
    | false => exact ⟨a, ha, by simp [hamoves]⟩
  obtain ⟨g, hg, hne⟩ := hother
  intro hcovers
  have hin := h.shares.mem hg
  have hcoversG : f.declarator.covers g.declarator = true :=
    Span.covers_trans hcovers (Span.covers_iff.mpr ⟨hin.right.left, hin.right.right.right.left⟩)
  exact (h.beside hf hg hne).not_covers hin.right.right.left hcoversG

theorem seen (hr : r ∈ p.replacements) :
    Seen declaration.span (d.shrunk group first last) references r := by
  obtain ⟨source, hd⟩ := h.read
  have hprimary := h.assembled.primary
  obtain ⟨hmem, hsound⟩ := h.shares.sound hprimary
  have hkind := h.shares.kind
  rw [h.assembled.patch] at hr
  simp only [List.mem_append, Option.mem_toList, Option.map_eq_some_iff] at hr
  obtain ((hstub | hremoval) | ⟨helper, hhelper, rfl⟩) | hreference := hr
  · obtain ⟨m, hm, hstub⟩ := exists_mem_of_forall₂ h.assembled.bodies hstub
    obtain ⟨member, hmember, hkind', -, n, text, hn, rfl⟩ :=
      exists_member_of_stub hprimary (hd.methods m hm) hstub
    obtain ⟨hmember', -, hinside, -⟩ := h.assembled.assembly.stub_inside hmember hkind' hn
    obtain rfl | hbeside := hprimary.sound.eq_or_beside hmember' hmem
    · rw [hkind] at hkind'
      obtain hkind' | hkind' := hkind'
      all_goals cases hkind'
    · exact .of_beside (hbeside.mono hinside.covers (Span.covers_refl _)) hinside.nonempty
  · obtain ⟨group', other, hat, -, hhull, -, hr⟩ | ⟨span, hspan, rfl⟩ :=
      h.assembled.hull_or_deletion hd hremoval
    · by_cases hsame : group' = group
      case pos =>
        rw [hsame, h.shares.shrinkGroup_eq] at hr
        rw [List.mem_singleton.mp hr]
        exact .hull
      case neg =>
        obtain ⟨hother, hinside, -⟩ := hull_inside hat hhull
        obtain rfl | hbeside := hprimary.sound.eq_or_beside hother hmem
        · exact absurd (hprimary.index_unique hat h.shares.found) hsame
        · exact .of_beside (hbeside.mono hinside.covers (Span.covers_refl _)) hinside.nonempty
    · obtain ⟨shared', whole, rs, hg⟩ := exists_gathered h.assembled.found
      obtain ⟨f, hf, hstays⟩ := h.stays
      obtain ⟨hfield, hspan'⟩ := (mem_fieldGroup_iff hprimary h.shares.found).mp hf
      exact .of_beside (hg.beside_of_stays hprimary hremoval hmem hkind hfield hspan' hstays)
        (h.assembled.assembly.inOrder.mem hspan).right.left
  · -- The helper field is inserted in front of all members.
    refine .before ?_
    have hmark : declaration.isMark = false := by
      unfold Node.isMark
      split
      case h_1 => cases hkind
      case h_2 => rfl
    have hstart := hprimary.start_lt_of_isMark hmem hmark
    have hpoint : (d.helperInsertion helper).span.stop = body.span.start + 1 := by
      rw [← hprimary.span]
      rfl
    omega
  · obtain ⟨site, hsite, hsubject, hreplaces, -⟩ := h.assembled.exists_site hreference
    have hplace := h.shares.place_of_reference hprimary h.assembled.assembly h.hull
      (mem_remaining.mp hsite).left hsubject
    have hnonempty := (h.of_mem_references hreference).right
    rw [← hreplaces.span] at hplace
    obtain hbeside | ⟨hstart, hstop⟩ | ⟨hcovers, hne⟩ := hplace
    · exact .of_beside hbeside hnonempty
    · exact .front hreference hstart hnonempty hstop
    · refine .inside hreference hnonempty (encloses_iff.mpr ?_)
      rw [ne_eq, Span.eq_iff] at hne
      rw [Span.covers_iff] at hcovers
      omega

-- A replacement lies in front of the declaration, behind it, or in it and not behind its variables.
theorem position (hr : r ∈ p.replacements) :
    r.span.stop ≤ declaration.span.start ∨
      r.span.start < r.span.stop ∧ (declaration.span.stop ≤ r.span.start ∨
        declaration.span.start ≤ r.span.start ∧ r.span.stop ≤ last.declarator.stop) := by
  have hin := h.shares.mem (List.mem_of_getLast? h.shares.last)
  cases h.seen hr with
  | before hstop => exact .inl hstop
  | behind hstart hlt => exact .inr ⟨hlt, .inl hstart⟩
  | hull =>
    simp only [shrunk]
    omega
  | front _ hstart hlt hstop =>
    simp only [shrunk] at hstop
    omega
  | inside _ hlt hencloses =>
    have hspan := encloses_iff.mp hencloses
    simp only [shrunk] at hspan
    omega

end Splits

-- The replacements of a patch without some of the references in variables that move.
structure Reduced (d : Delegation) (group : Nat) (references all family : List Replacement) :
    Prop where
  mem : ∀ r ∈ family, r ∈ all
  dropped : ∀ r ∈ all, r ∉ family → r ∈ references ∧ ∃ f ∈ d.source.model.fieldGroup group,
    d.movesField f = true ∧ f.declarator.covers r.span = true

namespace Splits

variable {family : List Replacement}
  (h : d.Splits body p stubs removals shared deleted references group declaration first last)
  (hfamily : d.Reduced group references p.replacements family)

include h hfamily

theorem laminar_reduced : Laminar family ∧ ∀ r ∈ family, r.span.Ordered :=
  ⟨h.laminar.left.mono hfamily.mem, fun r hr =>
    (h.laminar.right r (hfamily.mem r hr)).span.ordered⟩

-- Only what lies in a variable that moves may be missing.
theorem mem_of_beside {span : Span} (hr : r ∈ p.replacements) (hcovers : span.covers r.span = true)
    (hbeside : ∀ f ∈ d.source.model.fieldGroup group, d.movesField f = true →
      span.Beside f.declarator) : r ∈ family := by
  by_contra hnot
  obtain ⟨hmem, f, hf, hfmoves, hin⟩ := hfamily.dropped r hr hnot
  have hself := (hbeside f hf hfmoves).mono hcovers hin
  exact absurd rfl (hself.ne (h.of_mem_references hmem).right)

theorem mem_shrunk : d.shrunk group first last ∈ family := by
  have hmem : d.shrunk group first last ∈ p.replacements := by
    rw [h.assembled.patch]
    simp [h.mem_removals]
  by_contra hnot
  obtain ⟨-, f, hf, -, hcovers⟩ := hfamily.dropped _ hmem hnot
  exact h.not_covers_shrunk hf hcovers

theorem maximal : Maximal family (d.shrunk group first last) := by
  obtain ⟨f, hf, -⟩ := h.moves
  have hin := h.shares.mem hf
  refine ⟨h.mem_shrunk hfamily, by simp only [shrunk]; omega, fun r hr => ?_⟩
  refine Bool.eq_false_iff.mpr fun hencloses => ?_
  have hspan := encloses_iff.mp hencloses
  simp only [shrunk] at hspan
  cases h.seen (hfamily.mem r hr) with
  | before => omega
  | behind => omega
  | hull =>
    rw [encloses_self] at hencloses
    cases hencloses
  | front _ _ _ hstop =>
    simp only [shrunk] at hstop
    omega
  | inside _ _ hinner =>
    have hspan' := encloses_iff.mp hinner
    simp only [shrunk] at hspan'
    omega

-- No replacement reaches over an end of the declaration.
theorem isCut {a b c : Nat} (hb : b = declaration.span.start ∨ b = declaration.span.stop) :
    IsCut family a b c := by
  intro r hr _
  have hin := h.shares.mem (List.mem_of_getLast? h.shares.last)
  have := h.position (hfamily.mem r hr)
  omega

-- The variables that stay are shown with the references in them replaced.
theorem rendering_kept {f : Field} (hf : f ∈ d.source.model.fieldGroup group)
    (hstays : d.movesField f = false) :
    rendering d.source.text (family.filter (d.shrunk group first last).encloses) f.declarator =
      rendering d.source.text references f.declarator := by
  have hin := h.shares.mem hf
  obtain ⟨hlaminar, hordered⟩ := h.laminar_reduced hfamily
  refine rendering_congr_covers (fun r hcovers => ?_)
    (hlaminar.mono fun r hr => (List.mem_filter.mp hr).left)
    fun r hr => hordered r (List.mem_filter.mp hr).left
  have hspan := Span.covers_iff.mp hcovers
  rw [List.mem_filter]
  constructor
  · rintro ⟨hr, hencloses⟩
    have hinner := encloses_iff.mp hencloses
    have hr' : r.span.start ≤ r.span.stop := hordered r hr
    simp only [shrunk] at hinner
    cases h.seen (hfamily.mem r hr) with
    | before => omega
    | behind => omega
    | hull => simp at hencloses
    | front hmem => exact hmem
    | inside hmem => exact hmem
  · intro hr
    obtain ⟨hmem, hlt⟩ := h.of_mem_references hr
    refine ⟨h.mem_of_beside hfamily hmem hcovers fun g hg hmoves =>
      h.beside hf hg (by simp [hstays, hmoves]), ?_⟩
    cases h.seen hmem with
    | before => omega
    | behind => omega
    | hull => exact absurd hcovers (h.not_covers_shrunk hf)
    | front _ _ _ hstop =>
      simp only [shrunk] at hstop
      omega
    | inside _ _ hencloses => exact hencloses

-- Outside of the declaration nothing is missing.
theorem rendering_outside {span : Span}
    (hspan : span.stop ≤ declaration.span.start ∨ declaration.span.stop ≤ span.start) :
    rendering d.source.text family span = rendering d.source.text p.replacements span := by
  obtain ⟨hlaminar, hordered⟩ := h.laminar_reduced hfamily
  refine rendering_congr_covers (fun r hcovers => ⟨hfamily.mem r, fun hr => ?_⟩) hlaminar hordered
  refine h.mem_of_beside hfamily hr hcovers fun f hf _ => ?_
  have hin := h.shares.mem hf
  unfold Span.Beside
  omega

-- The text in front of the variables, what is inserted in front of the declaration aside.
theorem rendering_front :
    rendering d.source.text (beyond family declaration.span.start)
        ⟨declaration.span.start, first.declarator.start⟩ =
      rendering d.source.text references ⟨declaration.span.start, first.declarator.start⟩ := by
  obtain ⟨hlaminar, hordered⟩ := h.laminar_reduced hfamily
  have hmem : ∀ r ∈ beyond family declaration.span.start, r ∈ family :=
    fun r hr => (List.mem_filter.mp hr).left
  have hin := h.shares.mem (List.mem_of_getLast? h.shares.last)
  refine rendering_congr_covers (fun r hcovers => ⟨fun hr => ?_, fun hr => ?_⟩)
    (hlaminar.mono hmem) fun r hr => hordered r (hmem r hr)
  · have hstop := of_decide_eq_true (List.mem_filter.mp hr).right
    rw [Span.covers_iff] at hcovers
    simp only at hcovers
    cases h.seen (hfamily.mem r (hmem r hr)) with
    | before => omega
    | behind => omega
    | hull =>
      simp only [shrunk] at hcovers
      omega
    | front hmem => exact hmem
    | inside hmem => exact hmem
  · obtain ⟨hpatch, hlt⟩ := h.of_mem_references hr
    refine List.mem_filter.mpr ⟨h.mem_of_beside hfamily hpatch hcovers fun f hf _ => ?_, ?_⟩
    · have hin := h.shares.mem hf
      exact .inl hin.right.left
    · rw [Span.covers_iff] at hcovers
      simp only at hcovers
      exact decide_eq_true (by omega)

-- Behind the variables nothing is replaced.
theorem rendering_back :
    rendering d.source.text family ⟨last.declarator.stop, declaration.span.stop⟩ =
      Text.slice d.source.text ⟨last.declarator.stop, declaration.span.stop⟩ := by
  obtain ⟨hlaminar, hordered⟩ := h.laminar_reduced hfamily
  have hin := h.shares.mem (List.mem_of_getLast? h.shares.last)
  obtain ⟨hmem, hsound⟩ := h.shares.sound h.assembled.primary
  have hfits : Span.FitsIn ⟨last.declarator.stop, declaration.span.stop⟩ d.source.text := by
    obtain ⟨front, node, back, hsplit, hnode, -⟩ := h.shares.exists_back h.assembled.primary
    refine ⟨hin.right.right.right.right, ?_, hsound.fits.stop⟩
    exact hnode ▸ (hsound.of_mem_children (hsplit ▸ by simp)).fits.stop
  rw [← rendering_nil hfits]
  refine rendering_congr_covers (fun r hcovers => ⟨fun hr => ?_, fun hr => by cases hr⟩) hlaminar
    hordered
  have hposition := h.position (hfamily.mem r hr)
  have := hordered r hr
  rw [Span.covers_iff] at hcovers
  simp only [Span.Ordered] at *
  omega

-- Nothing is inserted where the declaration ends.
theorem rendering_beyond {c : Nat} :
    rendering d.source.text (beyond family declaration.span.stop) ⟨declaration.span.stop, c⟩ =
      rendering d.source.text family ⟨declaration.span.stop, c⟩ := by
  obtain ⟨hlaminar, hordered⟩ := h.laminar_reduced hfamily
  have hmem : ∀ r ∈ beyond family declaration.span.stop, r ∈ family :=
    fun r hr => (List.mem_filter.mp hr).left
  have hin := h.shares.mem (List.mem_of_getLast? h.shares.last)
  refine rendering_congr_covers (fun r hcovers => ⟨hmem r, fun hr => ?_⟩) (hlaminar.mono hmem)
    fun r hr => hordered r (hmem r hr)
  have hposition := h.position (hfamily.mem r hr)
  have := hordered r hr
  rw [Span.covers_iff] at hcovers
  simp only [Span.Ordered] at *
  exact List.mem_filter.mpr ⟨hr, decide_eq_true (by omega)⟩

-- The text of the class that stays, with a declaration put together again in it.
theorem rendering_reduced :
    rendering d.source.text family ⟨0, Text.byteLength d.source.text⟩ =
      rendering d.source.text p.replacements ⟨0, declaration.span.start⟩ ++
        d.remade group references declaration.span first last ++
          rendering d.source.text p.replacements
            ⟨declaration.span.stop, Text.byteLength d.source.text⟩ := by
  obtain ⟨hlaminar, hordered⟩ := h.laminar_reduced hfamily
  obtain ⟨hmem, hsound⟩ := h.shares.sound h.assembled.primary
  have hin := h.shares.mem (List.mem_of_getLast? h.shares.last)
  have hbound := Text.le_byteLength_of_isBoundary hsound.fits.stop
  have hcovers : Span.covers ⟨0, Text.byteLength d.source.text⟩
      (d.shrunk group first last).span = true :=
    Span.covers_iff.mpr ⟨Nat.zero_le _, Nat.le_trans hin.right.right.right.right hbound⟩
  have hfront : rendering d.source.text family ⟨0, first.declarator.start⟩ =
      rendering d.source.text p.replacements ⟨0, declaration.span.start⟩ ++
        rendering d.source.text references ⟨declaration.span.start, first.declarator.start⟩ := by
    rw [rendering_cut (h.isCut hfamily (.inl rfl)) hordered (Nat.zero_le _) hin.left,
      h.rendering_outside hfamily (.inl (Nat.le_refl _)), h.rendering_front hfamily]
  have hback : rendering d.source.text family
      ⟨last.declarator.stop, Text.byteLength d.source.text⟩ =
        Text.slice d.source.text ⟨last.declarator.stop, declaration.span.stop⟩ ++
          rendering d.source.text p.replacements
            ⟨declaration.span.stop, Text.byteLength d.source.text⟩ := by
    rw [rendering_cut (h.isCut hfamily (.inr rfl)) hordered hin.right.right.right.right hbound,
      h.rendering_back hfamily, h.rendering_beyond hfamily,
      h.rendering_outside hfamily (.inr (Nat.le_refl _))]
  have hshown : Replacement.shown d.source.text family (d.shrunk group first last) =
      [',', ' '].intercalate (((d.source.model.fieldGroup group).filter (!d.movesField ·)).map
        fun f => rendering d.source.text references f.declarator) := by
    refine (flatMap_survivors _ (rendering d.source.text
      (family.filter (d.shrunk group first last).encloses))).trans ?_
    refine congrArg _ (List.map_congr_left fun f hf => ?_)
    obtain ⟨hf, hstays⟩ := List.mem_filter.mp hf
    exact h.rendering_kept hfamily hf (by simpa using hstays)
  rw [rendering_split hlaminar hordered (h.maximal hfamily) hcovers]
  simp only [shrunk] at hshown ⊢
  rw [hfront, hback, hshown, remade]
  simp only [List.append_assoc]

theorem apply_reduced : Patch.apply ⟨family⟩ (String.ofList d.source.text) =
    .ok (String.ofList (rendering d.source.text p.replacements ⟨0, declaration.span.start⟩ ++
      d.remade group references declaration.span first last ++
        rendering d.source.text p.replacements
          ⟨declaration.span.stop, Text.byteLength d.source.text⟩)) := by
  have htext : (String.ofList d.source.text).toList = d.source.text := String.toList_ofList
  rw [Patch.apply_eq_of_laminar (p := ⟨family⟩)
    (fun r hr => by rw [htext]; exact h.laminar.right r (hfamily.mem r hr))
    (h.laminar_reduced hfamily).left, htext, h.rendering_reduced hfamily]

end Splits

-- The text with the declaration put together again. References in the variables that move play no
-- part: without any of them the text is the same.
theorem exists_shared_of_patchedSource (hd : d.OfSource source) (hout : d.patchedSource = .ok out)
    (hmoves : ∃ f ∈ d.source.model.fieldGroup group, d.movesField f = true)
    (hstays : ∃ f ∈ d.source.model.fieldGroup group, d.movesField f = false) :
    ∃ body p stubs removals shared deleted references declaration first last,
      d.patch = .ok p ∧ d.Assembled body p stubs removals shared deleted references ∧
        d.Shares body group declaration first last ∧
          out.toList = rendering d.source.text p.replacements ⟨0, declaration.span.start⟩ ++
            d.remade group references declaration.span first last ++
              rendering d.source.text p.replacements
                ⟨declaration.span.stop, Text.byteLength d.source.text⟩ ∧
          ∀ family, d.Reduced group references p.replacements family →
            Patch.apply ⟨family⟩ source = .ok out := by
  obtain ⟨p, hp, happly⟩ := bind_eq_ok.mp hout
  obtain ⟨htext, body, stubs, removals, shared, deleted, references, h⟩ := exists_assembled hd hp
  obtain ⟨f, hf, -⟩ := id hmoves
  obtain ⟨declaration, first, last, hs⟩ := exists_shares h.primary (List.ne_nil_of_mem hf)
  have hsplits : d.Splits body p stubs removals shared deleted references group declaration first
      last := ⟨⟨source, hd⟩, h, hs, hmoves, hstays⟩
  have hwhole : d.Reduced group references p.replacements p.replacements :=
    ⟨fun _ hr => hr, fun _ hr hnot => absurd hr hnot⟩
  have hsource : String.ofList d.source.text = source := by rw [htext, String.ofList_toList]
  have happlied := hsplits.apply_reduced hwhole
  rw [happlied] at happly
  cases happly
  refine ⟨body, p, stubs, removals, shared, deleted, references, declaration, first, last, hp, h,
    hs, String.toList_ofList, fun family hfamily => ?_⟩
  rw [← hsource]
  exact hsplits.apply_reduced hfamily

-- A declaration with an annotation, the first of two variables moves.
def sharedSource : String := "class A\x7b@M(X)static int X=1,b=X+2;\x7d"

def sharing (s : JavaSource) : Delegation where
  source := s
  newClass := "B"
  helper := none
  methods := []
  fields := fieldsOfList ((s.model.fields.filter (·.name == "X")).map (⟨·, none⟩))
  indent := "  "

theorem ofSource_sharing {s : JavaSource} (h : JavaSource.parse sharedSource none = .ok s) :
    (sharing s).OfSource sharedSource where
  parsed := ⟨none, h⟩
  methods _ hm := by cases hm
  fields := by
    refine ⟨(s.model.fields.filter (·.name == "X")).map (⟨·, none⟩), fun f hf => ?_, rfl⟩
    obtain ⟨field, hfield, rfl⟩ := List.mem_map.mp hf
    exact (List.mem_filter.mp hfield).left

def sharedReplacements : List Replacement :=
  [⟨⟨24, 33⟩, [.source ⟨28, 33⟩]⟩, .ofText ⟨11, 12⟩ "B.X", .ofText ⟨30, 31⟩ "B.X"]

theorem exists_patchedSource_sharing : ∃ s f g,
    JavaSource.parse sharedSource none = .ok s ∧ s.model.fieldGroup 0 = [f, g] ∧
      (sharing s).movesField f = true ∧ (sharing s).movesField g = false ∧
        Text.slice s.text ⟨f.declaration.start, f.declarator.start⟩ = "@M(X)static int ".toList ∧
          (sharing s).patchedSource = .ok "class A\x7b@M(B.X)static int b=B.X+2;\x7d" := by
  obtain ⟨s, hparse, hcheck⟩ := JavaSource.exists_parse_of_check sharedSource
    (fun s => (sharing s).patch.toOption.any (·.replacements = sharedReplacements) &&
      decide ((s.model.fieldGroup 0).map (fun f => ((sharing s).movesField f,
        Text.slice s.text ⟨f.declaration.start, f.declarator.start⟩)) =
          [(true, "@M(X)static int ".toList), (false, "@M(X)static int X=1,".toList)]))
    (by decide +kernel)
  obtain ⟨hpatch, hgroup⟩ := Bool.and_eq_true_iff.mp hcheck
  obtain ⟨f, rest, hfields, hf, hrest⟩ := List.map_eq_cons_iff.mp (of_decide_eq_true hgroup)
  obtain ⟨g, rest', rfl, hg, hnone⟩ := List.map_eq_cons_iff.mp hrest
  rw [List.map_eq_nil_iff.mp hnone] at hfields
  obtain ⟨hf, hslice⟩ := Prod.mk.inj hf
  refine ⟨s, f, g, hparse, hfields, hf, (Prod.mk.inj hg).left, hslice, ?_⟩
  cases hp : (sharing s).patch with
  | error e =>
    rw [hp] at hpatch
    cases hpatch
  | ok p =>
    rw [hp] at hpatch
    have hreplacements : p.replacements = sharedReplacements := of_decide_eq_true hpatch
    have happly : p.apply sharedSource = .ok "class A\x7b@M(B.X)static int b=B.X+2;\x7d" := by
      rw [show p = ⟨sharedReplacements⟩ from congrArg Patch.mk hreplacements]
      cbv
    obtain ⟨htext, -⟩ := exists_assembled (ofSource_sharing hparse) hp
    have htext' : (sharing s).source.text = sharedSource.toList := htext
    rw [patchedSource, hp, htext', String.ofList_toList]
    exact congrArg (Except.mapError _) happly

theorem exists_shared_sharing : ∃ s out, JavaSource.parse sharedSource none = .ok s ∧
    (sharing s).patchedSource = .ok out ∧
      (∃ f ∈ s.model.fieldGroup 0, (sharing s).movesField f = true) ∧
        (∃ f ∈ s.model.fieldGroup 0, (sharing s).movesField f = false) ∧
          ∃ body p stubs removals shared deleted references declaration first last,
            (sharing s).patch = .ok p ∧
              (sharing s).Assembled body p stubs removals shared deleted references ∧
              (sharing s).Shares body 0 declaration first last ∧
                out.toList = rendering s.text p.replacements ⟨0, declaration.span.start⟩ ++
                  (sharing s).remade 0 references declaration.span first last ++
                    rendering s.text p.replacements
                      ⟨declaration.span.stop, Text.byteLength s.text⟩ ∧
                ∀ family, (sharing s).Reduced 0 references p.replacements family →
                  Patch.apply ⟨family⟩ sharedSource = .ok out := by
  obtain ⟨s, f, g, hparse, hfields, hf, hg, -, hout⟩ := exists_patchedSource_sharing
  have hmoves : ∃ f ∈ s.model.fieldGroup 0, (sharing s).movesField f = true :=
    ⟨f, by simp [hfields], hf⟩
  have hstays : ∃ f ∈ s.model.fieldGroup 0, (sharing s).movesField f = false :=
    ⟨g, by simp [hfields], hg⟩
  exact ⟨s, _, hparse, hout, hmoves, hstays,
    exists_shared_of_patchedSource (ofSource_sharing hparse) hout hmoves hstays⟩

-- The text in front of the first variable need not stay as it is: the argument of an annotation may
-- refer to a variable that moves.
theorem not_infix_sharing : ∃ s out f g, JavaSource.parse sharedSource none = .ok s ∧
    (sharing s).patchedSource = .ok out ∧ s.model.fieldGroup 0 = [f, g] ∧
      (sharing s).movesField f = true ∧ (sharing s).movesField g = false ∧
        ¬Text.slice s.text ⟨f.declaration.start, f.declarator.start⟩ <:+: out.toList := by
  obtain ⟨s, f, g, hparse, hfields, hf, hg, hslice, hout⟩ := exists_patchedSource_sharing
  refine ⟨s, _, f, g, hparse, hout, hfields, hf, hg, ?_⟩
  rw [hslice]
  decide +kernel

end Delegation

end ClassSplit
