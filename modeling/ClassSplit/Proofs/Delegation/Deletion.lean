import ClassSplit.Proofs.Delegation.Patch

/-!
What is deleted with a declaration. The declarations of which all variables move go away, each with
the comments in front of it that begin a line and stand close to each other and to it. A deleted
span holds nothing else but blanks, and it takes whole lines unless other code stands on them. Main
statement: `Delegation.deletes_of_fieldRemovals`.
-/

namespace ClassSplit

open Java

variable {text : List Char} {siblings : List Node} {moves : Node → Prop} {s : Span}

-- The members of a class that go away: those that move, and comments that begin a line with at
-- most one newline and nothing else before what goes away.
inductive Goes (text : List Char) (siblings : List Node) (moves : Node → Prop) : Node → Prop
  | moved {n : Node} (mem : n ∈ siblings) (isMoved : moves n) : Goes text siblings moves n
  | comment {n m : Node} {front back : List Node} (split : siblings = front ++ n :: m :: back)
      (isComment : n.isComment = true) (leads : Text.Leads text n.span.start)
      (close : (Text.slice text ⟨n.span.stop, m.span.start⟩).count '\n' ≤ 1)
      (blank : Text.allBlank (Text.slice text ⟨n.span.stop, m.span.start⟩) = true)
      (next : Goes text siblings moves m) : Goes text siblings moves n

theorem Goes.mem {n : Node} (h : Goes text siblings moves n) : n ∈ siblings := by
  cases h with
  | moved mem => exact mem
  | comment split => exact split ▸ by simp

-- Every character of the span is blank or one of a member that goes away.
def Span.Spent (text : List Char) (siblings : List Node) (moves : Node → Prop) (s : Span) : Prop :=
  ∀ o c, s.holds o = true → Text.charAt? o text = some c →
    Text.isBlank c = true ∨ ∃ n, Goes text siblings moves n ∧ n.span.holds o = true

namespace Span.Spent

variable {a b c : Nat} {n : Node}

theorem point (a : Nat) : Spent text siblings moves ⟨a, a⟩ := by
  intro o c ho
  simp only [holds, Bool.and_eq_true, decide_eq_true_eq] at ho
  omega

theorem of_goes (h : Goes text siblings moves n) : n.span.Spent text siblings moves :=
  fun _ _ ho _ => .inr ⟨n, h, ho⟩

theorem of_allBlank (ha : Text.isBoundary a text = true) (hb : Text.isBoundary b text = true)
    (h : Text.allBlank (Text.slice text ⟨a, b⟩) = true) :
    Spent text siblings moves ⟨a, b⟩ := by
  intro o c ho hc
  simp only [holds, Bool.and_eq_true, decide_eq_true_eq] at ho
  exact .inl (List.all_eq_true.mp h c (Text.mem_slice_of_charAt? ha hb ho.left ho.right hc))

theorem append (hab : Spent text siblings moves ⟨a, b⟩) (hbc : Spent text siblings moves ⟨b, c⟩) :
    Spent text siblings moves ⟨a, c⟩ := by
  intro o d ho hd
  simp only [holds, Bool.and_eq_true, decide_eq_true_eq] at ho
  cases Nat.lt_or_ge o b with
  | inl hlt => exact hab o d (by simp [holds, ho.left, hlt]) hd
  | inr hge => exact hbc o d (by simp [holds, ho.right, hge]) hd

end Span.Spent

namespace Removal

variable {declaration m : Node} {before back : List Node} {r : Removal} {rs : List Removal}

-- The comments that are attached go away with what they are attached to, and what is in front of
-- them ends before them.
theorem goes_attachedStart (h : Members text siblings)
    (hsplit : siblings = before.reverse ++ m :: back) (hm : Goes text siblings moves m) :
    attachedStart text m.span.start before ≤ m.span.start ∧
      Span.Spent text siblings moves ⟨attachedStart text m.span.start before, m.span.start⟩ ∧
      (∃ n, Goes text siblings moves n ∧ attachedStart text m.span.start before = n.span.start) ∧
        ∀ n ∈ before, Goes text siblings moves n ∨
          n.span.stop ≤ attachedStart text m.span.start before := by
  induction before generalizing m back with
  | nil =>
    rw [attachedStart]
    exact ⟨Nat.le_refl _, .point _, ⟨m, hm, rfl⟩, by simp⟩
  | cons n before ih =>
    have hsplit' : siblings = before.reverse ++ n :: m :: back := by simp [hsplit]
    have hn : n ∈ siblings := hsplit' ▸ by simp
    rw [attachedStart]
    split
    case isFalse =>
      refine ⟨Nat.le_refl _, .point _, ⟨m, hm, rfl⟩, ?_⟩
      intro k hk
      have hordered := h.ordered
      rw [hsplit] at hordered
      exact .inr ((List.pairwise_append.mp hordered).right.right k (List.mem_reverse.mpr hk) m
        List.mem_cons_self)
    case isTrue hattached =>
      obtain ⟨hcomment, hclose, hblank, hindent⟩ := hattached
      have hnfits := (h.sound n hn).fits
      have hgoes : Goes text siblings moves n :=
        .comment hsplit' hcomment (Text.leads_of_leadingIndent hnfits.start hindent) hclose hblank
          hm
      obtain ⟨hle, hspent, hfrom, hbefore⟩ := ih hsplit' hgoes
      have hgap : Span.Spent text siblings moves ⟨n.span.stop, m.span.start⟩ :=
        .of_allBlank hnfits.stop (h.sound m hm.mem).fits.start hblank
      have hlt := h.nonempty hn
      have hnm : n.span.stop ≤ m.span.start := by
        have hordered := h.ordered
        rw [hsplit'] at hordered
        have hrest := (List.pairwise_append.mp hordered).right.left
        exact (List.pairwise_cons.mp hrest).left m List.mem_cons_self
      refine ⟨by omega, hspent.append ((Span.Spent.of_goes hgoes).append hgap), hfrom, ?_⟩
      intro k hk
      cases List.mem_cons.mp hk with
      | inl heq => exact .inl (heq ▸ hgoes)
      | inr hmem => exact hbefore k hmem

-- A removal of nothing but members that go away, with their lines or without.
structure Exact (text : List Char) (siblings : List Node) (moves : Node → Prop) (r : Removal) :
    Prop where
  spent : r.span.Spent text siblings moves
  goes : ∀ n ∈ siblings, r.span.covers n.span = true → Goes text siblings moves n
  lines : r.wholeLines = true → Text.StartsLine text r.span.start ∧ Text.EndsLine text r.span.stop
  ends : r.wholeLines = false → ∃ n m, Goes text siblings moves n ∧ m ∈ siblings ∧ moves m ∧
    r.span = ⟨n.span.start, m.span.stop⟩

-- The members in a removal are those in front that are attached and the declaration itself.
theorem goes_of_covers {o : Nat} (h : Members text siblings)
    (hsplit : siblings = before.reverse ++ m :: back) (hm : Goes text siblings moves m)
    (ho : Text.isBoundary o text = true)
    (hbefore : ∀ n ∈ before, Goes text siblings moves n ∨ n.span.stop ≤ o)
    (hends : r.span.start = o ∨ r.span.start = Text.lineStart text o ∧
      (Text.leadingIndent text o).isSome = true)
    (hstops : r.span.stop = m.span.stop ∨ r.span.stop = Text.lineEnd text m.span.stop ∧
      Text.restOfLineIsBlank text m.span.stop = true) :
    ∀ n ∈ siblings, r.span.covers n.span = true → Goes text siblings moves n := by
  intro n hn hcovers
  have hlt := h.nonempty hn
  rw [Span.covers_iff] at hcovers
  have hordered := h.ordered
  rw [hsplit] at hordered
  have hback := (List.pairwise_cons.mp (List.pairwise_append.mp hordered).right.left).left
  have hplace := hn
  rw [hsplit, List.mem_append, List.mem_reverse, List.mem_cons] at hplace
  obtain hfront | rfl | hbehind := hplace
  · obtain hgoes | hstop := hbefore n hfront
    · exact hgoes
    · have := stop_le_start_of_ends h ho hends n hn hstop
      omega
  · exact hm
  · have hstop := (h.sound m hm.mem).fits.stop
    have := stop_le_start_of_stops h hstop hstops n hn (hback n hbehind)
    omega

theorem exact_ofDeclaration (h : Members text siblings) (hmem : declaration ∈ siblings)
    (hmoves : moves declaration) :
    Exact text siblings moves (ofDeclaration text declaration siblings) := by
  obtain ⟨front, back, hsplit⟩ := List.append_of_mem hmem
  have hsplit' : siblings = front.reverse.reverse ++ declaration :: back := by
    rwa [List.reverse_reverse]
  have hgoes : Goes text siblings moves declaration := .moved hmem hmoves
  have hstop := (h.sound declaration hmem).fits.stop
  obtain ⟨-, hspent, ⟨first, hfirst, hstart⟩, hbefore⟩ := goes_attachedStart h hsplit' hgoes
  have ho : Text.isBoundary first.span.start text = true := (h.sound first hfirst.mem).fits.start
  obtain ⟨hends, hstops⟩ := ends_ofDeclaration text declaration siblings
  rw [h.takeWhile_eq hsplit, hstart] at hends
  rw [hstart] at hspent hbefore
  have hinner := hspent.append (.of_goes hgoes)
  have hcovered := goes_of_covers h hsplit' hgoes ho hbefore hends hstops
  simp only [ofDeclaration, h.takeWhile_eq hsplit, hstart] at hcovered ⊢
  split at hcovered
  case isTrue hlines =>
    rw [if_pos hlines]
    refine ⟨?_, hcovered, fun _ => ?_, fun hwhole => Bool.noConfusion hwhole⟩
    · have hindent : Span.Spent text siblings moves
          ⟨Text.lineStart text first.span.start, first.span.start⟩ :=
        .of_allBlank (Text.isBoundary_lineStart ho) ho (Text.allBlank_of_leadingIndent hlines.left)
      have hrest : Span.Spent text siblings moves
          ⟨declaration.span.stop, Text.lineEnd text declaration.span.stop⟩ :=
        .of_allBlank hstop (Text.isBoundary_lineEnd hstop) hlines.right
      exact (hindent.append hinner).append hrest
    · exact ⟨Text.startsLine_lineStart ho, Text.endsLine_lineEnd hstop⟩
  case isFalse hcut =>
    rw [if_neg hcut]
    exact ⟨hinner, hcovered, fun hwhole => Bool.noConfusion hwhole, fun _ =>
      ⟨first, declaration, hfirst, hmem, hmoves, rfl⟩⟩

theorem Exact.join {s : Removal} (h : Members text siblings) (hr : r.Exact text siblings moves)
    (hs : s.Exact text siblings moves) (hrc : r.Clean text siblings) (hwhole : r.wholeLines = true)
    (hwhole' : s.wholeLines = true) (htouch : r.span.stop = s.span.start) :
    Exact text siblings moves ⟨⟨r.span.start, s.span.stop⟩, true⟩ where
  spent := Span.Spent.append (b := r.span.stop) hr.spent (htouch ▸ hs.spent)
  goes := by
    intro n hn hcovers
    have hlt := h.nonempty hn
    rw [Span.covers_iff] at hcovers
    obtain hrn | hrn := hrc.clear n hn
    · exact hr.goes n hn hrn
    · refine hs.goes n hn (Span.covers_iff.mpr ?_)
      simp only [Span.Beside] at hrn hcovers ⊢
      omega
  lines _ := ⟨(hr.lines hwhole).left, (hs.lines hwhole').right⟩
  ends hcut := Bool.noConfusion hcut

theorem join_eq (r s : Removal) (rest : List Removal) :
    r.join (s :: rest) = r :: s :: rest ∨
      (r.wholeLines = true ∧ s.wholeLines = true ∧ r.span.stop = s.span.start) ∧
        r.join (s :: rest) = ⟨⟨r.span.start, s.span.stop⟩, true⟩ :: rest := by
  rw [join]
  split
  case isTrue h => exact .inr ⟨h, rfl⟩
  case isFalse => exact .inl rfl

-- What holds of two removals that are joined and then of the one that they become holds of all.
theorem forall_mem_joinAll {Q : Removal → Prop}
    (hjoin : ∀ r s, Q r → Q s → r.wholeLines = true → s.wholeLines = true →
      r.span.stop = s.span.start → Q ⟨⟨r.span.start, s.span.stop⟩, true⟩)
    (hrs : ∀ r ∈ rs, Q r) : ∀ r ∈ joinAll rs, Q r := by
  have hfoldr : ∀ rs : List Removal, (∀ r ∈ rs, Q r) → ∀ r ∈ rs.foldr join [], Q r := by
    intro rs hrs
    induction rs with
    | nil => simp
    | cons r rs ih =>
      obtain ⟨hr, hrest⟩ := List.forall_mem_cons.mp hrs
      have htail := ih hrest
      rw [List.foldr_cons]
      cases hjoined : rs.foldr join [] with
      | nil => simpa [join] using hr
      | cons s rest =>
        rw [hjoined] at htail
        obtain ⟨hs, hrest'⟩ := List.forall_mem_cons.mp htail
        obtain heq | ⟨⟨hwhole, hwhole', htouch⟩, heq⟩ := join_eq r s rest
        · exact heq ▸ List.forall_mem_cons.mpr ⟨hr, htail⟩
        · exact heq ▸ List.forall_mem_cons.mpr ⟨hjoin r s hr hs hwhole hwhole' htouch, hrest'⟩
  refine hfoldr _ fun r hr => hrs r ((List.mergeSort_perm rs _).mem_iff.mp hr)

-- Joining loses nothing.
theorem exists_mem_joinAll (hrs : ∀ r ∈ rs, r.span.Ordered) (hr : r ∈ rs) :
    ∃ s ∈ joinAll rs, s.span.covers r.span = true := by
  have hfoldr : ∀ rs : List Removal, (∀ r ∈ rs, r.span.Ordered) →
      (∀ r ∈ rs.foldr join [], r.span.Ordered) ∧
        ∀ r ∈ rs, ∃ s ∈ rs.foldr join [], s.span.covers r.span = true := by
    intro rs hrs
    induction rs with
    | nil => simp
    | cons r rs ih =>
      obtain ⟨hr, hrest⟩ := List.forall_mem_cons.mp hrs
      obtain ⟨hordered, hcovered⟩ := ih hrest
      rw [List.foldr_cons]
      cases hjoined : rs.foldr join [] with
      | nil =>
        rw [hjoined] at hcovered
        refine ⟨by simpa [join] using hr, List.forall_mem_cons.mpr ⟨?_, ?_⟩⟩
        · exact ⟨r, List.mem_cons_self, Span.covers_refl _⟩
        · intro t ht
          obtain ⟨_, hmem, -⟩ := hcovered t ht
          cases hmem
      | cons s rest =>
        rw [hjoined] at hordered hcovered
        obtain ⟨hs, hrest'⟩ := List.forall_mem_cons.mp hordered
        unfold Span.Ordered at hr hs
        obtain heq | ⟨⟨-, -, htouch⟩, heq⟩ := join_eq r s rest
        · rw [heq]
          refine ⟨List.forall_mem_cons.mpr ⟨hr, hordered⟩, List.forall_mem_cons.mpr ⟨?_, ?_⟩⟩
          · exact ⟨r, List.mem_cons_self, Span.covers_refl _⟩
          · intro t ht
            obtain ⟨u, hu, hcovers⟩ := hcovered t ht
            exact ⟨u, List.mem_cons_of_mem _ hu, hcovers⟩
        · rw [heq]
          refine ⟨List.forall_mem_cons.mpr ⟨?_, hrest'⟩, List.forall_mem_cons.mpr ⟨?_, ?_⟩⟩
          · simp only [Span.Ordered]
            omega
          · exact ⟨_, List.mem_cons_self, Span.covers_iff.mpr ⟨Nat.le_refl _, by simp only; omega⟩⟩
          · intro t ht
            obtain ⟨u, hu, hcovers⟩ := hcovered t ht
            obtain rfl | hu := List.mem_cons.mp hu
            · refine ⟨_, List.mem_cons_self, Span.covers_trans (Span.covers_iff.mpr ?_) hcovers⟩
              exact ⟨by simp only; omega, Nat.le_refl _⟩
            · exact ⟨u, List.mem_cons_of_mem _ hu, hcovers⟩
  exact (hfoldr _ fun r hr => hrs r ((List.mergeSort_perm rs _).mem_iff.mp hr)).right r
    ((List.mergeSort_perm rs _).mem_iff.mpr hr)

end Removal

-- What is deleted at one place.
structure Deletes (text : List Char) (siblings : List Node) (moves : Node → Prop) (s : Span) :
    Prop where
  fits : s.FitsIn text
  spent : s.Spent text siblings moves
  spares : ∀ n ∈ siblings, ¬Goes text siblings moves n → s.Beside n.span
  lines : Text.StartsLine text s.start ∧ Text.EndsLine text s.stop ∨
    ∃ n m, Goes text siblings moves n ∧ m ∈ siblings ∧ moves m ∧ s = ⟨n.span.start, m.span.stop⟩

namespace Removal

variable {declaration : Node} {r : Removal}

theorem absorbing_eq (text : List Char) (r : Removal) :
    r.absorbing text = r.span ∨ r.wholeLines = true ∧
      Text.restOfLineIsBlank text r.span.stop = true ∧
        r.absorbing text = ⟨r.span.start, Text.lineEnd text r.span.stop⟩ := by
  simp only [absorbing]
  split
  case isTrue h => exact .inr ⟨h.left, h.right.right.left, rfl⟩
  case isFalse => exact .inl rfl

theorem Exact.deletes (h : Members text siblings) (hr : r.Exact text siblings moves)
    (hclean : r.Clean text siblings) : Deletes text siblings moves (r.absorbing text) where
  fits := hclean.fits_absorbing
  spent := by
    obtain heq | ⟨-, hblank, heq⟩ := absorbing_eq text r
    · exact heq ▸ hr.spent
    · have hstop := hclean.fits.stop
      have hline : Span.Spent text siblings moves
          ⟨r.span.stop, Text.lineEnd text r.span.stop⟩ :=
        .of_allBlank hstop (Text.isBoundary_lineEnd hstop) hblank
      exact heq ▸ Span.Spent.append hr.spent hline
  spares := by
    intro n hn hstays
    obtain hcovers | hbeside := hclean.clear n hn
    · exact absurd (hr.goes n hn hcovers) hstays
    · exact hclean.beside_absorbing h hn hbeside
  lines := by
    obtain heq | ⟨hwhole, -, heq⟩ := absorbing_eq text r
    · rw [heq]
      cases hwhole : r.wholeLines with
      | true => exact .inl (hr.lines hwhole)
      | false => exact .inr (hr.ends hwhole)
    · rw [heq]
      exact .inl ⟨(hr.lines hwhole).left, Text.endsLine_lineEnd hclean.fits.stop⟩

theorem covers_ofDeclaration (h : Members text siblings) (hmem : declaration ∈ siblings) :
    (ofDeclaration text declaration siblings).span.covers declaration.span = true := by
  obtain ⟨front, back, hsplit⟩ := List.append_of_mem hmem
  have hgoes : Goes text siblings (· = declaration) declaration := .moved hmem rfl
  have hsplit' : siblings = front.reverse.reverse ++ declaration :: back := by
    rwa [List.reverse_reverse]
  obtain ⟨hle, -⟩ := goes_attachedStart h hsplit' hgoes
  obtain ⟨hends, hstops⟩ := ends_ofDeclaration text declaration siblings
  rw [h.takeWhile_eq hsplit] at hends
  have hline := Text.lineStart_le text (attachedStart text declaration.span.start front.reverse)
  have hline' := Text.le_lineEnd text declaration.span.stop
  exact Span.covers_iff.mpr ⟨by omega, by omega⟩

end Removal

namespace Delegation

variable {d : Delegation} {body : Site} {source : String} {removals : FieldRemovals}

-- All variables of the declaration move.
structure Leaves (d : Delegation) (n : Node) : Prop where
  declares : ∃ f ∈ d.source.model.fields, f.declaration = n.span
  moves : ∀ f ∈ d.source.model.fields, f.declaration = n.span → d.movesField f = true

theorem mem_fieldGroup_iff {group : Nat} {n : Node} {f : Field} (h : d.source.PrimaryBody body)
    (hat : body.node.namedChildren[group]? = some n) :
    f ∈ d.source.model.fieldGroup group ↔ f ∈ d.source.model.fields ∧ f.declaration = n.span := by
  have hmem := (List.mem_filter.mp (List.mem_of_getElem? hat)).left
  constructor
  · intro hf
    obtain ⟨hfield, hgroup⟩ := List.mem_filter.mp hf
    obtain ⟨declaration, hdeclaration, -, hread⟩ := h.exists_declaration hfield
    rw [beq_iff_eq.mp hgroup, hat, Option.some.injEq] at hdeclaration
    exact ⟨hfield, hdeclaration ▸ (JavaSource.of_mem_readFields hread).right.left⟩
  · rintro ⟨hfield, hspan⟩
    obtain ⟨declaration, hdeclaration, -, hread⟩ := h.exists_declaration hfield
    have hspan' := (JavaSource.of_mem_readFields hread).right.left
    have hmem' := (List.mem_filter.mp (List.mem_of_getElem? hdeclaration)).left
    refine List.mem_filter.mpr ⟨hfield, beq_iff_eq.mpr ?_⟩
    obtain rfl | hbeside := h.sound.eq_or_beside hmem' hmem
    · exact h.index_unique hdeclaration hat
    · exact absurd (hspan'.symm.trans hspan) (hbeside.ne (h.of_mem_children hmem').left.nonempty)

theorem leaves_iff {group : Nat} {n : Node} (h : d.source.PrimaryBody body)
    (hat : body.node.namedChildren[group]? = some n) :
    d.Leaves n ↔ d.source.model.fieldGroup group ≠ [] ∧
      ∀ f ∈ d.source.model.fieldGroup group, d.movesField f = true := by
  have hiff (f : Field) := mem_fieldGroup_iff (f := f) h hat
  constructor
  · rintro ⟨⟨f, hf, hspan⟩, hmoves⟩
    refine ⟨List.ne_nil_of_mem ((hiff f).mpr ⟨hf, hspan⟩), fun g hg => ?_⟩
    obtain ⟨hfield, hdeclaration⟩ := (hiff g).mp hg
    exact hmoves g hfield hdeclaration
  · rintro ⟨hne, hmoves⟩
    obtain ⟨f, hf⟩ := List.exists_mem_of_ne_nil _ hne
    exact ⟨⟨f, (hiff f).mp hf⟩, fun g hg hspan => hmoves g ((hiff g).mpr ⟨hg, hspan⟩)⟩

theorem mem_movedGroups_of_movesField {f : Field} (h : d.movesField f = true) :
    f.group ∈ d.movedGroups := by
  obtain ⟨g, hg, -⟩ := List.any_eq_true.mp h
  obtain ⟨hg, hgroup⟩ := List.mem_filter.mp hg
  obtain ⟨entry, hentry, rfl⟩ := List.mem_map.mp hg
  refine List.mem_eraseDups.mpr ((List.mergeSort_perm _ _).mem_iff.mpr ?_)
  exact List.mem_map.mpr ⟨entry, hentry, beq_iff_eq.mp hgroup⟩

theorem survivors_ne_nil {fs : List Field} (h : fs ≠ []) : survivors fs ≠ [] := by
  match fs with
  | [] => exact absurd rfl h
  | [f] => simp [survivors]
  | f :: g :: rest => simp [survivors]

namespace Gathered

variable {shared whole : List Nat} {rs : List Removal}

theorem exact (hg : d.Gathered removals shared whole rs) (h : d.source.PrimaryBody body) :
    ∀ r ∈ rs, r.Exact d.source.text body.node.children d.Leaves := by
  intro r hr
  obtain ⟨group, hgroup, f, hf, rfl, hfr⟩ := hg.exists_field hr
  obtain ⟨declaration, hat, -, rfl⟩ := eq_ofDeclaration_of_declarationRemoval h hf hfr
  have hmem := (List.mem_filter.mp (List.mem_of_getElem? hat)).left
  obtain ⟨-, hleaves⟩ := (hg.whole_iff f.group).mp hgroup
  exact Removal.exact_ofDeclaration h.members hmem ((leaves_iff h hat).mpr hleaves)

-- Every declaration of which all variables move has a removal.
theorem exists_covers {n : Node} (hg : d.Gathered removals shared whole rs)
    (h : d.source.PrimaryBody body) (hn : n ∈ body.node.children) (hleaves : d.Leaves n) :
    ∃ r ∈ rs, r.span.covers n.span = true := by
  obtain ⟨f, hf, hspan⟩ := hleaves.declares
  obtain ⟨declaration, hat, -, hread⟩ := h.exists_declaration hf
  have hmem := (List.mem_filter.mp (List.mem_of_getElem? hat)).left
  have hspan' := (JavaSource.of_mem_readFields hread).right.left
  obtain rfl : declaration = n := by
    obtain heq | hbeside := h.sound.eq_or_beside hmem hn
    · exact heq
    · exact absurd (hspan'.symm.trans hspan) (hbeside.ne (h.of_mem_children hmem).left.nonempty)
  obtain ⟨hne, hmoves⟩ := (leaves_iff h hat).mp hleaves
  have hgroup : f.group ∈ whole := (hg.whole_iff f.group).mpr
    ⟨mem_movedGroups_of_movesField (hleaves.moves f hf hspan), hne, hmoves⟩
  obtain ⟨g, rest, hfields⟩ := List.exists_cons_of_ne_nil hne
  have hfirst : g ∈ whole.flatMap fun group => (d.source.model.fieldGroup group).take 1 :=
    List.mem_flatMap.mpr ⟨f.group, hgroup, by simp [hfields]⟩
  obtain ⟨us, r, vs, -, -, rfl, -, hr, -⟩ := exists_of_mem_forall₂ hg.removed hfirst
  obtain ⟨hgfield, hggroup⟩ := List.mem_filter.mp (hfields ▸ List.mem_cons_self :
    g ∈ d.source.model.fieldGroup f.group)
  obtain ⟨other, hat', -, rfl⟩ := eq_ofDeclaration_of_declarationRemoval h hgfield hr
  rw [beq_iff_eq.mp hggroup, hat, Option.some.injEq] at hat'
  subst hat'
  exact ⟨_, List.mem_append_right us List.mem_cons_self,
    Removal.covers_ofDeclaration h.members hmem⟩

-- The other replacements put something in the place of what they replace.
theorem filter_isEmpty (hg : d.Gathered removals shared whole rs) :
    removals.replacements.filter (·.pieces.isEmpty) =
      ((Removal.joinAll rs).map (·.absorbing d.source.text)).map Replacement.deletion := by
  rw [hg.replacements, List.filter_append, List.filter_eq_nil_iff.mpr, List.nil_append,
    List.filter_eq_self.mpr]
  · intro r hr
    obtain ⟨span, -, rfl⟩ := List.mem_map.mp hr
    rfl
  · intro r hr
    obtain ⟨group, hgroup, hr⟩ := List.mem_flatMap.mp hr
    obtain ⟨-, f, hf, hstays⟩ := (hg.shared_iff group).mp hgroup
    have hkept : (d.source.model.fieldGroup group).filter (!d.movesField ·) ≠ [] :=
      List.ne_nil_of_mem (List.mem_filter.mpr ⟨hf, by simp [hstays]⟩)
    simp only [shrinkGroup] at hr
    split at hr
    case h_1 =>
      rw [List.mem_singleton.mp hr, List.isEmpty_iff]
      exact survivors_ne_nil hkept
    case h_2 => cases hr

theorem deletes (hg : d.Gathered removals shared whole rs) (h : d.source.PrimaryBody body) :
    ∀ s ∈ (Removal.joinAll rs).map (·.absorbing d.source.text),
      Deletes d.source.text body.node.children d.Leaves s := by
  have hmembers := h.members
  have hexact : ∀ r ∈ Removal.joinAll rs,
      r.Clean d.source.text body.node.children ∧
        r.Exact d.source.text body.node.children d.Leaves := by
    refine Removal.forall_mem_joinAll ?_ fun r hr => ⟨hg.clean h r hr, hg.exact h r hr⟩
    rintro r s ⟨hrc, hre⟩ ⟨hsc, hse⟩ hwhole hwhole' htouch
    exact ⟨hrc.join (fun n hn => hmembers.nonempty hn) hsc htouch,
      hre.join hmembers hse hrc hwhole hwhole' htouch⟩
  intro s hs
  obtain ⟨r, hr, rfl⟩ := List.mem_map.mp hs
  exact (hexact r hr).right.deletes hmembers (hexact r hr).left

-- A declaration of which a variable stays is not deleted with others.
theorem beside_of_stays {s : Span} {f : Field} {n : Node}
    (hg : d.Gathered removals shared whole rs) (h : d.source.PrimaryBody body)
    (hs : .deletion s ∈ removals.replacements) (hn : n ∈ body.node.children)
    (hkind : n.kind = .fieldDeclaration) (hf : f ∈ d.source.model.fields)
    (hspan : f.declaration = n.span) (hstays : d.movesField f = false) : s.Beside n.span := by
  have hdeleted : Replacement.deletion s ∈ removals.replacements.filter (·.pieces.isEmpty) :=
    List.mem_filter.mpr ⟨hs, rfl⟩
  rw [hg.filter_isEmpty] at hdeleted
  obtain ⟨t, ht, heq⟩ := List.mem_map.mp hdeleted
  obtain rfl : t = s := (Replacement.mk.inj heq).left
  refine (hg.deletes h t ht).spares n hn fun hgoes => ?_
  cases hgoes with
  | moved _ hleaves =>
    rw [hleaves.moves f hf hspan] at hstays
    cases hstays
  | comment _ hcomment =>
    rw [Node.isComment, hkind] at hcomment
    cases hcomment

end Gathered

theorem deletes_of_fieldRemovals (hd : d.OfSource source) (hr : d.fieldRemovals = .ok removals) :
    ∃ (body : Site) (deleted : List Span), d.source.classBody? = some body ∧
      removals.replacements.filter (·.pieces.isEmpty) = deleted.map Replacement.deletion ∧
        deleted.Pairwise Span.Beside ∧
          (∀ n ∈ body.node.children, d.Leaves n → ∃! s, s ∈ deleted ∧ s.covers n.span = true) ∧
            ∀ s ∈ deleted, Deletes d.source.text body.node.children d.Leaves s := by
  obtain ⟨wanted, hparsed⟩ := hd.parsed
  obtain ⟨body, h, -⟩ := JavaSource.exists_primaryBody_of_parse hparsed
  obtain ⟨shared, whole, rs, hg⟩ := exists_gathered hr
  have hmembers := h.members
  have hclean := hg.clean h
  obtain ⟨hjoined, horder⟩ := Removal.clean_joinAll (fun n hn => hmembers.nonempty hn) hclean
    (hg.beside h)
  have hdeleted := Removal.inOrder_absorbing hjoined horder
  refine ⟨body, _, h.found, hg.filter_isEmpty, hdeleted.pairwise.imp fun hle => .inl hle, ?_, ?_⟩
  · intro n hn hleaves
    obtain ⟨r, hr, hcovers⟩ := hg.exists_covers h hn hleaves
    obtain ⟨s, hs, hcovers'⟩ :=
      Removal.exists_mem_joinAll (fun r hr => (hclean r hr).fits.ordered) hr
    have habsorbing : (s.absorbing d.source.text).covers s.span = true :=
      Span.covers_iff.mpr ⟨Nat.le_of_eq (Removal.start_absorbing _ s),
        Removal.le_stop_absorbing _ s⟩
    have hall := Span.covers_trans habsorbing (Span.covers_trans hcovers' hcovers)
    refine ⟨_, ⟨List.mem_map_of_mem hs, hall⟩, ?_⟩
    rintro t ⟨ht, htcovers⟩
    obtain heq | hbeside := Span.InOrder.eq_or_beside (f := id) (by rwa [List.map_id]) ht
      (List.mem_map_of_mem hs)
    · exact heq
    · have hself := hbeside.mono htcovers hall
      exact absurd rfl (hself.ne (hmembers.nonempty hn))
  · exact hg.deletes h

-- A class without its fields.
def clearing (s : JavaSource) : Delegation where
  source := s
  newClass := "B"
  helper := none
  methods := []
  fields := fieldsOfList (s.model.fields.map (⟨·, none⟩))
  indent := "  "

theorem ofSource_clearing {s : JavaSource} (h : JavaSource.parse source none = .ok s) :
    (clearing s).OfSource source where
  parsed := ⟨none, h⟩
  methods _ hm := by cases hm
  fields := by
    refine ⟨s.model.fields.map (⟨·, none⟩), fun f hf => ?_, rfl⟩
    obtain ⟨field, hfield, rfl⟩ := List.mem_map.mp hf
    exact hfield

-- The only declaration, with a comment above it and a blank line below.
def annotatedSource : String := "class A\x7b\n  // n\n  int x;\n\n  void m()\x7b\x7d\n\x7d"

theorem deletes_of_fieldRemovals_annotated : ∃ s removals body,
    JavaSource.parse annotatedSource none = .ok s ∧ (clearing s).fieldRemovals = .ok removals ∧
      removals.replacements = [.deletion ⟨9, 26⟩] ∧ s.classBody? = some body ∧
        Deletes s.text body.node.children (clearing s).Leaves ⟨9, 26⟩ := by
  obtain ⟨s, hparse, hcheck⟩ := JavaSource.exists_parse_of_check annotatedSource
    (fun s => (clearing s).fieldRemovals.toOption.any (·.replacements = [.deletion ⟨9, 26⟩]))
    (by decide +kernel)
  cases hr : (clearing s).fieldRemovals with
  | error e =>
    rw [hr] at hcheck
    cases hcheck
  | ok removals =>
    rw [hr] at hcheck
    have hdeletion : removals.replacements = [.deletion ⟨9, 26⟩] := of_decide_eq_true hcheck
    obtain ⟨body, deleted, hbody, hfilter, -, -, hdeletes⟩ :=
      deletes_of_fieldRemovals (ofSource_clearing hparse) hr
    have hmem : (⟨9, 26⟩ : Span) ∈ deleted := by
      rw [hdeletion] at hfilter
      have hmapped : Replacement.deletion ⟨9, 26⟩ ∈ deleted.map Replacement.deletion :=
        hfilter ▸ List.mem_cons_self
      obtain ⟨span, hspan, heq⟩ := List.mem_map.mp hmapped
      rwa [← (Replacement.mk.inj heq).left]
    exact ⟨s, removals, body, hparse, hr, hdeletion, hbody, hdeletes _ hmem⟩

end Delegation

end ClassSplit
