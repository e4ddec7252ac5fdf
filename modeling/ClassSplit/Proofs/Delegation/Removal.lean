import ClassSplit.Delegation.Removal
import ClassSplit.Proofs.Delegation.Basic
import ClassSplit.Proofs.Text.Layout

/-!
What the removal of fields deletes. A deleted span takes every member of the class as a whole or
leaves it alone, because a removal ends where a declaration or its line ends, and begins where a
member or its line begins. Deleted spans do not meet, also after they have been joined and widened.
-/

namespace ClassSplit

open Java

variable {text : List Char} {siblings : List Node}

-- Every node lies in the span or beside it.
def Span.Clear (ns : List Node) (s : Span) : Prop :=
  ∀ n ∈ ns, s.covers n.span = true ∨ s.Beside n.span

-- No node lies in the span but comments and declarations of fields.
def Span.Light (ns : List Node) (s : Span) : Prop :=
  ∀ n ∈ ns, s.covers n.span = true → n.isComment = true ∨ n.kind = .fieldDeclaration

-- The members of a class, comments included, which begin and end with what is not blank.
structure Members (text : List Char) (siblings : List Node) : Prop where
  sound : ∀ n ∈ siblings, n.Sound text
  solid : ∀ n ∈ siblings, Text.Solid (Text.slice text n.span)
  ordered : siblings.Pairwise (·.span.stop ≤ ·.span.start)

namespace Members

variable {n m : Node}

theorem nonempty (h : Members text siblings) (hn : n ∈ siblings) : n.span.start < n.span.stop :=
  (h.sound n hn).nonempty

theorem starts (h : Members text siblings) (hn : n ∈ siblings) : Text.Starts text n.span.start :=
  Text.starts_of_solid (h.sound n hn).fits (h.solid n hn)

-- One node among the others, with those before it and those behind it.
theorem exists_split (h : Members text siblings) (hn : n ∈ siblings) :
    ∃ front back, siblings = front ++ n :: back ∧ (∀ m ∈ front, m.span.stop ≤ n.span.start) ∧
      (∀ m ∈ back, n.span.stop ≤ m.span.start) ∧
        front.Pairwise (·.span.stop ≤ ·.span.start) := by
  obtain ⟨front, back, rfl⟩ := List.append_of_mem hn
  obtain ⟨hfront, hrest, hcross⟩ := List.pairwise_append.mp h.ordered
  exact ⟨front, back, rfl, fun m hm => hcross m hm n List.mem_cons_self,
    (List.pairwise_cons.mp hrest).left, hfront⟩

-- What is listed before a node lies before it in the text.
theorem takeWhile_eq {front back : List Node} (h : Members text siblings)
    (hsplit : siblings = front ++ n :: back) : siblings.takeWhile (·.span != n.span) = front := by
  have hordered := h.ordered
  rw [hsplit] at hordered
  have hfront := (List.pairwise_append.mp hordered).right.right
  have hne : ∀ m ∈ front, (m.span != n.span) = true := by
    intro m hm
    have hbeside : m.span.Beside n.span := .inl (hfront m hm n List.mem_cons_self)
    exact bne_iff_ne.mpr (hbeside.ne (h.nonempty (hsplit ▸ List.mem_append_left _ hm)))
  rw [hsplit, List.takeWhile_append_of_pos hne, List.takeWhile_cons_of_neg (by simp),
    List.append_nil]

end Members

namespace Removal

section AttachedStart

-- Only comments are attached, and all else in front ends before them.
theorem attachedStart_spec (text : List Char) {start : Nat} {before : List Node}
    (hnonempty : ∀ n ∈ before, n.span.start < n.span.stop)
    (hstop : ∀ n ∈ before, n.span.stop ≤ start)
    (hordered : before.Pairwise fun n m => m.span.stop ≤ n.span.start) :
    attachedStart text start before ≤ start ∧
      (attachedStart text start before = start ∨
        ∃ n ∈ before, attachedStart text start before = n.span.start) ∧
      ∀ n ∈ before, n.isComment = true ∧ attachedStart text start before ≤ n.span.start ∨
        n.span.stop ≤ attachedStart text start before := by
  induction before generalizing start with
  | nil => exact ⟨Nat.le_refl _, .inl rfl, by simp⟩
  | cons n before ih =>
    obtain ⟨hn, hbefore⟩ := List.pairwise_cons.mp hordered
    have hlt := hnonempty n List.mem_cons_self
    have hle := hstop n List.mem_cons_self
    rw [attachedStart]
    split
    case isFalse => exact ⟨Nat.le_refl _, .inl rfl, fun m hm => .inr (hstop m hm)⟩
    case isTrue hattached =>
      obtain ⟨hstart, hfrom, hall⟩ :=
        ih (fun m hm => hnonempty m (List.mem_cons_of_mem _ hm)) hn hbefore
      refine ⟨by omega, .inr ?_, ?_⟩
      · obtain heq | ⟨m, hm, heq⟩ := hfrom
        · exact ⟨n, List.mem_cons_self, heq⟩
        · exact ⟨m, List.mem_cons_of_mem _ hm, heq⟩
      · intro m hm
        cases List.mem_cons.mp hm with
        | inl heq =>
          subst heq
          exact .inl ⟨hattached.left, hstart⟩
        | inr hmem => exact hall m hmem

end AttachedStart

-- A removal that cuts no member and begins with one, or at the start of the line of one.
structure Clean (text : List Char) (siblings : List Node) (r : Removal) : Prop where
  fits : r.span.FitsIn text
  clear : r.span.Clear siblings
  light : r.span.Light siblings
  anchored : ∃ o, Text.isBoundary o text = true ∧ Text.Starts text o ∧ r.span.start ≤ o ∧
    o < r.span.stop ∧ (r.span.start = o ∨ r.span.start = Text.lineStart text o)

namespace Clean

variable {r s : Removal} {o : Nat}

theorem nonempty (h : r.Clean text siblings) : r.span.start < r.span.stop := by
  obtain ⟨o, -, -, hle, hlt, -⟩ := h.anchored
  omega

-- The blank end of a line does not reach a removal that begins behind it.
theorem lineEnd_le_start (h : r.Clean text siblings) (ho : Text.isBoundary o text = true)
    (hle : o ≤ r.span.start)
    (hblank : Text.allBlank (Text.slice text ⟨o, Text.lineEnd text o⟩) = true) :
    Text.lineEnd text o ≤ r.span.start := by
  obtain ⟨p, hp, hstarts, hstart, -, hanchor⟩ := h.anchored
  have hend : Text.lineEnd text o ≤ p :=
    Text.le_of_allBlank hstarts (Nat.le_trans hle hstart) ho (Text.isBoundary_lineEnd ho) hblank
  cases hanchor with
  | inl heq => exact heq ▸ hend
  | inr heq => exact heq ▸ Text.lineEnd_le_lineStart ho hp hstarts hend

end Clean

section OfDeclaration

variable {declaration other : Node}

-- A removal starts at a member or at the start of its line, and ends with its declaration or with
-- the line of it.
theorem ends_ofDeclaration (text : List Char) (declaration : Node) (siblings : List Node) :
    let o := attachedStart text declaration.span.start
      (siblings.takeWhile (·.span != declaration.span)).reverse
    let r := ofDeclaration text declaration siblings
    (r.span.start = o ∨ r.span.start = Text.lineStart text o ∧
        (Text.leadingIndent text o).isSome = true) ∧
      (r.span.stop = declaration.span.stop ∨
        r.span.stop = Text.lineEnd text declaration.span.stop ∧
          Text.restOfLineIsBlank text declaration.span.stop = true) := by
  simp only [ofDeclaration]
  split
  case isTrue h => exact ⟨.inr ⟨rfl, h.left⟩, .inr ⟨rfl, h.right⟩⟩
  case isFalse => exact ⟨.inl rfl, .inl rfl⟩

-- A member that ends before an offset ends before the line of it, if the line is indented up to it.
theorem stop_le_start_of_ends {o : Nat} {r : Removal} (h : Members text siblings)
    (ho : Text.isBoundary o text = true)
    (hends : r.span.start = o ∨ r.span.start = Text.lineStart text o ∧
      (Text.leadingIndent text o).isSome = true) :
    ∀ n ∈ siblings, n.span.stop ≤ o → n.span.stop ≤ r.span.start := by
  intro n hn hno
  obtain heq | ⟨heq, hindent⟩ := hends
  · omega
  · exact heq ▸ Text.stop_le_lineStart (h.sound n hn).fits (h.solid n hn) ho hno hindent

-- A member that begins behind an offset begins behind the line of it, if the rest of it is blank.
theorem stop_le_start_of_stops {e : Nat} {r : Removal} (h : Members text siblings)
    (he : Text.isBoundary e text = true)
    (hstops : r.span.stop = e ∨ r.span.stop = Text.lineEnd text e ∧
      Text.restOfLineIsBlank text e = true) :
    ∀ n ∈ siblings, e ≤ n.span.start → r.span.stop ≤ n.span.start := by
  intro n hn hno
  obtain heq | ⟨heq, hblank⟩ := hstops
  · omega
  · rw [heq]
    exact Text.le_of_allBlank (h.starts hn) hno he (Text.isBoundary_lineEnd he) hblank

structure Removes (text : List Char) (siblings : List Node) (declaration : Node) (r : Removal) :
    Prop where
  clean : r.Clean text siblings
  stop : r.span.stop = declaration.span.stop ∨
    r.span.stop = Text.lineEnd text declaration.span.stop ∧
      Text.restOfLineIsBlank text declaration.span.stop = true
  before : ∀ n ∈ siblings, n.span.stop ≤ declaration.span.start → n.isComment = false →
    n.span.stop ≤ r.span.start

theorem removes_ofDeclaration (h : Members text siblings) (hmem : declaration ∈ siblings)
    (hkind : declaration.kind = .fieldDeclaration) :
    Removes text siblings declaration (ofDeclaration text declaration siblings) := by
  obtain ⟨front, back, hsplit, hfront, hback, hordered⟩ := h.exists_split hmem
  have hfrontMem : ∀ m ∈ front, m ∈ siblings := fun m hm => hsplit ▸ List.mem_append_left _ hm
  have htake := h.takeWhile_eq hsplit
  have hfrontRev : ∀ m ∈ front.reverse, m.span.start < m.span.stop := fun m hm =>
    h.nonempty (hfrontMem m (List.mem_reverse.mp hm))
  have hstopRev : ∀ m ∈ front.reverse, m.span.stop ≤ declaration.span.start := fun m hm =>
    hfront m (List.mem_reverse.mp hm)
  obtain ⟨hstart, hfrom, hattached⟩ :=
    attachedStart_spec text hfrontRev hstopRev (List.pairwise_reverse.mpr hordered)
  obtain ⟨hends, hstops⟩ := ends_ofDeclaration text declaration siblings
  rw [htake] at hends
  generalize attachedStart text declaration.span.start front.reverse = o at *
  generalize ofDeclaration text declaration siblings = r at *
  have hanchor : ∃ n ∈ siblings, o = n.span.start := by
    cases hfrom with
    | inl heq => exact ⟨declaration, hmem, heq⟩
    | inr hcomment =>
      obtain ⟨n, hn, heq⟩ := hcomment
      exact ⟨n, hfrontMem n (List.mem_reverse.mp hn), heq⟩
  obtain ⟨first, hfirst, hfirstStart⟩ := hanchor
  have ho : Text.isBoundary o text = true := hfirstStart ▸ (h.sound first hfirst).fits.start
  have hstarts : Text.Starts text o := hfirstStart ▸ h.starts hfirst
  have hdeclaration := (h.sound declaration hmem).fits
  have hnonempty := h.nonempty hmem
  have hle : r.span.start ≤ o := by
    obtain heq | ⟨heq, -⟩ := hends
    · omega
    · exact heq ▸ Text.lineStart_le text o
  have hge : declaration.span.stop ≤ r.span.stop := by
    obtain heq | ⟨heq, -⟩ := hstops
    · omega
    · exact heq ▸ Text.le_lineEnd text _
  have hbefore := stop_le_start_of_ends h ho hends
  have hafter := stop_le_start_of_stops h hdeclaration.stop hstops
  -- A member in front is attached or ends before the removal; one behind begins after it.
  have hall : ∀ n ∈ siblings, r.span.covers n.span = true ∧
      (n.isComment = true ∨ n.kind = .fieldDeclaration) ∨ r.span.Beside n.span := by
    intro n hn
    rw [Span.covers_iff]
    rw [hsplit, List.mem_append, List.mem_cons] at hn
    obtain hn | rfl | hn := hn
    · obtain ⟨hcomment, hstart'⟩ | hstop' := hattached n (List.mem_reverse.mpr hn)
      · have := hfront n hn
        exact .inl ⟨⟨by omega, by omega⟩, .inl hcomment⟩
      · exact .inr (.inr (hbefore n (hfrontMem n hn) hstop'))
    · exact .inl ⟨⟨by omega, hge⟩, .inr hkind⟩
    · exact .inr (.inl (hafter n (hsplit ▸ by simp [hn]) (hback n hn)))
  refine ⟨⟨⟨?_, ?_, ?_⟩, fun n hn => (hall n hn).imp_left And.left, ?_,
    ⟨o, ho, hstarts, hle, by omega, ?_⟩⟩, hstops, ?_⟩
  · exact Nat.le_trans hle (by omega)
  · obtain heq | ⟨heq, -⟩ := hends
    · exact heq ▸ ho
    · exact heq ▸ Text.isBoundary_lineStart ho
  · obtain heq | ⟨heq, -⟩ := hstops
    · exact heq ▸ hdeclaration.stop
    · exact heq ▸ Text.isBoundary_lineEnd hdeclaration.stop
  · intro n hn hcovers
    obtain ⟨-, hlight⟩ | hbeside := hall n hn
    · exact hlight
    · exact absurd hcovers (hbeside.not_covers (h.nonempty hn))
  · exact hends.imp_right And.left
  · intro n hn hstop' hcomment
    refine hbefore n hn ?_
    rw [hsplit, List.mem_append, List.mem_cons] at hn
    obtain hn | rfl | hn := hn
    · obtain ⟨hcomment', -⟩ | hno := hattached n (List.mem_reverse.mpr hn)
      · rw [hcomment] at hcomment'
        cases hcomment'
      · exact hno
    · omega
    · have := hback n hn
      have := h.nonempty (hsplit ▸ by simp [hn] : n ∈ siblings)
      omega

-- The removals of two declarations do not meet.
theorem Removes.beside {r s : Removal} (h : Members text siblings)
    (hr : Removes text siblings declaration r) (hs : Removes text siblings other s)
    (hmem : declaration ∈ siblings) (hcomment : declaration.isComment = false)
    (hle : declaration.span.stop ≤ other.span.start) : r.span.stop ≤ s.span.start := by
  have hbefore := hs.before declaration hmem hle hcomment
  have hfits := (h.sound declaration hmem).fits
  obtain heq | ⟨heq, hblank⟩ := hr.stop
  · omega
  · rw [heq]
    exact hs.clean.lineEnd_le_start hfits.stop hbefore hblank

end OfDeclaration

section JoinAll

variable {rs : List Removal} {lo hi : Nat} {r s : Removal}

theorem Clean.join (hsound : ∀ n ∈ siblings, n.span.start < n.span.stop)
    (hr : r.Clean text siblings) (hs : s.Clean text siblings)
    (htouch : r.span.stop = s.span.start) :
    Clean text siblings ⟨⟨r.span.start, s.span.stop⟩, true⟩ where
  fits := by
    have hr' : r.span.start ≤ r.span.stop := hr.fits.ordered
    have hs' : s.span.start ≤ s.span.stop := hs.fits.ordered
    exact ⟨Nat.le_trans hr' (htouch ▸ hs'), hr.fits.start, hs.fits.stop⟩
  clear := by
    intro n hn
    have hlt := hsound n hn
    have hrn := hr.clear n hn
    have hsn := hs.clear n hn
    have := hr.nonempty
    have := hs.nonempty
    simp only [Span.covers_iff, Span.Beside] at hrn hsn ⊢
    omega
  light := by
    intro n hn hcovers
    have hlt := hsound n hn
    rw [Span.covers_iff] at hcovers
    obtain hrn | hrn := hr.clear n hn
    · exact hr.light n hn hrn
    · -- What lies in both and beside the first lies in the second.
      refine hs.light n hn (Span.covers_iff.mpr ?_)
      simp only [Span.Beside] at hrn hcovers ⊢
      omega
  anchored := by
    obtain ⟨o, ho, hstarts, hle, hlt, hanchor⟩ := hr.anchored
    have := hs.nonempty
    exact ⟨o, ho, hstarts, hle, by simp only; omega, hanchor⟩

theorem clean_join (hsound : ∀ n ∈ siblings, n.span.start < n.span.stop)
    (hr : r.Clean text siblings) (hrs : ∀ s ∈ rs, s.Clean text siblings)
    (horder : Span.InOrder lo hi ((r :: rs).map (·.span))) :
    (∀ s ∈ r.join rs, s.Clean text siblings) ∧
      Span.InOrder lo hi ((r.join rs).map (·.span)) := by
  cases rs with
  | nil => exact ⟨by simpa [join] using hr, horder⟩
  | cons s rest =>
    have hs := hrs s List.mem_cons_self
    rw [join]
    split
    case isTrue htouch =>
      simp only [List.map_cons] at horder ⊢
      obtain ⟨hlo, hrlt, -, hslt, hrest⟩ := horder
      refine ⟨?_, hlo, ?_, hrest⟩
      · intro t ht
        cases List.mem_cons.mp ht with
        | inl heq => exact heq ▸ hr.join hsound hs htouch.right.right
        | inr hmem => exact hrs t (List.mem_cons_of_mem _ hmem)
      · have := htouch.right.right
        simp only
        omega
    case isFalse =>
      refine ⟨?_, horder⟩
      intro t ht
      cases List.mem_cons.mp ht with
      | inl heq => exact heq ▸ hr
      | inr hmem => exact hrs t hmem

theorem clean_foldr_join (hsound : ∀ n ∈ siblings, n.span.start < n.span.stop)
    (hrs : ∀ r ∈ rs, r.Clean text siblings) (horder : Span.InOrder lo hi (rs.map (·.span))) :
    (∀ r ∈ rs.foldr join [], r.Clean text siblings) ∧
      Span.InOrder lo hi ((rs.foldr join []).map (·.span)) := by
  induction rs generalizing lo with
  | nil => exact ⟨by simp, horder⟩
  | cons r rs ih =>
    obtain ⟨hlo, hlt, hrest⟩ := horder
    obtain ⟨hclean, hjoined⟩ := ih (fun s hs => hrs s (List.mem_cons_of_mem _ hs)) hrest
    exact clean_join hsound (hrs r List.mem_cons_self) hclean ⟨hlo, hlt, hjoined⟩

theorem clean_joinAll (hsound : ∀ n ∈ siblings, n.span.start < n.span.stop)
    (hrs : ∀ r ∈ rs, r.Clean text siblings)
    (hbeside : rs.Pairwise fun r s => r.span.Beside s.span) :
    (∀ r ∈ joinAll rs, r.Clean text siblings) ∧
      Span.InOrder 0 (Text.byteLength text) ((joinAll rs).map (·.span)) := by
  let le : Removal → Removal → Bool := fun r s => r.span.start ≤ s.span.start
  have hperm : (rs.mergeSort le).Perm rs := List.mergeSort_perm rs le
  have hmem : ∀ r ∈ rs.mergeSort le, r.Clean text siblings := fun r hr =>
    hrs r (hperm.mem_iff.mp hr)
  have hsorted : (rs.mergeSort le).Pairwise fun r s => le r s = true := by
    refine List.pairwise_mergeSort ?_ ?_ rs
    · intro a b c hab hbc
      simp only [le, decide_eq_true_eq] at *
      omega
    · intro a b
      simp only [le, Bool.or_eq_true, decide_eq_true_eq]
      omega
  have hbeside' := (hperm.pairwise_iff fun h => h.symm).mpr hbeside
  have hordered : (rs.mergeSort le).Pairwise fun r s => r.span.stop ≤ s.span.start := by
    refine (hsorted.and hbeside').imp_of_mem ?_
    rintro r s hr hs ⟨hle, hside⟩
    have := (hmem s hs).nonempty
    have hle' : r.span.start ≤ s.span.start := of_decide_eq_true hle
    unfold Span.Beside at hside
    omega
  refine clean_foldr_join hsound hmem (.of_pairwise (Nat.zero_le _) ?_
    (List.pairwise_map.mpr hordered))
  intro span hspan
  obtain ⟨r, hr, rfl⟩ := List.mem_map.mp hspan
  exact ⟨Nat.zero_le _, (hmem r hr).nonempty,
    Text.le_byteLength_of_isBoundary (hmem r hr).fits.stop⟩

end JoinAll

section Absorbing

variable {rs : List Removal} {lo : Nat} {r s : Removal}

theorem start_absorbing (text : List Char) (r : Removal) :
    (r.absorbing text).start = r.span.start := by
  simp only [absorbing]
  split
  all_goals rfl

theorem stop_absorbing (text : List Char) (r : Removal) :
    (r.absorbing text).stop = r.span.stop ∨
      (r.absorbing text).stop = Text.lineEnd text r.span.stop ∧
        Text.restOfLineIsBlank text r.span.stop = true := by
  simp only [absorbing]
  split
  case isTrue h => exact .inr ⟨rfl, h.right.right.left⟩
  case isFalse => exact .inl rfl

theorem le_stop_absorbing (text : List Char) (r : Removal) :
    r.span.stop ≤ (r.absorbing text).stop := by
  obtain heq | ⟨heq, -⟩ := stop_absorbing text r
  · exact Nat.le_of_eq heq.symm
  · exact heq ▸ Text.le_lineEnd text _

theorem Clean.fits_absorbing (h : r.Clean text siblings) : (r.absorbing text).FitsIn text := by
  have hordered : r.span.start ≤ r.span.stop := h.fits.ordered
  refine ⟨?_, ?_, ?_⟩
  · have := le_stop_absorbing text r
    have := start_absorbing text r
    unfold Span.Ordered
    omega
  · exact start_absorbing text r ▸ h.fits.start
  · obtain heq | ⟨heq, -⟩ := stop_absorbing text r
    · exact heq ▸ h.fits.stop
    · exact heq ▸ Text.isBoundary_lineEnd h.fits.stop

-- The blank line that is taken along holds no member.
theorem Clean.beside_absorbing {n : Node} (hmembers : Members text siblings)
    (h : r.Clean text siblings) (hn : n ∈ siblings) (hbeside : r.span.Beside n.span) :
    (r.absorbing text).Beside n.span := by
  obtain hbefore | hafter := hbeside
  · obtain heq | ⟨heq, hblank⟩ := stop_absorbing text r
    · exact .inl (heq ▸ hbefore)
    · refine .inl ?_
      rw [heq]
      exact Text.le_of_allBlank (hmembers.starts hn) hbefore h.fits.stop
        (Text.isBoundary_lineEnd h.fits.stop) hblank
  · exact .inr (start_absorbing text r ▸ hafter)

theorem Clean.clear_absorbing (hmembers : Members text siblings) (h : r.Clean text siblings) :
    (r.absorbing text).Clear siblings := by
  intro n hn
  obtain hcovers | hbeside := h.clear n hn
  · refine .inl (Span.covers_trans (Span.covers_iff.mpr ⟨?_, le_stop_absorbing text r⟩) hcovers)
    exact Nat.le_of_eq (start_absorbing text r)
  · exact .inr (h.beside_absorbing hmembers hn hbeside)

theorem Clean.light_absorbing (hmembers : Members text siblings) (h : r.Clean text siblings) :
    (r.absorbing text).Light siblings := by
  intro n hn hcovers
  obtain hclear | hbeside := h.clear n hn
  · exact h.light n hn hclear
  · refine absurd hcovers (Span.Beside.not_covers ?_ (hmembers.nonempty hn))
    exact h.beside_absorbing hmembers hn hbeside

theorem inOrder_absorbing (hrs : ∀ r ∈ rs, r.Clean text siblings)
    (horder : Span.InOrder lo (Text.byteLength text) (rs.map (·.span))) :
    Span.InOrder lo (Text.byteLength text) (rs.map (·.absorbing text)) := by
  induction rs generalizing lo with
  | nil => exact horder
  | cons r rs ih =>
    simp only [List.map_cons] at horder ⊢
    obtain ⟨hlo, hlt, hrest⟩ := horder
    have hr := hrs r List.mem_cons_self
    have hstart := start_absorbing text r
    have hstop := le_stop_absorbing text r
    have htail := ih (fun s hs => hrs s (List.mem_cons_of_mem _ hs)) hrest
    refine ⟨by omega, by omega, ?_⟩
    cases rs with
    | nil => exact Text.le_byteLength_of_isBoundary hr.fits_absorbing.stop
    | cons s rest =>
      obtain ⟨hle, htail'⟩ := htail
      refine ⟨?_, htail'⟩
      have hs := hrs s (List.mem_cons_of_mem _ List.mem_cons_self)
      rw [start_absorbing] at hle ⊢
      obtain heq | ⟨heq, hblank⟩ := stop_absorbing text r
      · omega
      · rw [heq]
        exact hs.lineEnd_le_start hr.fits.stop hle hblank

end Absorbing

end Removal

theorem JavaSource.PrimaryBody.members {s : JavaSource} {body : Site} (h : s.PrimaryBody body) :
    Members s.text body.node.children where
  sound _ hn := (h.of_mem_children hn).left
  solid _ hn := (h.of_mem_children hn).right
  ordered := List.pairwise_map.mp (h.sound.inOrder h.isClassBody.children).pairwise

section Hull

variable {declaration a b : Node} {t : Site} {above : List Node}

-- The span from one child to a later one that is not the last.
structure Hull (text : List Char) (declaration : Node) (hull : Span) : Prop where
  sound : declaration.Sound text
  ends : ∃ a ∈ declaration.children, ∃ b ∈ declaration.children, a.span.stop ≤ b.span.start ∧
    hull = ⟨a.span.start, b.span.stop⟩
  lt : hull.stop < declaration.span.stop

theorem Hull.covers {hull : Span} (h : Hull text declaration hull) :
    declaration.span.covers hull = true := by
  obtain ⟨a, ha, b, hb, -, rfl⟩ := h.ends
  have hca := Span.covers_iff.mp (h.sound.covers_child ha)
  have hcb := Span.covers_iff.mp (h.sound.covers_child hb)
  exact Span.covers_iff.mpr ⟨hca.left, hcb.right⟩

-- A child lies in the hull or beside it, so that what lies below it does.
theorem Hull.nested {hull : Span} (h : Hull text declaration hull)
    (ht : t ∈ Site.preorder ⟨declaration, above⟩) : hull.Nested t.span ∧ hull ≠ t.span := by
  obtain rfl | ⟨c, hc, htc⟩ := Site.mem_preorder.mp ht
  · refine ⟨.inr (.inr h.covers), ?_⟩
    intro heq
    have hlt := h.lt
    rw [heq] at hlt
    exact Nat.lt_irrefl _ hlt
  obtain ⟨n, hn, rfl⟩ := Site.mem_children.mp hc
  obtain ⟨a, ha, b, hb, hab, rfl⟩ := h.ends
  have hsoundN := h.sound.of_mem_children hn
  have htn := Span.covers_iff.mp (Site.covers_of_mem_preorder hsoundN htc)
  have htlt := (Site.sound_of_mem_preorder hsoundN htc).nonempty
  have halt := (h.sound.of_mem_children ha).nonempty
  have hblt := (h.sound.of_mem_children hb).nonempty
  have hna := h.sound.eq_or_beside hn ha
  have hnb := h.sound.eq_or_beside hn hb
  have hnSpan : (Site.below ⟨declaration, above⟩ n).span = n.span := rfl
  rw [hnSpan] at htn
  simp only [Span.Nested, Span.Beside, Span.covers_iff, ne_eq, Span.eq_iff] at *
  obtain rfl | hna := hna
  · exact ⟨.inr (.inl ⟨htn.left, by omega⟩), by omega⟩
  obtain rfl | hnb := hnb
  · exact ⟨.inr (.inl ⟨by omega, htn.right⟩), by omega⟩
  omega

end Hull

namespace Delegation

variable {d : Delegation} {body : Site} {f : Field} {group : Nat}

theorem nodup_eraseDups {α : Type} [BEq α] [LawfulBEq α] (xs : List α) : xs.eraseDups.Nodup := by
  match xs with
  | [] => simp
  | x :: xs =>
    rw [List.eraseDups_cons, List.nodup_cons]
    refine ⟨?_, nodup_eraseDups _⟩
    intro hmem
    simpa using List.mem_eraseDups.mp hmem
termination_by xs.length
decreasing_by exact Nat.lt_succ_of_le (List.length_filter_le _ _)

theorem nodup_movedGroups (d : Delegation) : d.movedGroups.Nodup := nodup_eraseDups _

theorem exists_moved_of_mem_movedGroups
    (hfields : ∀ entry ∈ d.fields.entries, entry.2.field ∈ d.source.model.fields)
    (h : group ∈ d.movedGroups) :
    ∃ f ∈ d.source.model.fieldGroup group, d.movesField f = true := by
  have hmem := (List.mergeSort_perm _ _).mem_iff.mp (List.mem_eraseDups.mp h)
  obtain ⟨entry, hentry, hgroup⟩ := List.mem_map.mp hmem
  refine ⟨entry.2.field, List.mem_filter.mpr ⟨hfields entry hentry, by simpa using hgroup⟩, ?_⟩
  have hmoved : entry.2.field ∈ d.movedOf entry.2.field.group :=
    List.mem_filter.mpr ⟨List.mem_map_of_mem hentry, by simp⟩
  exact List.any_eq_true.mpr ⟨_, hmoved, by simp⟩

theorem eq_ofDeclaration_of_declarationRemoval {r : Removal} (h : d.source.PrimaryBody body)
    (hf : f ∈ d.source.model.fields) (hr : d.declarationRemoval f = .ok r) :
    ∃ declaration, body.node.namedChildren[f.group]? = some declaration ∧
      declaration.kind = .fieldDeclaration ∧
        r = .ofDeclaration d.source.text declaration body.node.children := by
  obtain ⟨declaration, hat, hkind, hread⟩ := h.exists_declaration hf
  obtain ⟨-, hspan, -⟩ := JavaSource.of_mem_readFields hread
  rw [declarationRemoval, h.found, hspan, h.member?_eq (List.mem_of_getElem? hat)] at hr
  cases hr
  exact ⟨declaration, hat, hkind, rfl⟩

theorem removes_declarationRemoval {r : Removal} (h : d.source.PrimaryBody body)
    (hf : f ∈ d.source.model.fields) (hr : d.declarationRemoval f = .ok r) :
    ∃ declaration, body.node.namedChildren[f.group]? = some declaration ∧
      declaration.kind = .fieldDeclaration ∧
        Removal.Removes d.source.text body.node.children declaration r := by
  obtain ⟨declaration, hat, hkind, rfl⟩ := eq_ofDeclaration_of_declarationRemoval h hf hr
  exact ⟨declaration, hat, hkind, Removal.removes_ofDeclaration h.members
    (List.mem_filter.mp (List.mem_of_getElem? hat)).left hkind⟩

theorem pairwise_of_forall₂ {α β : Type} {P : α → β → Prop} {R : α → α → Prop}
    {S : β → β → Prop} {xs : List α} {ys : List β} (h : List.Forall₂ P xs ys)
    (hxs : xs.Pairwise R) (himp : ∀ x y x' y', P x y → P x' y' → R x x' → S y y') :
    ys.Pairwise S := by
  induction h with
  | nil => exact .nil
  | cons hxy hrest ih =>
    obtain ⟨hx, hxs'⟩ := List.pairwise_cons.mp hxs
    refine List.pairwise_cons.mpr ⟨?_, ih hxs'⟩
    intro y' hy'
    obtain ⟨x', hx', hxy'⟩ := exists_mem_of_forall₂ hrest hy'
    exact himp _ _ _ _ hxy hxy' (hx x' hx')

-- The declarations of different groups are different children of the body.
theorem beside_of_declarationRemoval {g : Field} {r s : Removal} (h : d.source.PrimaryBody body)
    (hf : f ∈ d.source.model.fields) (hg : g ∈ d.source.model.fields)
    (hne : f.group ≠ g.group) (hr : d.declarationRemoval f = .ok r)
    (hs : d.declarationRemoval g = .ok s) : r.span.Beside s.span := by
  obtain ⟨m, hm, hmkind, hmr⟩ := removes_declarationRemoval h hf hr
  obtain ⟨n, hn, hnkind, hns⟩ := removes_declarationRemoval h hg hs
  have hmembers := h.members
  have hmmem := (List.mem_filter.mp (List.mem_of_getElem? hm)).left
  have hnmem := (List.mem_filter.mp (List.mem_of_getElem? hn)).left
  have hmcomment : m.isComment = false := by simp [Node.isComment, hmkind, Kind.isComment]
  have hncomment : n.isComment = false := by simp [Node.isComment, hnkind, Kind.isComment]
  cases Nat.lt_or_gt_of_ne hne with
  | inl hlt => exact .inl (hmr.beside hmembers hns hmmem hmcomment (h.stop_le_start hm hn hlt))
  | inr hlt => exact .inr (hns.beside hmembers hmr hnmem hncomment (h.stop_le_start hn hm hlt))

-- The groups of which some variables move and some stay, those of which all move, and the removals
-- of the declarations of the latter.
structure Gathered (d : Delegation) (removals : FieldRemovals) (shared whole : List Nat)
    (rs : List Removal) : Prop where
  replacements : removals.replacements = shared.flatMap d.shrinkGroup ++
    ((Removal.joinAll rs).map (·.absorbing d.source.text)).map Replacement.deletion
  gone : removals.gone = shared.flatMap (fun group => (d.movedOf group).map (·.declarator)) ++
    (Removal.joinAll rs).map (·.absorbing d.source.text)
  shared_iff : ∀ group, group ∈ shared ↔ group ∈ d.movedGroups ∧
    ∃ f ∈ d.source.model.fieldGroup group, d.movesField f = false
  whole_iff : ∀ group, group ∈ whole ↔ group ∈ d.movedGroups ∧
    d.source.model.fieldGroup group ≠ [] ∧
      ∀ f ∈ d.source.model.fieldGroup group, d.movesField f = true
  nodup : whole.Nodup
  removed : List.Forall₂ (fun f r => d.declarationRemoval f = .ok r)
    (whole.flatMap fun group => (d.source.model.fieldGroup group).take 1) rs

theorem exists_gathered {removals : FieldRemovals} (hr : d.fieldRemovals = .ok removals) :
    ∃ shared whole rs, d.Gathered removals shared whole rs := by
  simp only [fieldRemovals, List.partition_eq_filter_filter] at hr
  obtain ⟨rs, hrs, heq⟩ := bind_eq_ok.mp hr
  cases heq
  refine ⟨_, _, rs, rfl, rfl, ?_, ?_, ((nodup_movedGroups d).filter _).filter _,
    forall₂_of_mapM_eq_ok hrs⟩
  · intro group
    simp only [List.mem_filter, Bool.not_eq_true', List.isEmpty_eq_false_iff, List.any_eq_true]
    constructor
    · rintro ⟨⟨hgroup, -⟩, hstays⟩
      exact ⟨hgroup, hstays⟩
    · rintro ⟨hgroup, f, hf, hstays⟩
      exact ⟨⟨hgroup, List.ne_nil_of_mem hf⟩, f, hf, hstays⟩
  · intro group
    simp only [List.mem_filter, Function.comp_apply, Bool.not_eq_true', List.isEmpty_eq_false_iff,
      List.any_eq_false, Bool.not_eq_false, and_assoc, ne_eq]

namespace Gathered

variable {removals : FieldRemovals} {shared whole : List Nat} {rs : List Removal}

-- Each removal is that of a declaration of which all variables move.
theorem exists_field {r : Removal} (hg : d.Gathered removals shared whole rs) (hr : r ∈ rs) :
    ∃ group ∈ whole, ∃ f ∈ d.source.model.fields, f.group = group ∧
      d.declarationRemoval f = .ok r := by
  obtain ⟨f, hf, hfr⟩ := exists_mem_of_forall₂ hg.removed hr
  obtain ⟨group, hgroup, hf⟩ := List.mem_flatMap.mp hf
  obtain ⟨hmem, heq⟩ := List.mem_filter.mp (List.mem_of_mem_take hf)
  exact ⟨group, hgroup, f, hmem, beq_iff_eq.mp heq, hfr⟩

theorem clean (hg : d.Gathered removals shared whole rs) (h : d.source.PrimaryBody body) :
    ∀ r ∈ rs, r.Clean d.source.text body.node.children := by
  intro r hr
  obtain ⟨group, -, f, hf, -, hfr⟩ := hg.exists_field hr
  obtain ⟨declaration, -, -, hremoves⟩ := removes_declarationRemoval h hf hfr
  exact hremoves.clean

theorem beside (hg : d.Gathered removals shared whole rs) (h : d.source.PrimaryBody body) :
    rs.Pairwise fun r s => r.span.Beside s.span := by
  refine pairwise_of_forall₂ (R := fun f g => f ∈ d.source.model.fields ∧
    g ∈ d.source.model.fields ∧ f.group ≠ g.group) hg.removed ?_ ?_
  · refine List.pairwise_flatMap.mpr ⟨?_, ?_⟩
    · intro group _
      cases d.source.model.fieldGroup group with
      | nil => simp
      | cons f fs => simp
    · refine List.Pairwise.imp ?_ hg.nodup
      intro i j hne f hf g hg
      obtain ⟨hf, hfi⟩ := List.mem_filter.mp (List.mem_of_mem_take hf)
      obtain ⟨hg, hgj⟩ := List.mem_filter.mp (List.mem_of_mem_take hg)
      rw [beq_iff_eq] at hfi hgj
      exact ⟨hf, hg, fun heq => hne (by omega)⟩
  · rintro f r g s hfr hgs ⟨hf, hg, hne⟩
    exact beside_of_declarationRemoval h hf hg hne hfr hgs

end Gathered

-- The declarations that are put together again, and the spans that are deleted.
structure Removals (d : Delegation) (body : Site) (removals : FieldRemovals)
    (shared : List Nat) (deleted : List Span) : Prop where
  replacements : removals.replacements =
    shared.flatMap d.shrinkGroup ++ deleted.map Replacement.deletion
  gone : removals.gone =
    shared.flatMap (fun group => (d.movedOf group).map (·.declarator)) ++ deleted
  moved : ∀ group ∈ shared, group ∈ d.movedGroups
  stays : ∀ group ∈ shared, ∃ f ∈ d.source.model.fieldGroup group, d.movesField f = false
  inOrder : Span.InOrder 0 (Text.byteLength d.source.text) deleted
  fits : ∀ s ∈ deleted, s.FitsIn d.source.text
  clear : ∀ s ∈ deleted, s.Clear body.node.children
  light : ∀ s ∈ deleted, s.Light body.node.children

theorem exists_removals {removals : FieldRemovals} (h : d.source.PrimaryBody body)
    (hr : d.fieldRemovals = .ok removals) :
    ∃ shared deleted, d.Removals body removals shared deleted := by
  obtain ⟨shared, whole, rs, hgathered⟩ := exists_gathered hr
  have hmembers := h.members
  obtain ⟨hjoined, horder⟩ := Removal.clean_joinAll (fun n hn => hmembers.nonempty hn)
    (hgathered.clean h) (hgathered.beside h)
  refine ⟨shared, _, hgathered.replacements, hgathered.gone,
    fun group hgroup => ((hgathered.shared_iff group).mp hgroup).left,
    fun group hgroup => ((hgathered.shared_iff group).mp hgroup).right,
    Removal.inOrder_absorbing hjoined horder, ?_, ?_, ?_⟩
  · intro s hs
    obtain ⟨r, hr, rfl⟩ := List.mem_map.mp hs
    exact (hjoined r hr).fits_absorbing
  · intro s hs
    obtain ⟨r, hr, rfl⟩ := List.mem_map.mp hs
    exact (hjoined r hr).clear_absorbing hmembers
  · intro s hs
    obtain ⟨r, hr, rfl⟩ := List.mem_map.mp hs
    exact (hjoined r hr).light_absorbing hmembers

theorem mem_survivors {piece : Piece} {fs : List Field} (h : piece ∈ survivors fs) :
    (∃ text, piece = .text text) ∨ ∃ f ∈ fs, piece = .source f.declarator := by
  match fs with
  | [] => cases h
  | [f] => exact .inr ⟨f, List.mem_cons_self, List.mem_singleton.mp h⟩
  | f :: g :: rest =>
    rw [survivors, List.mem_cons, List.mem_cons] at h
    obtain rfl | rfl | hrest := h
    · exact .inr ⟨f, List.mem_cons_self, rfl⟩
    · exact .inl ⟨_, rfl⟩
    · cases mem_survivors hrest with
      | inl htext => exact .inl htext
      | inr hsource =>
        obtain ⟨k, hk, heq⟩ := hsource
        exact .inr ⟨k, List.mem_cons_of_mem _ hk, heq⟩

-- Of two variables, one that moves and one that stays, one is declared before the other.
theorem hull_of_shrinkGroup {r : Replacement} (h : d.source.PrimaryBody body)
    (hmoved : ∃ f ∈ d.source.model.fieldGroup group, d.movesField f = true)
    (hstays : ∃ f ∈ d.source.model.fieldGroup group, d.movesField f = false)
    (hr : r ∈ d.shrinkGroup group) :
    ∃ declaration, body.node.namedChildren[group]? = some declaration ∧
      declaration.kind = .fieldDeclaration ∧ Hull d.source.text declaration r.span ∧
        r.Fits d.source.text := by
  obtain ⟨f, hf, hfmoves⟩ := hmoved
  obtain ⟨g, hg, hgstays⟩ := hstays
  obtain ⟨hfield, hgroup⟩ := List.mem_filter.mp hf
  obtain ⟨declaration, hat, hkind, -⟩ := h.exists_declaration hfield
  rw [beq_iff_eq.mp hgroup] at hat
  have hall := h.fieldGroup_eq hat hkind
  have hmem := (List.mem_filter.mp (List.mem_of_getElem? hat)).left
  have hsound := (h.of_mem_children hmem).left
  have hread : ∀ k ∈ d.source.model.fieldGroup group, ∃ n ∈ declaration.children,
      n.kind = .variableDeclarator ∧ k.declarator = n.span := fun k hk =>
    (JavaSource.of_mem_readFields (hall ▸ hk)).right.right
  have hne : declaration.children ≠ [] := by
    obtain ⟨n, hn, -⟩ := hread f hf
    exact List.ne_nil_of_mem hn
  have horder : Span.InOrder declaration.span.start declaration.span.stop
      ((d.source.model.fieldGroup group).map (·.declarator)) := by
    rw [hall]
    exact (hsound.inOrder hne).sublist (JavaSource.map_declarator_readFields_sublist _ _ _)
  simp only [shrinkGroup] at hr
  split at hr
  case h_2 => cases hr
  case h_1 first last hfirst hlast =>
    obtain rfl := List.mem_singleton.mp hr
    have hfirstMem := List.mem_of_head? hfirst
    have hlastMem := List.mem_of_getLast? hlast
    obtain ⟨a, ha, -, hfirstSpan⟩ := hread first hfirstMem
    obtain ⟨b, hb, hbkind, hlastSpan⟩ := hread last hlastMem
    have hshrunk : Span.InOrder first.declarator.start last.declarator.stop
        ((d.source.model.fieldGroup group).map (·.declarator)) :=
      horder.shrink (by simp [hfirst]) (by simp [hlast])
    have hle : first.declarator.stop ≤ last.declarator.start := by
      generalize d.source.model.fieldGroup group = all at *
      cases all with
      | nil => cases hfirst
      | cons k rest =>
        obtain rfl : k = first := by simpa using hfirst
        have hnotEnd : rest ≠ [] := by
          rintro rfl
          rw [List.mem_singleton.mp hf, ← List.mem_singleton.mp hg, hgstays] at hfmoves
          cases hfmoves
        have hlast' : rest.getLast? = some last := by
          obtain ⟨k', rest', rfl⟩ := List.exists_cons_of_ne_nil hnotEnd
          simpa using hlast
        exact (List.pairwise_cons.mp (List.pairwise_map.mp horder.pairwise)).left last
          (List.mem_of_getLast? hlast')
    refine ⟨declaration, hat, hkind, ⟨hsound, ⟨a, ha, b, hb, ?_, ?_⟩, ?_⟩, ⟨⟨?_, ?_, ?_⟩, ?_⟩⟩
    · rw [← hfirstSpan, ← hlastSpan]
      exact hle
    · rw [hfirstSpan, hlastSpan]
    · -- The declaration ends with a mark, which no variable is.
      have hshape := hsound.shape hne
      rw [hkind] at hshape
      obtain ⟨mark, hmark, hisMark⟩ := hshape.mark
      have hmarkMem := List.mem_of_getLast? hmark
      have hend := hsound.stop_of_getLast? hmark
      have hblt := (hsound.of_mem_children hb).nonempty
      have hmarkLt := (hsound.of_mem_children hmarkMem).nonempty
      have hbin := Span.covers_iff.mp (hsound.covers_child hb)
      obtain rfl | hbeside := hsound.eq_or_beside hb hmarkMem
      · unfold Node.isMark at hisMark
        split at hisMark
        case h_1 => cases hbkind
        case h_2 => cases hisMark
      · simp only [Span.Beside, hlastSpan] at hbeside ⊢
        omega
    · exact hshrunk.le
    · exact hfirstSpan ▸ (hsound.of_mem_children ha).fits.start
    · exact hlastSpan ▸ (hsound.of_mem_children hb).fits.stop
    · intro piece hpiece
      cases mem_survivors hpiece with
      | inl htext =>
        obtain ⟨text, rfl⟩ := htext
        trivial
      | inr hsource =>
        obtain ⟨k, hk, rfl⟩ := hsource
        have hkMem := (List.mem_filter.mp hk).left
        obtain ⟨n, hn, -, hspan⟩ := hread k hkMem
        have hin := hshrunk.mem (List.mem_map_of_mem hkMem)
        exact ⟨hspan ▸ (hsound.of_mem_children hn).fits,
          Span.covers_iff.mpr ⟨hin.left, hin.right.right⟩⟩

end Delegation

end ClassSplit
