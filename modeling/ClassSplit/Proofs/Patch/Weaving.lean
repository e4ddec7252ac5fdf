import ClassSplit.Proofs.Patch.Outermost
import ClassSplit.Proofs.Text.InOrder

/-!
The text of a span under replacements that each take the place of something. What a replacement
shows stands in its place; and where a span is divided into parts and every replacement lies in one
of them, its text consists of the texts of the parts, with what stands between them left as it is.
Main statement: `rendering_eq_woven`.
-/

namespace ClassSplit.Replacement

variable {text : List Char} {family : List Replacement} {r : Replacement} {a b c lo hi : Nat}
  {s : Span} {spans : List Span}

/-- The texts of some spans, and what stands between them. -/
def woven (text : List Char) (family : List Replacement) : List Span → List Char
  | [] => []
  | [s] => rendering text family s
  | s :: t :: spans =>
    rendering text family s ++ Text.slice text ⟨s.stop, t.start⟩ ++ woven text family (t :: spans)

-- Replacements of which none cuts another one, and none is an insertion.
structure Neat (family : List Replacement) : Prop where
  laminar : Laminar family
  nonempty : ∀ r ∈ family, r.span.start < r.span.stop

namespace Neat

variable (h : Neat family)

include h

theorem mono {part : List Replacement} (hpart : ∀ r ∈ part, r ∈ family) : Neat part where
  laminar := h.laminar.mono hpart
  nonempty r hr := h.nonempty r (hpart r hr)

theorem ordered : ∀ r ∈ family, r.span.Ordered := fun r hr => Nat.le_of_lt (h.nonempty r hr)

-- Where nothing is replaced.
theorem rendering_of_forall_not_covers (hfits : s.FitsIn text)
    (hnone : ∀ r ∈ family, s.covers r.span = false) :
    rendering text family s = Text.slice text s := by
  rw [← rendering_nil hfits]
  refine rendering_congr_covers (fun r hcovers => ⟨fun hr => ?_, nofun⟩) h.laminar h.ordered
  rw [hnone r hr] at hcovers
  cases hcovers

-- At a place over which no replacement reaches.
theorem rendering_cut (hcut : IsCut family a b c) (hab : a ≤ b) (hbc : b ≤ c) :
    rendering text family ⟨a, c⟩ =
      rendering text family ⟨a, b⟩ ++ rendering text family ⟨b, c⟩ := by
  rw [Replacement.rendering_cut hcut h.ordered hab hbc]
  congr 1
  have hmem : ∀ r ∈ beyond family b, r ∈ family := fun r hr => (List.mem_filter.mp hr).left
  refine rendering_congr_covers (fun r hcovers => ⟨hmem r, fun hr => ?_⟩) (h.mono hmem).laminar
    (h.mono hmem).ordered
  have hlt := h.nonempty r hr
  have hstart : b ≤ r.span.start := (Span.covers_iff.mp hcovers).left
  exact List.mem_filter.mpr ⟨hr, decide_eq_true (by omega)⟩

theorem rendering_eq_woven (hfits : ∀ s ∈ spans, s.FitsIn text) (hin : Span.InOrder lo hi spans)
    (hfirst : spans.head?.map (·.start) = some lo) (hlast : spans.getLast?.map (·.stop) = some hi)
    (hparts : ∀ r ∈ family, Span.covers ⟨lo, hi⟩ r.span = true →
      ∃ s ∈ spans, s.covers r.span = true) :
    rendering text family ⟨lo, hi⟩ = woven text family spans := by
  induction spans generalizing lo with
  | nil => cases hfirst
  | cons s spans ih =>
    obtain rfl : s.start = lo := by simpa using hfirst
    cases spans with
    | nil =>
      obtain rfl : s.stop = hi := by simpa using hlast
      rfl
    | cons t spans =>
      obtain ⟨-, hs, hst, ht, hrest⟩ := hin
      have hle := hrest.le
      -- A replacement lies in the first part or behind it.
      have hplace : ∀ r ∈ family, Span.covers ⟨s.start, hi⟩ r.span = true →
          r.span.stop ≤ s.stop ∨ t.start ≤ r.span.start ∧
            ∃ u ∈ t :: spans, u.covers r.span = true := by
        intro r hr hcovers
        obtain ⟨u, hu, hcovers'⟩ := hparts r hr hcovers
        obtain ⟨hstart, hstop⟩ := Span.covers_iff.mp hcovers'
        obtain rfl | hu := List.mem_cons.mp hu
        · exact .inl hstop
        · refine .inr ⟨?_, u, hu, hcovers'⟩
          obtain rfl | hu := List.mem_cons.mp hu
          · exact hstart
          · have := (hrest.mem hu).left
            omega
      have hwithin : ∀ {start : Nat} {r : Replacement}, s.start ≤ start →
          Span.covers ⟨start, hi⟩ r.span = true → Span.covers ⟨s.start, hi⟩ r.span = true := by
        intro start r hstart hcovers
        obtain ⟨hle, hle'⟩ := Span.covers_iff.mp hcovers
        exact Span.covers_iff.mpr ⟨Nat.le_trans hstart hle, hle'⟩
      have hsfits := hfits s List.mem_cons_self
      have htfits := hfits t (List.mem_cons_of_mem s List.mem_cons_self)
      rw [woven, h.rendering_cut (b := s.stop) ?cutFirst (Nat.le_of_lt hs) (by omega),
        h.rendering_cut (b := t.start) ?cutSecond hst (by omega),
        h.rendering_of_forall_not_covers (s := ⟨s.stop, t.start⟩) ⟨hst, hsfits.stop, htfits.start⟩ ?gap,
        ih (fun u hu => hfits u (List.mem_cons_of_mem s hu)) ⟨Nat.le_refl _, ht, hrest⟩ rfl
          (by simpa using hlast) ?parts, List.append_assoc]
      case cutFirst =>
        intro r hr hcovers
        exact (hplace r hr hcovers).imp id fun hbehind => Nat.le_trans hst hbehind.left
      case cutSecond =>
        intro r hr hcovers
        exact (hplace r hr (hwithin (Nat.le_of_lt hs) hcovers)).imp (Nat.le_trans · hst) And.left
      case gap =>
        intro r hr
        refine Bool.eq_false_iff.mpr fun hcovers => ?_
        have hlt := h.nonempty r hr
        have hin : s.stop ≤ r.span.start ∧ r.span.stop ≤ t.start := Span.covers_iff.mp hcovers
        have hwhole : Span.covers ⟨s.start, hi⟩ r.span = true :=
          Span.covers_iff.mpr (show s.start ≤ r.span.start ∧ r.span.stop ≤ hi by omega)
        obtain hfront | ⟨hback, -⟩ := hplace r hr hwhole
        all_goals omega
      case parts =>
        intro r hr hcovers
        have hlt := h.nonempty r hr
        have hin : t.start ≤ r.span.start ∧ r.span.stop ≤ hi := Span.covers_iff.mp hcovers
        obtain hfront | ⟨-, hparts⟩ := hplace r hr (hwithin (by omega) hcovers)
        · omega
        · exact hparts

-- In the place of a replacement stands what it shows.
theorem rendering_of_mem (hr : r ∈ family) (hfits : r.span.FitsIn text) :
    rendering text family r.span = shown text family r := by
  have hcovers : ∀ s ∈ family.filter (r.span.covers ·.span), r.span.covers s.span = true :=
    fun s hs => (List.mem_filter.mp hs).right
  have hneat : Neat (family.filter (r.span.covers ·.span)) :=
    h.mono fun s hs => (List.mem_filter.mp hs).left
  have hmaximal : Maximal (family.filter (r.span.covers ·.span)) r := by
    refine ⟨List.mem_filter.mpr ⟨hr, Span.covers_refl _⟩, h.nonempty r hr, fun s hs => ?_⟩
    have := Span.covers_iff.mp (hcovers s hs)
    refine Bool.eq_false_iff.mpr fun hencloses => ?_
    rw [encloses_iff] at hencloses
    omega
  have hpoint : ∀ a, Text.isBoundary a text = true →
      rendering text (family.filter (r.span.covers ·.span)) ⟨a, a⟩ = [] := by
    intro a ha
    rw [hneat.rendering_of_forall_not_covers (s := ⟨a, a⟩) ⟨Nat.le_refl a, ha, ha⟩, Text.slice_point]
    intro s hs
    have := hneat.nonempty s hs
    refine Bool.eq_false_iff.mpr fun hin => ?_
    have : a ≤ s.span.start ∧ s.span.stop ≤ a := Span.covers_iff.mp hin
    omega
  have hinner : (family.filter (r.span.covers ·.span)).filter r.encloses =
      family.filter r.encloses := by
    rw [List.filter_filter]
    refine List.filter_congr fun s _ => ?_
    cases hencloses : r.encloses s with
    | false => rfl
    | true => simpa using covers_of_encloses hencloses
  rw [← rendering_filter_covers, rendering_split hneat.laminar hneat.ordered hmaximal
    (Span.covers_refl _), hpoint _ hfits.start, hpoint _ hfits.stop, shown, shown, hinner]
  simp

-- A part of a replacement is shown as it is without it.
theorem rendering_filter_encloses (hcovers : r.span.covers s = true) (hne : r.span ≠ s) :
    rendering text (family.filter r.encloses) s = rendering text family s := by
  have hmem : ∀ t ∈ family.filter r.encloses, t ∈ family := fun t ht => (List.mem_filter.mp ht).left
  refine rendering_congr_covers (fun t ht => ⟨hmem t, fun htmem => ?_⟩) (h.mono hmem).laminar
    (h.mono hmem).ordered
  refine List.mem_filter.mpr ⟨htmem, encloses_iff.mpr ?_⟩
  have hlt := h.nonempty t htmem
  rw [Span.covers_iff] at hcovers ht
  rw [ne_eq, Span.eq_iff] at hne
  omega

end Neat

end ClassSplit.Replacement
