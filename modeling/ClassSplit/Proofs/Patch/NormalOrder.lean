import ClassSplit.Patch.Basic
import Mathlib.Data.List.Chain

/-!
The order of a normal patch. Normalizing sorts the replacements and leaves at most one insertion at
each offset; the spans stay, and so does every other replacement. Where no two different
replacements have the same span, it keeps one of each and changes nothing else.
-/

namespace ClassSplit

theorem Span.eq_iff {a b : Span} : a = b ↔ a.start = b.start ∧ a.stop = b.stop := by
  cases a; cases b; simp

namespace Replacement

@[simp] theorem isInsertion_iff {r : Replacement} :
    r.isInsertion = true ↔ r.span.start = r.span.stop := by
  simp [isInsertion, Span.isEmpty]

@[simp] theorem not_isInsertion_iff {r : Replacement} :
    r.isInsertion = false ↔ r.span.start ≠ r.span.stop := by
  simp [isInsertion, Span.isEmpty]

-- The order as a lexicographic one: by start, insertions first, longer spans first.
theorem precedes_iff {r s : Replacement} :
    r.precedes s = true ↔
      r.span.start < s.span.start ∨
        r.span.start = s.span.start ∧
          (r.span.start = r.span.stop ∧ s.span.start ≠ s.span.stop ∨
            (r.span.start = r.span.stop ↔ s.span.start = s.span.stop) ∧
              s.span.stop ≤ r.span.stop) := by
  have hiff : r.isInsertion = s.isInsertion ↔
      (r.span.start = r.span.stop ↔ s.span.start = s.span.stop) := by
    rw [Bool.eq_iff_iff, isInsertion_iff, isInsertion_iff]
  simp [precedes, hiff]

theorem precedes_refl (r : Replacement) : r.precedes r = true := by
  rw [precedes_iff]; omega

theorem precedes_trans {r s t : Replacement} (hrs : r.precedes s = true)
    (hst : s.precedes t = true) : r.precedes t = true := by
  rw [precedes_iff] at *; omega

theorem precedes_total (r s : Replacement) : (r.precedes s || s.precedes r) = true := by
  rw [Bool.or_eq_true, precedes_iff, precedes_iff]; omega

-- Only the spans count.
theorem precedes_congr {r s r' s' : Replacement} (hr : r.span = r'.span) (hs : s.span = s'.span) :
    r.precedes s = r'.precedes s' := by
  simp only [precedes, isInsertion, hr, hs]

theorem start_le_of_precedes {r s : Replacement} (h : r.precedes s = true) :
    r.span.start ≤ s.span.start := by
  rw [precedes_iff] at h; omega

-- Two replacements that precede each other have the same span.
theorem span_eq_of_precedes {r s : Replacement} (hrs : r.precedes s = true)
    (hsr : s.precedes r = true) : r.span = s.span := by
  rw [precedes_iff] at hrs hsr
  rw [Span.eq_iff]; omega

end Replacement

namespace Patch

open Replacement

@[simp] theorem mem_dropRepeats {r : Replacement} {rs : List Replacement} :
    r ∈ dropRepeats rs ↔ r ∈ rs := by
  induction rs using dropRepeats.induct
  case case1 => simp [dropRepeats]
  case case2 => simp [dropRepeats]
  case case3 s rest ih => simp [dropRepeats, ih]
  case case4 q s rest hne ih => simp [dropRepeats, hne, ih]

theorem dropRepeats_sublist (rs : List Replacement) : (dropRepeats rs).Sublist rs := by
  induction rs using dropRepeats.induct
  case case1 => simp [dropRepeats]
  case case2 => simp [dropRepeats]
  case case3 s rest ih => simpa [dropRepeats] using ih.cons s
  case case4 q s rest hne ih => simpa [dropRepeats, hne] using ih

-- What is left begins as before.
theorem head?_dropRepeats (rs : List Replacement) : (dropRepeats rs).head? = rs.head? := by
  induction rs using dropRepeats.induct
  case case1 => rfl
  case case2 => rfl
  case case3 s rest ih => simpa [dropRepeats] using ih
  case case4 q s rest hne ih => simp [dropRepeats, hne]

theorem isChain_ne_dropRepeats (rs : List Replacement) : (dropRepeats rs).IsChain (· ≠ ·) := by
  induction rs using dropRepeats.induct
  case case1 => simp [dropRepeats]
  case case2 => simp [dropRepeats]
  case case3 s rest ih => simpa [dropRepeats] using ih
  case case4 q s rest hne ih =>
    rw [dropRepeats, if_neg hne]
    refine List.isChain_cons.mpr ⟨?_, ih⟩
    intro t ht
    rw [head?_dropRepeats, List.head?_cons, Option.mem_some] at ht
    exact ht ▸ hne

theorem pairwise_precedes_mergeSort (rs : List Replacement) :
    (rs.mergeSort precedes).Pairwise fun r s => r.precedes s = true := by
  have htrans : ∀ r s t : Replacement,
      r.precedes s = true → s.precedes t = true → r.precedes t = true :=
    fun _ _ _ => precedes_trans
  exact List.pairwise_mergeSort htrans precedes_total rs

-- Nothing is joined where neighbours have different spans.
theorem joinInsertions_eq_self {rs : List Replacement}
    (h : rs.IsChain fun r s => r.span ≠ s.span) : joinInsertions rs = rs := by
  induction rs with
  | nil => rfl
  | cons r rest ih =>
    have hrest : joinInsertions rest = rest := ih h.of_cons
    have hcons : joinInsertions (r :: rest) = joinInsertion r (joinInsertions rest) := rfl
    rw [hcons, hrest]
    cases rest with
    | nil => rfl
    | cons s rest =>
      have hne : r.span ≠ s.span := by simpa using (List.isChain_cons_cons.mp h).left
      simp [joinInsertion, hne]

-- Sorted replacements are in normal order when neighbours differ and no two different ones have
-- the same span: equal spans can only stand next to each other.
theorem pairwise_span_ne {rs : List Replacement} (hchain : rs.IsChain (· ≠ ·))
    (hsorted : rs.Pairwise fun r s => r.precedes s = true)
    (hdistinct : ∀ r ∈ rs, ∀ s ∈ rs, r.span = s.span → r = s) :
    rs.Pairwise fun r s => r.span ≠ s.span := by
  induction rs with
  | nil => exact .nil
  | cons r rest ih =>
    have ⟨hfirst, hrest⟩ := List.pairwise_cons.mp hsorted
    have hdistinct' : ∀ s ∈ rest, ∀ t ∈ rest, s.span = t.span → s = t := fun s hs t ht =>
      hdistinct s (List.mem_cons_of_mem _ hs) t (List.mem_cons_of_mem _ ht)
    refine List.pairwise_cons.mpr ⟨?_, ih hchain.of_cons hrest hdistinct'⟩
    intro s hs heq
    cases rest with
    | nil => cases hs
    | cons t rest =>
      have hne : r ≠ t := (List.isChain_cons_cons.mp hchain).left
      have hrt : r.precedes t = true := hfirst t List.mem_cons_self
      have hts : t.precedes s = true := by
        cases List.mem_cons.mp hs
        case inl h => exact h ▸ precedes_refl t
        case inr h => exact (List.pairwise_cons.mp hrest).left s h
      have htr : t.precedes r = true := by
        rw [precedes_iff] at hts ⊢
        rwa [heq]
      have hspan : r.span = t.span := span_eq_of_precedes hrt htr
      exact hne (hdistinct r List.mem_cons_self t (by simp) hspan)

-- Replacements in normal order, with no two of one span.
def Normal (rs : List Replacement) : Prop :=
  rs.Pairwise fun r s => r.precedes s = true ∧ r.span ≠ s.span

section Distinct

variable {p : Patch}
  (h : ∀ r ∈ p.replacements, ∀ s ∈ p.replacements, r.span = s.span → r = s)

include h

theorem normal_sorted : Normal (dropRepeats (p.replacements.mergeSort precedes)) := by
  have hsorted := (pairwise_precedes_mergeSort p.replacements).sublist (dropRepeats_sublist _)
  have hchain := isChain_ne_dropRepeats (p.replacements.mergeSort precedes)
  have hdistinct := pairwise_span_ne hchain hsorted (by simpa using h)
  exact hsorted.and hdistinct

theorem replacements_normalize :
    p.normalize.replacements = dropRepeats (p.replacements.mergeSort precedes) := by
  have hne : (dropRepeats (p.replacements.mergeSort precedes)).Pairwise fun r s =>
      r.span ≠ s.span := (normal_sorted h).imp (·.right)
  exact joinInsertions_eq_self hne.isChain

theorem normal_normalize : Normal p.normalize.replacements :=
  replacements_normalize h ▸ normal_sorted h

theorem mem_normalize {r : Replacement} : r ∈ p.normalize.replacements ↔ r ∈ p.replacements := by
  rw [replacements_normalize h, mem_dropRepeats, List.mem_mergeSort]

end Distinct

section Joined

variable {r s : Replacement} {rs : List Replacement}

theorem joinInsertions_cons (r : Replacement) (rest : List Replacement) :
    joinInsertions (r :: rest) = joinInsertion r (joinInsertions rest) := rfl

-- Joining leaves the spans as they are.
theorem exists_span_joinInsertion {q : Span} :
    (∃ t ∈ joinInsertion r rs, t.span = q) ↔ r.span = q ∨ ∃ t ∈ rs, t.span = q := by
  cases rs with
  | nil => simp [joinInsertion]
  | cons s rest =>
    rw [joinInsertion]
    split
    case isTrue h => simp [h.right]
    case isFalse => simp

theorem exists_span_joinInsertions {q : Span} :
    (∃ t ∈ joinInsertions rs, t.span = q) ↔ ∃ t ∈ rs, t.span = q := by
  induction rs with
  | nil => rfl
  | cons r rest ih => rw [joinInsertions_cons, exists_span_joinInsertion, ih]; simp

-- Sorted as before, and no two insertions are left at one offset.
theorem pairwise_joinInsertions (h : rs.Pairwise fun r s => r.precedes s = true) :
    (joinInsertions rs).Pairwise fun r s =>
      r.precedes s = true ∧ (r.isInsertion = true → r.span ≠ s.span) := by
  induction rs with
  | nil => exact .nil
  | cons r rest ih =>
    obtain ⟨hfirst, hrest⟩ := List.pairwise_cons.mp h
    have hjoined := ih hrest
    have hprecedes : ∀ s ∈ joinInsertions rest, r.precedes s = true := by
      intro s hs
      obtain ⟨t, ht, hspan⟩ := exists_span_joinInsertions.mp ⟨s, hs, rfl⟩
      rw [← precedes_congr rfl hspan]
      exact hfirst t ht
    rw [joinInsertions_cons]
    cases hothers : joinInsertions rest with
    | nil => simp [joinInsertion]
    | cons s others =>
      rw [hothers] at hjoined hprecedes
      obtain ⟨hs, hothers⟩ := List.pairwise_cons.mp hjoined
      rw [joinInsertion]
      split
      case isTrue hjoin =>
        refine List.pairwise_cons.mpr ⟨?_, hothers⟩
        intro t ht
        obtain ⟨hst, hne⟩ := hs t ht
        have hspan : (⟨r.span, r.pieces ++ s.pieces⟩ : Replacement).span = s.span := hjoin.right
        rw [precedes_congr hspan rfl, hspan]
        refine ⟨hst, fun _ => hne ?_⟩
        rw [isInsertion, ← hjoin.right]
        exact hjoin.left
      case isFalse hjoin =>
        refine List.pairwise_cons.mpr ⟨?_, hjoined⟩
        intro t ht
        refine ⟨hprecedes t ht, fun hinsertion hspan => ?_⟩
        -- The one in front of `t` stands between two of one span.
        have hrs := hprecedes s List.mem_cons_self
        have hsr : s.precedes r = true := by
          rw [precedes_congr rfl hspan]
          obtain rfl | ht := List.mem_cons.mp ht
          · exact precedes_refl _
          · exact (hs t ht).left
        exact hjoin ⟨hinsertion, span_eq_of_precedes hrs hsr⟩

end Joined

section Normalize

variable {p : Patch} {r : Replacement}

theorem pairwise_normalize (p : Patch) :
    p.normalize.replacements.Pairwise fun r s =>
      r.precedes s = true ∧ (r.isInsertion = true → r.span ≠ s.span) :=
  pairwise_joinInsertions
    ((pairwise_precedes_mergeSort p.replacements).sublist (dropRepeats_sublist _))

end Normalize

end Patch

end ClassSplit
