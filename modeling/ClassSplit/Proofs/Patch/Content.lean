import ClassSplit.Patch.Splice
import ClassSplit.Proofs.Patch.NormalOrder
import Mathlib.Data.List.Destutter
import Mathlib.Data.List.Sort

/-!
What a normal patch keeps. The replacements of each span stay in the order in which they were added,
those of an empty span joined into one, and a run of equal ones counts once; in a sorted list this
determines all of it. Main statements: `Patch.content_of_normalize` and
`Patch.normalize_eq_of_same_members`.
-/

namespace ClassSplit

namespace Replacement

variable {r s t : Replacement}

-- What stands between two of one span in a sorted list has that span as well.
theorem span_eq_of_between (hrs : r.precedes s = true) (hst : s.precedes t = true)
    (h : r.span = t.span) : r.span = s.span := by
  rw [precedes_congr rfl h.symm] at hst
  exact span_eq_of_precedes hrs hst

theorem span_ne_of_between (hrs : r.precedes s = true) (hst : s.precedes t = true)
    (h : r.span ≠ s.span) : t.span ≠ r.span := fun heq => h (span_eq_of_between hrs hst heq.symm)

theorem isInsertion_eq_isEmpty (r : Replacement) : r.isInsertion = r.span.isEmpty := rfl

end Replacement

namespace Patch

open Replacement

variable {p q : Patch} {r s : Replacement} {rs rs' rest : List Replacement} {span : Span}

-- The replacements of one span, in order.
def ofSpan (span : Span) (rs : List Replacement) : List Replacement := rs.filter (·.span = span)

-- Each run of equal replacements once.
def runs (rs : List Replacement) : List Replacement := rs.destutter (· ≠ ·)

-- All replacements of a span as one, if there are any.
def joined (span : Span) : List Replacement → List Replacement
  | [] => []
  | rs => [⟨span, rs.flatMap (·.pieces)⟩]

theorem mem_ofSpan : r ∈ ofSpan span rs ↔ r ∈ rs ∧ r.span = span := by
  simp [ofSpan]

theorem ofSpan_cons_of_eq (h : r.span = span) (rs : List Replacement) :
    ofSpan span (r :: rs) = r :: ofSpan span rs := List.filter_cons_of_pos (by simpa using h)

theorem ofSpan_cons_of_ne (h : r.span ≠ span) (rs : List Replacement) :
    ofSpan span (r :: rs) = ofSpan span rs :=
  List.filter_cons_of_neg (by simpa using h)

theorem ofSpan_eq_nil_iff : ofSpan span rs = [] ↔ ∀ r ∈ rs, r.span ≠ span := by
  simp [ofSpan]

section Runs

theorem runs_cons_of_head_ne (h : ∀ s ∈ rs.head?, r ≠ s) : runs (r :: rs) = r :: runs rs := by
  cases rs with
  | nil => rfl
  | cons s rest =>
    have hne : r ≠ s := h s rfl
    rw [runs, List.destutter_cons_cons, if_pos hne]
    rfl

-- In a sorted list the replacements of a span stand together.
theorem ofSpan_dropRepeats (hsorted : rs.Pairwise fun r s => r.precedes s = true) :
    ofSpan span (dropRepeats rs) = runs (ofSpan span rs) := by
  induction rs using dropRepeats.induct
  case case1 => rfl
  case case2 r =>
    rw [dropRepeats]
    by_cases h : r.span = span
    case pos => rw [ofSpan_cons_of_eq h]; rfl
    case neg => rw [ofSpan_cons_of_ne h]; rfl
  case case3 s rest ih =>
    rw [dropRepeats, if_pos rfl, ih hsorted.of_cons]
    by_cases h : s.span = span
    case pos =>
      rw [ofSpan_cons_of_eq h (s :: rest), ofSpan_cons_of_eq h, runs, runs,
        List.destutter_cons_cons, if_neg (not_not_intro rfl)]
      rfl
    case neg => rw [ofSpan_cons_of_ne h (s :: rest)]
  case case4 r s rest hne ih =>
    rw [dropRepeats, if_neg hne]
    by_cases h : r.span = span
    case neg => rw [ofSpan_cons_of_ne h, ofSpan_cons_of_ne h, ih hsorted.of_cons]
    case pos =>
      rw [ofSpan_cons_of_eq h, ofSpan_cons_of_eq h, ih hsorted.of_cons, runs_cons_of_head_ne]
      intro t ht
      by_cases hs : s.span = span
      case pos =>
        rw [ofSpan_cons_of_eq hs, List.head?_cons, Option.mem_some] at ht
        exact ht ▸ hne
      case neg =>
        -- `s` stands between `r` and whatever else has the span
        obtain ⟨hfirst, hrest⟩ := List.pairwise_cons.mp hsorted
        have hempty : ofSpan span (s :: rest) = [] := by
          rw [ofSpan_cons_of_ne hs, ofSpan_eq_nil_iff, ← h]
          intro t ht
          exact span_ne_of_between (hfirst s List.mem_cons_self)
            ((List.pairwise_cons.mp hrest).left t ht) (h ▸ Ne.symm hs)
        rw [hempty] at ht
        cases ht

end Runs

-- Sorting keeps the order of the replacements of a span.
theorem ofSpan_mergeSort (span : Span) (rs : List Replacement) :
    ofSpan span (rs.mergeSort precedes) = ofSpan span rs := by
  have htrans : ∀ r s t : Replacement,
      r.precedes s = true → s.precedes t = true → r.precedes t = true :=
    fun _ _ _ => precedes_trans
  have hsame : (ofSpan span rs).Pairwise fun r s => r.precedes s = true := by
    refine List.pairwise_of_forall_mem_list fun r hr s hs => ?_
    rw [precedes_congr rfl ((mem_ofSpan.mp hs).right.trans (mem_ofSpan.mp hr).right.symm)]
    exact precedes_refl r
  have hsub : (ofSpan span rs).Sublist (rs.mergeSort precedes) :=
    List.sublist_mergeSort htrans precedes_total hsame List.filter_sublist
  have hsub' : (ofSpan span rs).Sublist (ofSpan span (rs.mergeSort precedes)) := by
    have hfilter := hsub.filter (·.span = span)
    simp only [ofSpan, List.filter_filter, Bool.and_self] at hfilter
    exact hfilter
  have hperm := (List.mergeSort_perm rs precedes).filter (·.span = span)
  exact (hsub'.eq_of_length hperm.length_eq.symm).symm

section Joining

-- Joining loses no piece and moves none to another span.
theorem pieces_joinInsertions (span : Span) (rs : List Replacement) :
    (ofSpan span (joinInsertions rs)).flatMap (·.pieces) =
      (ofSpan span rs).flatMap (·.pieces) := by
  have hstep (r : Replacement) (rs : List Replacement) :
      (ofSpan span (joinInsertion r rs)).flatMap (·.pieces) =
        (ofSpan span (r :: rs)).flatMap (·.pieces) := by
    cases rs with
    | nil => rfl
    | cons s rest =>
      rw [joinInsertion]
      split
      case isFalse => rfl
      case isTrue hjoin =>
        by_cases hr : r.span = span
        case pos =>
          have hs : s.span = span := hjoin.right ▸ hr
          rw [ofSpan_cons_of_eq hr, ofSpan_cons_of_eq hs, ofSpan_cons_of_eq (by exact hr)]
          simp
        case neg =>
          have hs : s.span ≠ span := hjoin.right ▸ hr
          rw [ofSpan_cons_of_ne hr, ofSpan_cons_of_ne hs, ofSpan_cons_of_ne (by exact hr)]
  induction rs with
  | nil => rfl
  | cons r rest ih =>
    rw [joinInsertions_cons, hstep]
    by_cases hr : r.span = span
    case pos =>
      rw [ofSpan_cons_of_eq hr, ofSpan_cons_of_eq hr, List.flatMap_cons, ih, List.flatMap_cons]
    case neg => rw [ofSpan_cons_of_ne hr, ofSpan_cons_of_ne hr, ih]

-- Replacements with extent are not joined.
theorem ofSpan_joinInsertions_of_extent (h : span.isEmpty = false) (rs : List Replacement) :
    ofSpan span (joinInsertions rs) = ofSpan span rs := by
  have hstep (r : Replacement) (rs : List Replacement) :
      ofSpan span (joinInsertion r rs) = ofSpan span (r :: rs) := by
    cases rs with
    | nil => rfl
    | cons s rest =>
      rw [joinInsertion]
      split
      case isFalse => rfl
      case isTrue hjoin =>
        have hr : r.span ≠ span := by
          rintro rfl
          rw [isInsertion_eq_isEmpty, h] at hjoin
          cases hjoin.left
        have hs : s.span ≠ span := hjoin.right ▸ hr
        rw [ofSpan_cons_of_ne hr, ofSpan_cons_of_ne hs, ofSpan_cons_of_ne (by exact hr)]
  induction rs with
  | nil => rfl
  | cons r rest ih =>
    rw [joinInsertions_cons, hstep]
    by_cases hr : r.span = span
    case pos => rw [ofSpan_cons_of_eq hr, ofSpan_cons_of_eq hr, ih]
    case neg => rw [ofSpan_cons_of_ne hr, ofSpan_cons_of_ne hr, ih]

-- Of a sorted list the insertions at an offset are joined into one.
theorem ofSpan_joinInsertions_of_point (h : span.isEmpty = true)
    (hsorted : rs.Pairwise fun r s => r.precedes s = true) :
    ofSpan span (joinInsertions rs) = joined span (ofSpan span rs) := by
  have hsingle : (ofSpan span (joinInsertions rs)).Pairwise fun r s =>
      r.isInsertion = true → r.span ≠ s.span :=
    ((pairwise_joinInsertions hsorted).imp (·.right)).sublist List.filter_sublist
  have hpieces := pieces_joinInsertions span rs
  have hnil : ofSpan span (joinInsertions rs) = [] ↔ ofSpan span rs = [] := by
    have hspans : (¬∃ r ∈ joinInsertions rs, r.span = span) ↔ ¬∃ r ∈ rs, r.span = span :=
      not_congr exists_span_joinInsertions
    simpa [ofSpan_eq_nil_iff] using hspans
  have hspan : ∀ r ∈ ofSpan span (joinInsertions rs), r.span = span := fun r hr =>
    (mem_ofSpan.mp hr).right
  cases hleft : ofSpan span (joinInsertions rs) with
  | nil => rw [hnil.mp hleft]; rfl
  | cons r others =>
    rw [hleft] at hsingle hpieces hspan
    have hr := hspan r List.mem_cons_self
    have hothers : others = [] := by
      refine List.eq_nil_iff_forall_not_mem.mpr fun s hs => ?_
      refine (List.pairwise_cons.mp hsingle).left s hs ?_ ?_
      · rw [isInsertion_eq_isEmpty, hr, h]
      · rw [hr, hspan s (List.mem_cons_of_mem _ hs)]
    cases hright : ofSpan span rs with
    | nil => rw [hnil.mpr hright] at hleft; cases hleft
    | cons s rest =>
      rw [hright] at hpieces
      rw [joined, ← hpieces, hothers, ← hr]
      · simp
      · exact List.cons_ne_nil _ _

end Joining

section Normalize

theorem ofSpan_normalize_of_extent (h : span.isEmpty = false) (p : Patch) :
    ofSpan span p.normalize.replacements = runs (ofSpan span p.replacements) := by
  rw [normalize, ofSpan_joinInsertions_of_extent h,
    ofSpan_dropRepeats (pairwise_precedes_mergeSort _), ofSpan_mergeSort]

theorem ofSpan_normalize_of_point (h : span.isEmpty = true) (p : Patch) :
    ofSpan span p.normalize.replacements = joined span (runs (ofSpan span p.replacements)) := by
  have hsorted := pairwise_precedes_mergeSort p.replacements
  rw [normalize, ofSpan_joinInsertions_of_point h (hsorted.sublist (dropRepeats_sublist _)),
    ofSpan_dropRepeats hsorted, ofSpan_mergeSort]

theorem pairwise_precedes_normalize (p : Patch) :
    p.normalize.replacements.Pairwise fun r s => r.precedes s = true :=
  (pairwise_normalize p).imp (·.left)

end Normalize

-- A sorted list is determined by what it has of each span.
theorem eq_of_forall_ofSpan_eq (hrs : rs.Pairwise fun r s => r.precedes s = true)
    (hrs' : rs'.Pairwise fun r s => r.precedes s = true)
    (h : ∀ span, ofSpan span rs = ofSpan span rs') : rs = rs' := by
  induction rs generalizing rs' with
  | nil =>
    cases rs' with
    | nil => rfl
    | cons s rest =>
      have hs := h s.span
      rw [ofSpan_cons_of_eq rfl] at hs
      cases hs
  | cons r rest ih =>
    obtain ⟨s, rest', rfl⟩ : ∃ s rest', rs' = s :: rest' := by
      refine List.exists_cons_of_ne_nil ?_
      rintro rfl
      have hr := h r.span
      rw [ofSpan_cons_of_eq rfl] at hr
      cases hr
    obtain ⟨hfirst, hrest⟩ := List.pairwise_cons.mp hrs
    obtain ⟨hfirst', hrest'⟩ := List.pairwise_cons.mp hrs'
    -- the first of each list is somewhere in the other one as well
    have hspan : r.span = s.span := by
      obtain ⟨hs, -⟩ : s ∈ r :: rest ∧ s.span = s.span := by
        rw [← mem_ofSpan, h, mem_ofSpan]
        exact ⟨List.mem_cons_self, rfl⟩
      obtain ⟨hr, -⟩ : r ∈ s :: rest' ∧ r.span = r.span := by
        rw [← mem_ofSpan, ← h, mem_ofSpan]
        exact ⟨List.mem_cons_self, rfl⟩
      obtain rfl | hs := List.mem_cons.mp hs
      · rfl
      obtain rfl | hr := List.mem_cons.mp hr
      · rfl
      exact span_eq_of_precedes (hfirst s hs) (hfirst' r hr)
    have heads := h r.span
    rw [ofSpan_cons_of_eq rfl, ofSpan_cons_of_eq hspan.symm] at heads
    obtain ⟨rfl, -⟩ := List.cons.inj heads
    refine congrArg (r :: ·) (ih hrest hrest' fun span => ?_)
    have hspan := h span
    by_cases hr : r.span = span
    case pos =>
      rw [ofSpan_cons_of_eq hr, ofSpan_cons_of_eq hr] at hspan
      exact (List.cons.inj hspan).right
    case neg => rwa [ofSpan_cons_of_ne hr, ofSpan_cons_of_ne hr] at hspan

theorem runs_joined (span : Span) (rs : List Replacement) :
    joined span (runs (joined span rs)) = joined span rs := by
  cases rs with
  | nil => rfl
  | cons r rest => simp [joined, runs]

theorem eq_of_replacements_eq (h : p.replacements = q.replacements) : p = q := by
  cases p
  exact congrArg mk h

theorem normalize_normalize (p : Patch) : p.normalize.normalize = p.normalize := by
  refine eq_of_replacements_eq (eq_of_forall_ofSpan_eq (pairwise_precedes_normalize _)
    (pairwise_precedes_normalize p) fun span => ?_)
  cases h : span.isEmpty with
  | true => rw [ofSpan_normalize_of_point h, ofSpan_normalize_of_point h, runs_joined]
  | false =>
    rw [ofSpan_normalize_of_extent h, ofSpan_normalize_of_extent h]
    exact List.destutter_idem _ _

theorem apply_congr (h : p.normalize = q.normalize) (source : String) :
    p.apply source = q.apply source := by
  simp only [apply, h]

-- Patches with the same replacements are the same once they are normal, in whatever order and how
-- often they were added, if no two different ones have one span.
theorem normalize_eq_of_same_members (hmem : ∀ r, r ∈ p.replacements ↔ r ∈ q.replacements)
    (hdistinct : ∀ r ∈ p.replacements, ∀ s ∈ p.replacements, r.span = s.span → r = s) :
    p.normalize = q.normalize ∧ ∀ source, p.apply source = q.apply source := by
  have hdistinct' : ∀ r ∈ q.replacements, ∀ s ∈ q.replacements, r.span = s.span → r = s :=
    fun r hr s hs => hdistinct r ((hmem r).mpr hr) s ((hmem s).mpr hs)
  have : Std.Irrefl fun r s : Replacement => r.precedes s = true ∧ r.span ≠ s.span :=
    ⟨fun _ h => h.right rfl⟩
  have : Std.Antisymm fun r s : Replacement => r.precedes s = true ∧ r.span ≠ s.span :=
    ⟨fun _ _ h h' => absurd (span_eq_of_precedes h.left h'.left) h.right⟩
  have heq : p.normalize = q.normalize := by
    refine eq_of_replacements_eq
      ((normal_normalize hdistinct).eq_of_mem_iff (normal_normalize hdistinct') fun r => ?_)
    rw [mem_normalize hdistinct, mem_normalize hdistinct', hmem]
  exact ⟨heq, apply_congr heq⟩

-- An insertion and two replacements, in two orders, one of them added twice.
theorem normalize_eq_of_same_members_swapped :
    let outer : Replacement := ⟨⟨0, 9⟩, [.text "set(", .source ⟨4, 9⟩, .text ")"]⟩
    let inner : Replacement := .ofText ⟨4, 5⟩ "get()"
    let before : Replacement := .insertion 4 "("
    let p : Patch := ⟨[outer, inner, before]⟩
    let q : Patch := ⟨[before, inner, outer, inner]⟩
    (∀ r, r ∈ p.replacements ↔ r ∈ q.replacements) ∧
      (∀ r ∈ p.replacements, ∀ s ∈ p.replacements, r.span = s.span → r = s) ∧
        p.normalize = q.normalize ∧ ∀ source, p.apply source = q.apply source := by
  intro outer inner before p q
  have hmem : ∀ r, r ∈ p.replacements ↔ r ∈ q.replacements := by
    intro r
    simp only [p, q, List.mem_cons, List.not_mem_nil, or_false]
    tauto
  have hdistinct : ∀ r ∈ p.replacements, ∀ s ∈ p.replacements, r.span = s.span → r = s := by
    decide
  exact ⟨hmem, hdistinct, normalize_eq_of_same_members hmem hdistinct⟩

-- A normal patch is sorted, with one insertion at most at each offset. It has the replacements of
-- each span with extent in the order in which they were added, and at each offset the pieces of all
-- insertions there, where in both cases a run of equal replacements counts once. Normalizing it
-- again changes nothing, and neither does it matter for carrying the patch out.
theorem content_of_normalize (p : Patch) :
    p.normalize.replacements.Pairwise (fun r s =>
      r.precedes s = true ∧ (r.isInsertion = true → r.span ≠ s.span)) ∧
    (∀ span : Span, span.isEmpty = false →
      ofSpan span p.normalize.replacements = runs (ofSpan span p.replacements)) ∧
    (∀ span : Span, span.isEmpty = true →
      ofSpan span p.normalize.replacements = joined span (runs (ofSpan span p.replacements))) ∧
    p.normalize.normalize = p.normalize ∧
      ∀ source, p.normalize.apply source = p.apply source :=
  ⟨pairwise_normalize p, fun _ h => ofSpan_normalize_of_extent h p,
    fun _ h => ofSpan_normalize_of_point h p, normalize_normalize p,
    apply_congr (normalize_normalize p)⟩

-- Two equal insertions in a row are one, an equal one behind another is a second one.
example :
    (⟨[.insertion 1 "a", .insertion 1 "a", .insertion 1 "b", .insertion 1 "a"]⟩ : Patch).normalize =
      ⟨[⟨.point 1, [.text "a", .text "b", .text "a"]⟩]⟩ := by
  cbv

end Patch

end ClassSplit
