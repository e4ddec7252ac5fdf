import ClassSplit.Proofs.Patch.Splice
import ClassSplit.Proofs.Text.InOrder
import Mathlib.Data.List.Find

/-!
Where the text that comes out of a span can be divided. A replacement that no other one encloses
divides it: in front of it and behind it stands what the others make of the rest, and in its place
stands what it shows. So does a place over which no replacement reaches. Main statements:
`Replacement.rendering_split` and `Replacement.rendering_cut`.
-/

namespace ClassSplit

namespace Replacement

section Filter

variable {α : Type} {p q : α → Bool} {xs : List α}

-- A search passes over what cannot be found.
theorem find?_filter_of_imp (h : ∀ x ∈ xs, q x = true → p x = true) :
    (xs.filter p).find? q = xs.find? q := by
  rw [List.find?_filter]
  refine List.find?_congr fun x hx => ?_
  cases hq : q x with
  | false => simp
  | true => simp [h x hx hq]

theorem any_filter_of_imp (h : ∀ x ∈ xs, q x = true → p x = true) :
    (xs.filter p).any q = xs.any q := by
  rw [Bool.eq_iff_iff, List.any_eq_true, List.any_eq_true]
  constructor
  case mp =>
    rintro ⟨x, hx, hq⟩
    exact ⟨x, (List.mem_filter.mp hx).left, hq⟩
  case mpr =>
    rintro ⟨x, hx, hq⟩
    exact ⟨x, List.mem_filter.mpr ⟨hx, h x hx hq⟩, hq⟩

end Filter

variable {text : List Char} {family outer : List Replacement} {r s : Replacement}
  {shows : Replacement → List Char} {span : Span} {stop i : Nat}

-- Only what begins at an offset or holds it counts there.
theorem contribution_filter {p : Replacement → Bool} {end' : Nat} (hstop : i < end' ↔ i < stop)
    (h : ∀ s ∈ outer, s.span.start = i ∨ s.span.holds i = true → p s = true) :
    contribution text (outer.filter p) end' shows i = contribution text outer stop shows i := by
  rw [contribution, contribution, startingAt, startingAt,
    find?_filter_of_imp fun s hs hat => h s hs (.inl (insertsAt_iff.mp hat).right),
    find?_filter_of_imp fun s hs hat => h s hs (.inl (replacesFrom_iff.mp hat).right),
    any_filter_of_imp fun s hs hat => h s hs (.inr hat)]
  simp only [hstop]

-- A replacement of a family that no other one encloses.
structure Maximal (family : List Replacement) (r : Replacement) : Prop where
  mem : r ∈ family
  nonempty : r.span.start < r.span.stop
  free : ∀ s ∈ family, s.encloses r = false

-- The text in front of a replacement or behind it.
def IsRest (span : Span) (r : Replacement) (part : Span) : Prop :=
  part = ⟨span.start, r.span.start⟩ ∨ part = ⟨r.span.stop, span.stop⟩

-- In a part of a span those are outermost that are outermost in the whole, if nothing encloses one
-- of them but what lies in the part itself.
theorem outermost_eq_filter {part : Span} (hsub : span.covers part = true)
    (h : ∀ s ∈ family, ∀ t ∈ family, t.encloses s = true → part.covers s.span = true →
      span.covers t.span = true → part.covers t.span = true) :
    outermost family part = (outermost family span).filter (part.covers ·.span) := by
  simp only [outermost, List.filter_filter]
  refine List.filter_congr fun s hs => ?_
  cases hin : part.covers s.span with
  | false => simp
  | true =>
    have hinside : family.filter (part.covers ·.span) =
        (family.filter (span.covers ·.span)).filter (part.covers ·.span) := by
      rw [List.filter_filter]
      refine List.filter_congr fun t _ => ?_
      cases ht : part.covers t.span with
      | false => simp
      | true => simp [Span.covers_trans hsub ht]
    have hany : (family.filter (part.covers ·.span)).any (·.encloses s) =
        (family.filter (span.covers ·.span)).any (·.encloses s) := by
      rw [hinside]
      refine any_filter_of_imp fun t ht hts => ?_
      obtain ⟨hmem, hout⟩ := List.mem_filter.mp ht
      exact h s hs t hmem hts hin hout
    rw [hany, Span.covers_trans hsub hin]
    simp

section Maximal

variable (hlaminar : Laminar family) (hr : Maximal family r) (hcovers : span.covers r.span = true)

include hlaminar hr hcovers

omit hlaminar in
theorem Maximal.isOutermost : r ∈ outermost family span :=
  mem_outermost.mpr ⟨hr.mem, hcovers, fun s hs _ => hr.free s hs⟩

-- The others that are outermost lie beside it.
theorem Maximal.eq_or_beside (hs : s ∈ outermost family span) : s = r ∨ s.span.Beside r.span := by
  obtain ⟨hmem, -, hfree⟩ := mem_outermost.mp hs
  by_cases hne : s = r
  case pos => exact .inl hne
  case neg =>
    obtain hbeside | henc | henc := hlaminar.nested s hmem r hr.mem hne
    · refine .inr ?_
      simpa [beside, Span.Beside] using hbeside
    · rw [hr.free s hmem] at henc
      cases henc
    · rw [hfree r hr.mem hcovers] at henc
      cases henc

-- What encloses a part of the rest is itself a part of it.
theorem Maximal.covers_rest {t : Replacement} {part : Span} (hpart : IsRest span r part)
    (ht : t ∈ family) (hts : t.encloses s = true) (hs : s.span.Ordered)
    (hin : part.covers s.span = true) (hout : span.covers t.span = true) :
    part.covers t.span = true := by
  have hlt := hr.nonempty
  have hle : s.span.start ≤ s.span.stop := hs
  rw [encloses_iff] at hts
  rw [Span.covers_iff] at hin hout ⊢
  by_cases hne : t = r
  case pos =>
    subst hne
    obtain rfl | rfl := hpart
    all_goals
      simp only at hin
      omega
  case neg =>
    obtain hbeside | henc | henc := hlaminar.nested t ht r hr.mem hne
    · simp only [beside, Bool.or_eq_true, decide_eq_true_eq] at hbeside
      obtain rfl | rfl := hpart
      all_goals
        simp only at hin ⊢
        omega
    · rw [hr.free t ht] at henc
      cases henc
    · rw [encloses_iff] at henc
      obtain rfl | rfl := hpart
      all_goals
        simp only at hin
        omega

-- In front of it and behind it those are outermost that are outermost in the whole.
theorem Maximal.outermost_rest {part : Span} (hordered : ∀ s ∈ family, s.span.Ordered)
    (hpart : IsRest span r part) :
    outermost family part = (outermost family span).filter (part.covers ·.span) := by
  have hsub : span.covers part = true := by
    have hlt := hr.nonempty
    rw [Span.covers_iff] at hcovers ⊢
    obtain rfl | rfl := hpart
    all_goals
      simp only
      omega
  exact outermost_eq_filter hsub fun s hs t ht hts hin hout =>
    hr.covers_rest hlaminar hcovers hpart ht hts (hordered s hs) hin hout

section Contribution

variable (hordered : ∀ s ∈ family, s.span.Ordered)

include hordered

theorem Maximal.contribution_before (hi : i < r.span.start) :
    contribution text (outermost family span) span.stop shows i =
      contribution text (outermost family ⟨span.start, r.span.start⟩) r.span.start shows i := by
  have hlt := hr.nonempty
  have hle := Span.covers_iff.mp hcovers
  rw [hr.outermost_rest hlaminar hcovers hordered (.inl rfl)]
  refine (contribution_filter (by omega) ?_).symm
  intro s hs hat
  have hin := Span.covers_iff.mp (mem_outermost.mp hs).right.left
  have hs' : s.span.start ≤ s.span.stop := hordered s (mem_outermost.mp hs).left
  simp only [Span.holds, Bool.and_eq_true, decide_eq_true_eq] at hat
  obtain rfl | hbeside := hr.eq_or_beside hlaminar hcovers hs
  · omega
  · rw [Span.covers_iff]
    unfold Span.Beside at hbeside
    simp only
    omega

theorem Maximal.contribution_behind (hi : r.span.stop ≤ i) :
    contribution text (outermost family span) span.stop shows i =
      contribution text (outermost family ⟨r.span.stop, span.stop⟩) span.stop shows i := by
  have hlt := hr.nonempty
  rw [hr.outermost_rest hlaminar hcovers hordered (.inr rfl)]
  refine (contribution_filter Iff.rfl ?_).symm
  intro s hs hat
  have hin := Span.covers_iff.mp (mem_outermost.mp hs).right.left
  simp only [Span.holds, Bool.and_eq_true, decide_eq_true_eq] at hat
  obtain rfl | hbeside := hr.eq_or_beside hlaminar hcovers hs
  · omega
  · rw [Span.covers_iff]
    unfold Span.Beside at hbeside
    simp only
    omega

theorem Maximal.contribution_inside (hi : r.span.start < i) (hstop : i < r.span.stop) :
    contribution text (outermost family span) span.stop shows i = [] := by
  have hstart : ∀ s ∈ outermost family span, s.span.start ≠ i := by
    intro s hs
    have hs' : s.span.start ≤ s.span.stop := hordered s (mem_outermost.mp hs).left
    obtain rfl | hbeside := hr.eq_or_beside hlaminar hcovers hs
    · omega
    · unfold Span.Beside at hbeside
      omega
  have hholds : (outermost family span).any (·.span.holds i) = true :=
    List.any_eq_true.mpr ⟨r, hr.isOutermost hcovers, by simp [Span.holds]; omega⟩
  rw [contribution, startingAt_eq_nil hstart, hholds]
  simp

-- Nothing else takes its place.
theorem Maximal.eq_of_replacesFrom (hs : s ∈ outermost family span)
    (hat : replacesFrom r.span.start s = true) : s = r := by
  have hlt := hr.nonempty
  have hs' : s.span.start ≤ s.span.stop := hordered s (mem_outermost.mp hs).left
  obtain ⟨hne, hstart⟩ := replacesFrom_iff.mp hat
  refine (hr.eq_or_beside hlaminar hcovers hs).resolve_right fun hbeside => ?_
  unfold Span.Beside at hbeside
  omega

theorem Maximal.find?_replacesFrom :
    (outermost family span).find? (replacesFrom r.span.start) = some r := by
  have hlt := hr.nonempty
  cases hfind : (outermost family span).find? (replacesFrom r.span.start) with
  | none =>
    have hnot := List.find?_eq_none.mp hfind r (hr.isOutermost hcovers)
    exact absurd (replacesFrom_iff.mpr ⟨by omega, rfl⟩) hnot
  | some s =>
    rw [hr.eq_of_replacesFrom hlaminar hcovers hordered (List.mem_of_find?_eq_some hfind)
      (List.find?_some hfind)]

-- What is inserted where it begins stands in front of it.
theorem Maximal.contribution_start :
    contribution text (outermost family span) span.stop shows r.span.start =
      contribution text (outermost family ⟨span.start, r.span.start⟩) r.span.start shows
        r.span.start ++ shows r := by
  have hlt := hr.nonempty
  have hholds : (outermost family span).any (·.span.holds r.span.start) = true :=
    List.any_eq_true.mpr ⟨r, hr.isOutermost hcovers, by simp [Span.holds]; omega⟩
  have hinserts : (outermost family ⟨span.start, r.span.start⟩).find? (insertsAt r.span.start) =
      (outermost family span).find? (insertsAt r.span.start) := by
    rw [hr.outermost_rest hlaminar hcovers hordered (.inl rfl)]
    refine find?_filter_of_imp fun s hs hat => ?_
    obtain ⟨hempty, hstart⟩ := insertsAt_iff.mp hat
    have hle := Span.covers_iff.mp hcovers
    exact Span.covers_iff.mpr ⟨by simp only; omega, by simp only; omega⟩
  have hreplaces : (outermost family ⟨span.start, r.span.start⟩).find?
      (replacesFrom r.span.start) = none := by
    rw [hr.outermost_rest hlaminar hcovers hordered (.inl rfl)]
    refine List.find?_eq_none.mpr fun s hs hat => ?_
    obtain ⟨hs, hin⟩ := List.mem_filter.mp hs
    rw [hr.eq_of_replacesFrom hlaminar hcovers hordered hs hat, Span.covers_iff] at hin
    simp only at hin
    omega
  rw [contribution, contribution, startingAt, startingAt, hinserts, hreplaces,
    hr.find?_replacesFrom hlaminar hcovers hordered, hholds]
  simp

end Contribution

end Maximal

-- The text in front of it, what it shows, and the text behind it.
theorem rendering_split (hlaminar : Laminar family) (hordered : ∀ s ∈ family, s.span.Ordered)
    (hr : Maximal family r) (hcovers : span.covers r.span = true) :
    rendering text family span =
      rendering text family ⟨span.start, r.span.start⟩ ++ shown text family r ++
        rendering text family ⟨r.span.stop, span.stop⟩ := by
  have hlt := hr.nonempty
  obtain ⟨hstart, hstop⟩ := Span.covers_iff.mp hcovers
  obtain ⟨before, hbefore⟩ := Nat.exists_eq_add_of_le hstart
  obtain ⟨inside, hinside⟩ := Nat.exists_eq_add_of_lt hlt
  have hleft : List.range' span.start ((Span.mk span.start r.span.start).length + 1) =
      List.range' span.start before ++ [r.span.start] := by
    rw [Span.length, hbefore, Nat.add_sub_cancel_left, List.range'_concat, Nat.one_mul]
  have hwhole : List.range' span.start (span.length + 1) =
      List.range' span.start before ++ [r.span.start] ++ List.range' (r.span.start + 1) inside ++
        List.range' r.span.stop ((Span.mk r.span.stop span.stop).length + 1) := by
    have hlength : span.length + 1 =
        before + (1 + (inside + ((Span.mk r.span.stop span.stop).length + 1))) := by
      simp only [Span.length]
      omega
    have hbehind : r.span.start + 1 + inside = r.span.stop := by omega
    rw [hlength, ← List.range'_append_1, ← List.range'_append_1, ← List.range'_append_1, ← hbefore,
      hbehind]
    simp
  have hfront : (List.range' span.start before).flatMap
      (contribution text (outermost family span) span.stop (shown text family)) =
        (List.range' span.start before).flatMap
          (contribution text (outermost family ⟨span.start, r.span.start⟩) r.span.start
            (shown text family)) := by
    refine List.flatMap_congr fun i hi => ?_
    obtain ⟨-, hhi⟩ := List.mem_range'_1.mp hi
    exact hr.contribution_before hlaminar hcovers hordered (by omega)
  have hnothing : (List.range' (r.span.start + 1) inside).flatMap
      (contribution text (outermost family span) span.stop (shown text family)) = [] := by
    refine List.flatMap_eq_nil_iff.mpr fun i hi => ?_
    obtain ⟨hlo, hhi⟩ := List.mem_range'_1.mp hi
    exact hr.contribution_inside hlaminar hcovers hordered (by omega) (by omega)
  have hback : (List.range' r.span.stop ((Span.mk r.span.stop span.stop).length + 1)).flatMap
      (contribution text (outermost family span) span.stop (shown text family)) =
        (List.range' r.span.stop ((Span.mk r.span.stop span.stop).length + 1)).flatMap
          (contribution text (outermost family ⟨r.span.stop, span.stop⟩) span.stop
            (shown text family)) := by
    refine List.flatMap_congr fun i hi => ?_
    obtain ⟨hlo, -⟩ := List.mem_range'_1.mp hi
    exact hr.contribution_behind hlaminar hcovers hordered hlo
  rw [rendering_eq, rendering_eq, rendering_eq, hwhole, hleft, List.flatMap_append,
    List.flatMap_append, List.flatMap_append, List.flatMap_append, List.flatMap_singleton,
    List.flatMap_singleton, hfront, hnothing, hback,
    hr.contribution_start hlaminar hcovers hordered]
  simp only [List.append_assoc, List.nil_append]

section Cut

variable {a b c : Nat}

-- No replacement in a span reaches over a place in it.
def IsCut (family : List Replacement) (a b c : Nat) : Prop :=
  ∀ r ∈ family, Span.covers ⟨a, c⟩ r.span = true → r.span.stop ≤ b ∨ b ≤ r.span.start

-- What reaches behind a place; insertions at the place do not.
def beyond (family : List Replacement) (b : Nat) : List Replacement :=
  family.filter (b < ·.span.stop)

section IsCut

variable (hcut : IsCut family a b c)

include hcut

theorem filter_beyond (hab : a ≤ b) : (beyond family b).filter (Span.covers ⟨b, c⟩ ·.span) =
    beyond (family.filter (Span.covers ⟨a, c⟩ ·.span)) b := by
  simp only [beyond, List.filter_filter]
  refine List.filter_congr fun s hs => ?_
  have := hcut s hs
  rw [Bool.eq_iff_iff]
  simp only [Span.covers_iff, Bool.and_eq_true, decide_eq_true_eq] at this ⊢
  omega

-- Behind the place those are outermost that are outermost in the whole.
theorem outermost_beyond (hab : a ≤ b) :
    outermost (beyond family b) ⟨b, c⟩ = beyond (outermost family ⟨a, c⟩) b := by
  simp only [outermost, filter_beyond hcut hab]
  simp only [beyond, List.filter_filter]
  refine List.filter_congr fun s _ => ?_
  cases hs : decide (b < s.span.stop) with
  | false => simp
  | true =>
    have hany : (family.filter fun t => decide (b < t.span.stop) &&
        Span.covers ⟨a, c⟩ t.span).any (·.encloses s) =
          (family.filter (Span.covers ⟨a, c⟩ ·.span)).any (·.encloses s) := by
      rw [← List.filter_filter]
      refine any_filter_of_imp fun t _ hts => ?_
      have := (Span.covers_iff.mp (covers_of_encloses hts)).right
      rw [decide_eq_true_eq] at hs ⊢
      omega
    rw [hany]
    simp

variable (hordered : ∀ s ∈ family, s.span.Ordered)

include hordered

-- So are those in front of it.
theorem outermost_front (hbc : b ≤ c) :
    outermost family ⟨a, b⟩ = (outermost family ⟨a, c⟩).filter (Span.covers ⟨a, b⟩ ·.span) := by
  refine outermost_eq_filter (Span.covers_iff.mpr ⟨Nat.le_refl a, hbc⟩) ?_
  intro s hs t ht hts hin hout
  have hs' : s.span.start ≤ s.span.stop := hordered s hs
  have ht' : t.span.start ≤ t.span.stop := hordered t ht
  have := hcut t ht hout
  rw [encloses_iff] at hts
  simp only [Span.covers_iff] at hin hout ⊢
  omega

-- What lies in the whole and begins at an offset or holds it, before the place or behind it.
theorem mem_outermost_cut {s : Replacement} (hs : s ∈ outermost family ⟨a, c⟩) :
    a ≤ s.span.start ∧ s.span.start ≤ s.span.stop ∧ s.span.stop ≤ c ∧
      (s.span.stop ≤ b ∨ b ≤ s.span.start) := by
  obtain ⟨hmem, hin, -⟩ := mem_outermost.mp hs
  have := hcut s hmem hin
  have hs' : s.span.start ≤ s.span.stop := hordered s hmem
  rw [Span.covers_iff] at hin
  exact ⟨hin.left, hs', hin.right, this⟩

theorem contribution_front (hbc : b ≤ c) (hi : i < b) :
    contribution text (outermost family ⟨a, c⟩) c shows i =
      contribution text (outermost family ⟨a, b⟩) b shows i := by
  rw [outermost_front hcut hordered hbc]
  refine (contribution_filter (by omega) fun s hs hat => ?_).symm
  have := mem_outermost_cut hcut hordered hs
  simp only [Span.holds, Bool.and_eq_true, decide_eq_true_eq] at hat
  exact Span.covers_iff.mpr ⟨by simp only; omega, by simp only; omega⟩

theorem contribution_back (hab : a ≤ b) (hi : b < i) :
    contribution text (outermost family ⟨a, c⟩) c shows i =
      contribution text (outermost (beyond family b) ⟨b, c⟩) c shows i := by
  rw [outermost_beyond hcut hab]
  refine (contribution_filter Iff.rfl fun s hs hat => ?_).symm
  have := mem_outermost_cut hcut hordered hs
  simp only [Span.holds, Bool.and_eq_true, decide_eq_true_eq] at hat
  exact decide_eq_true (by omega)

-- An insertion at the place stands in front of it, all else behind it.
theorem contribution_place (hab : a ≤ b) (hbc : b ≤ c) :
    contribution text (outermost family ⟨a, c⟩) c shows b =
      contribution text (outermost family ⟨a, b⟩) b shows b ++
        contribution text (outermost (beyond family b) ⟨b, c⟩) c shows b := by
  have hspan := fun s hs => mem_outermost_cut (s := s) hcut hordered hs
  have hinserts : (outermost family ⟨a, b⟩).find? (insertsAt b) =
      (outermost family ⟨a, c⟩).find? (insertsAt b) := by
    rw [outermost_front hcut hordered hbc]
    refine find?_filter_of_imp fun s hs hat => ?_
    have := hspan s hs
    have := insertsAt_iff.mp hat
    exact Span.covers_iff.mpr ⟨by simp only; omega, by simp only; omega⟩
  have hreplaces : (outermost family ⟨a, b⟩).find? (replacesFrom b) = none := by
    rw [outermost_front hcut hordered hbc]
    refine List.find?_eq_none.mpr fun s hs hat => ?_
    obtain ⟨hs, hin⟩ := List.mem_filter.mp hs
    have := hspan s hs
    have := replacesFrom_iff.mp hat
    rw [Span.covers_iff] at hin
    simp only at hin
    omega
  have hinserts' : (outermost (beyond family b) ⟨b, c⟩).find? (insertsAt b) = none := by
    rw [outermost_beyond hcut hab]
    refine List.find?_eq_none.mpr fun s hs hat => ?_
    have := of_decide_eq_true (List.mem_filter.mp hs).right
    have := insertsAt_iff.mp hat
    omega
  have hreplaces' : (outermost (beyond family b) ⟨b, c⟩).find? (replacesFrom b) =
      (outermost family ⟨a, c⟩).find? (replacesFrom b) := by
    rw [outermost_beyond hcut hab]
    refine find?_filter_of_imp fun s hs hat => ?_
    have := hspan s hs
    have := replacesFrom_iff.mp hat
    exact decide_eq_true (by omega)
  have hholds : (outermost (beyond family b) ⟨b, c⟩).any (·.span.holds b) =
      (outermost family ⟨a, c⟩).any (·.span.holds b) := by
    rw [outermost_beyond hcut hab]
    refine any_filter_of_imp fun s hs hat => ?_
    simp only [Span.holds, Bool.and_eq_true, decide_eq_true_eq] at hat ⊢
    omega
  simp only [contribution, startingAt, hinserts, hreplaces, hinserts', hreplaces', hholds]
  simp

omit hcut in
-- What lies behind the place shows there what it shows in the whole.
theorem shown_beyond {s : Replacement} (hs : s ∈ outermost (beyond family b) ⟨b, c⟩) :
    shown text (beyond family b) s = shown text family s := by
  have hin := Span.covers_iff.mp (mem_outermost.mp hs).right.left
  have hnested : (beyond family b).filter s.encloses = family.filter s.encloses := by
    rw [beyond, List.filter_filter]
    refine List.filter_congr fun t ht => ?_
    have ht' : t.span.start ≤ t.span.stop := hordered t ht
    cases henc : s.encloses t with
    | false => rfl
    | true =>
      rw [encloses_iff] at henc
      simp only at hin
      exact decide_eq_true (by omega)
  rw [shown, shown, hnested]

-- The text up to the place, with what is inserted there, and the text behind it.
theorem rendering_cut (hab : a ≤ b) (hbc : b ≤ c) :
    rendering text family ⟨a, c⟩ =
      rendering text family ⟨a, b⟩ ++ rendering text (beyond family b) ⟨b, c⟩ := by
  have hwhole : List.range' a (c - a + 1) =
      List.range' a (b - a) ++ (b :: List.range' (b + 1) (c - b)) := by
    rw [← List.range'_succ, show c - a + 1 = (b - a) + (c - b + 1) by omega, ← List.range'_append_1,
      Nat.add_sub_cancel' hab]
  have hleft : List.range' a (b - a + 1) = List.range' a (b - a) ++ [b] := by
    rw [List.range'_concat, Nat.one_mul, Nat.add_sub_cancel' hab]
  have hfront : (List.range' a (b - a)).flatMap
      (contribution text (outermost family ⟨a, c⟩) c (shown text family)) =
        (List.range' a (b - a)).flatMap
          (contribution text (outermost family ⟨a, b⟩) b (shown text family)) := by
    refine List.flatMap_congr fun i hi => ?_
    have := List.mem_range'_1.mp hi
    exact contribution_front hcut hordered hbc (by omega)
  have hback : (List.range' (b + 1) (c - b)).flatMap
      (contribution text (outermost family ⟨a, c⟩) c (shown text family)) =
        (List.range' (b + 1) (c - b)).flatMap
          (contribution text (outermost (beyond family b) ⟨b, c⟩) c (shown text family)) := by
    refine List.flatMap_congr fun i hi => ?_
    have := List.mem_range'_1.mp hi
    exact contribution_back hcut hordered hab (by omega)
  have hbehind : rendering text (beyond family b) ⟨b, c⟩ = (List.range' b (c - b + 1)).flatMap
      (contribution text (outermost (beyond family b) ⟨b, c⟩) c (shown text family)) := by
    rw [rendering_eq]
    exact List.flatMap_congr fun i _ => contribution_congr fun s hs => shown_beyond hordered hs
  rw [hbehind, rendering_eq, rendering_eq, Span.length, Span.length, hwhole, hleft, List.range'_succ]
  simp only [List.flatMap_append, List.flatMap_cons, List.flatMap_nil, hfront, hback,
    contribution_place hcut hordered hab hbc, List.append_nil, List.append_assoc]

end IsCut

end Cut

end Replacement

end ClassSplit
